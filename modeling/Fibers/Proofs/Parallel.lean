import Fibers.Proofs.Mirror

/-! Operations side by side.

Whatever the executing code does, the code like it does in a process like its own
(`Act.step_agrees`). Three things are left to those who compare processes that differ there: a fiber
is resumed and scheduler flags or hubs are not the same; the hub is looked up and hubs are not the
same; the handles of a callback go that panicked where the other has left off. -/
namespace Fibers

/-- Flags and hubs are the same. -/
structure Variation.Strict (v : Variation) : Prop where
  flags : ∀ flag flag', v.flags flag flag' → flag' = flag
  hubs : v.hubs

/-! ### Code goes on -/

section Code

variable {v : Variation}

theorem Leaves.append {α : Type} {panic : α → Prop} {R : α → α → Prop} {allowed : Prop}
    {l l' k k' : List α} (hl : List.Forall₂ R l l') (h : Leaves panic R allowed k k') :
    Leaves panic R allowed (l ++ k) (l' ++ k') := by
  rcases h with h | ⟨hallowed, before, a, rest, rfl, ha, h⟩
  · exact .inl (List.rel_append hl h)
  · exact .inr ⟨hallowed, l ++ before, a, rest, (List.append_assoc ..).symm, ha,
      List.rel_append hl h⟩

theorem Task.ofOps_alike {ops ops' : List Op} (h : List.Forall₂ (Op.Alike v) ops ops') :
    List.Forall₂ (Task.Alike v) (Task.ofOps ops) (Task.ofOps ops') :=
  List.rel_map (fun _ _ hop => .perform hop) h

/-- A callback that leaves off does so as code too. -/
theorem Op.Leave.ofOps {ops ops' : List Op} {allowed : Prop} (h : Op.Leave v ops ops')
    (hallowed : v.cuts → allowed) :
    Leaves Task.Panics (Task.Alike v) allowed (Task.ofOps ops) (Task.ofOps ops') := by
  rcases h with h | ⟨hcuts, before, op, rest, rfl, hop, h⟩
  · exact .inl (Task.ofOps_alike h)
  · refine .inr ⟨hallowed hcuts, Task.ofOps before, .perform op, Task.ofOps rest, ?_, hop,
      Task.ofOps_alike h⟩
    simp [Task.ofOps]

namespace Code.Alike

variable {code code' : Code}

theorem before {tasks tasks' : List Task} (h : code.Alike v code')
    (htasks : List.Forall₂ (Task.Alike v) tasks tasks') :
    (code.before tasks).Alike v (code'.before tasks') := by
  cases h with
  | active h => exact .active {h with todo := h.todo.append htasks}
  | opening h => exact .opening h
  | entry f => exact .entry f
  | leaving origin held h => exact .leaving origin held h
  | returned origin h => exact .returned origin h
  | spent f => exact .spent f

theorem hold (f : Nat) (h : code.Alike v code') : (code.hold f).Alike v (code'.hold (v.id f)) := by
  cases h with
  | active h => exact .active {h with held := by simp [h.held]}
  | opening h => exact .opening h
  | entry f => exact .entry f
  | leaving origin held h => exact .leaving origin held h
  | returned origin h => exact .returned origin h
  | spent f => exact .spent f

theorem leave (outcome : Outcome) (h : code.Alike v code') :
    (code.leave outcome).Alike v (code'.leave outcome) := by
  cases h with
  | @active frame frame' h =>
    obtain ⟨horigin, hheld, -⟩ := h
    rw [Code.leave, Code.leave, horigin, hheld]
    exact .leaving _ _ (.same _ outcome)
  | opening h => exact .opening h
  | entry f => exact .entry f
  | leaving origin held h => exact .leaving origin held h
  | returned origin h => exact .returned origin h
  | spent f => exact .spent f

end Code.Alike

end Code

namespace Act

variable {α β : Type} {m : Likeness} {w u : Pairing}

/-! ### Switches -/

theorem mirrors_takeContext (f : Nat) : Mirrors m w (takeContext f) (takeContext (m.id f))
    fun _ => Context.Alike m.toVariation := by
  refine (mirrors_fiber f).bind fun v x x' hv hx => ?_
  have hcontext := hx.context
  cases hk : x.context <;> cases hk' : x'.context <;> rw [hk, hk'] at hcontext <;> cases hcontext
  · exact mirrors_violate (.noContext f)
  · next hk =>
    have htaken : Fiber.Alike m.toVariation v {x with context := none} {x' with context := none} :=
      {hx with context := Option.Rel.none}
    exact (mirrors_setFiber f htaken).seq fun _ _ _ _ => mirrors_pure fun _ _ => hk

theorem mirrors_fileContext (f : Nat) {k k' : Context} (hk : k.Alike m.toVariation k') :
    Mirrors m w (fileContext f k) (fileContext (m.id f) k') Same := by
  refine (mirrors_fiber f).bind fun v x x' hv hx => ?_
  refine (mirrors_lose _ _).seq fun u _ _ hu => ?_
  have hfiled :
      Fiber.Alike m.toVariation u {x with context := some k} {x' with context := some k'} :=
    {hx.mono hu with context := .some hk}
  exact mirrors_setFiber f hfiled

theorem mirrors_switchTo {target target' : Context} (home : Nat)
    (h : target.Alike m.toVariation target') :
    Mirrors m w (switchTo target home) (switchTo target' (m.id home)) Same := by
  refine mirrors_freshSerial.same fun v serial _ => ?_
  refine mirrors_thread.bind fun u t t' _ ht => ?_
  refine Mirrors.seq (mirrors_modifyThread fun _ _ _ _ ht => {ht with running := h})
    fun _ _ _ _ => ?_
  exact mirrors_fileContext home ⟨rfl, ht.running.code⟩

theorem mirrors_switchInto (f c : Nat) :
    Mirrors m w (switchInto f c) (switchInto (m.id f) (m.id c)) Same := by
  refine (mirrors_takeContext f).bind fun _ k k' _ hk => ?_
  refine (mirrors_setCurrent (some f)).seq fun _ _ _ _ => ?_
  refine Mirrors.seq (mirrors_modifyFiber f fun _ _ _ _ hx => {hx with state := rfl})
    fun _ _ _ _ => ?_
  refine (mirrors_logRenamed (.resuming f) fun _ _ h => by cases h).seq fun _ _ _ _ => ?_
  exact mirrors_switchTo c hk

theorem mirrors_anchorTo (f a : Nat) :
    Mirrors m w (anchorTo f a) (anchorTo (m.id f) (m.id a)) m.Called :=
  (mirrors_ensure m.injective.ne_iff (.anchorsItself f)).seq
    fun _ _ _ _ => mirrors_pure fun _ _ => rfl

theorem mirrors_chooseAnchor (f root : Nat) (hub : Option Nat) :
    Mirrors m w (chooseAnchor f root hub) (chooseAnchor (m.id f) (m.id root) (hub.map m.id))
      m.Called := by
  cases hub with
  | none => exact mirrors_anchorTo f root
  | some hub => exact (mirrors_release root).seq fun _ _ _ _ => mirrors_anchorTo f hub

theorem mirrors_anchorOn (hm : m.Strict) (f root : Nat) (flag : Bool) :
    Mirrors m w (anchorOn f root flag) (anchorOn (m.id f) (m.id root) flag) m.Called := by
  cases flag with
  | false => exact mirrors_chooseAnchor f root none
  | true =>
    refine (mirrors_hubFiber hm.hubs).bind fun _ hub _ _ h => ?_
    cases h
    exact mirrors_chooseAnchor f root hub

theorem mirrors_anchor (hm : m.Strict) (f : Nat) {flag flag' : Bool} (h : m.flags flag flag') :
    Mirrors m w (anchor f flag) (anchor (m.id f) flag') m.Called := by
  cases hm.flags _ _ h
  rw [anchor_eq, anchor_eq]
  refine mirrors_thread.bind fun v t _ _ ht => ?_
  rw [ht.root]
  cases t.root with
  | some root => exact (mirrors_retain root).seq fun _ _ _ _ => mirrors_anchorOn hm f root flag
  | none =>
    refine mirrors_currentFiber.bind fun _ root _ _ hroot => ?_
    cases hroot
    exact mirrors_anchorOn hm f root flag

theorem mirrors_handBack (f c a : Nat) :
    Mirrors m w (handBack c a (switchInto f c))
      (handBack (m.id c) (m.id a) (switchInto (m.id f) (m.id c))) Same :=
  (mirrors_release c).seq fun _ _ _ _ => (mirrors_release a).seq fun _ _ _ _ =>
    mirrors_switchInto f c

theorem mirrors_resume (hm : m.Strict) (f : Nat) :
    Mirrors m w (resume f) (resume (m.id f)) Same := by
  rw [resume_eq, resume_eq]
  refine (mirrors_fiber f).bind fun v x x' _ hx => ?_
  rw [hx.state]
  refine (mirrors_ensure Iff.rfl (.resumedWhile f x.state)).seq fun _ _ _ _ => ?_
  refine mirrors_currentFiber.bind fun _ c _ _ hc => ?_
  cases hc
  refine (mirrors_anchor hm f hx.scheduled).bind fun v a _ _ ha => ?_
  cases ha
  by_cases hca : c = a
  · rw [if_neg (not_not.mpr hca), if_neg (not_not.mpr (congrArg m.id hca))]
    exact mirrors_handBack f c a
  · rw [if_pos hca, if_pos (m.injective.ne hca)]
    exact (mirrors_logRenamed (.foreignAnchor f c a) fun _ _ h => by cases h).seq
      fun _ _ _ _ => mirrors_handBack f c a

theorem mirrors_switchBack (f root : Nat) :
    Mirrors m w (switchBack f root) (switchBack (m.id f) (m.id root)) Same :=
  (mirrors_takeContext root).bind fun _ _ _ _ hk =>
    (mirrors_logRenamed (.yielding f) fun _ _ h => by cases h).seq fun _ _ _ _ =>
      mirrors_switchTo f hk

theorem mirrors_yieldTo (f root : Nat) (state : State) :
    Mirrors m w (yieldTo f root state) (yieldTo (m.id f) (m.id root) state) Same := by
  refine (mirrors_setCurrent (some root)).seq fun v _ _ _ => ?_
  split
  · exact Mirrors.seq (mirrors_modifyFiber f fun _ _ _ _ hx => {hx with state := rfl})
      fun _ _ _ _ => mirrors_switchBack f root
  · exact mirrors_switchBack f root

theorem mirrors_yieldFiber (f : Nat) :
    Mirrors m w (yieldFiber f) (yieldFiber (m.id f)) Same := by
  rw [yieldFiber_eq, yieldFiber_eq]
  refine (mirrors_fiber f).bind fun v x x' _ hx => ?_
  rw [hx.state]
  refine (mirrors_ensure Iff.rfl (.yieldedWhile f x.state)).seq fun _ _ _ _ => ?_
  refine (mirrors_ensure (by rw [Fiber.isRoot, Fiber.isRoot, rel_isNone hx.stack])
    (.rootYielded f)).seq fun _ _ _ _ => ?_
  refine mirrors_thread.bind fun v t _ _ ht => ?_
  rw [ht.root]
  cases t.root with
  | none => exact mirrors_violate (.yieldedWithoutRoot f)
  | some root => exact mirrors_yieldTo f root x.state

/-! ### Into and out of callbacks -/

theorem mirrors_enter (hm : m.Reports) : Mirrors m w enter enter Same := by
  refine mirrors_currentFiber.bind fun _ f _ _ hf => ?_
  cases hf
  refine (mirrors_fiber f).bind fun v x x' hv hx => ?_
  have hcallback := hx.callback
  cases hc : x.callback <;> cases hc' : x'.callback <;> rw [hc, hc'] at hcallback <;>
    cases hcallback
  · exact mirrors_violate (.startedWithoutCallback f)
  · next callback callback' h =>
    have hbegun :
        Fiber.Alike m.toVariation v {x with callback := none} {x' with callback := none} :=
      {hx with callback := Option.Rel.none}
    refine (mirrors_setFiber f hbegun).seq fun _ _ _ _ => ?_
    have hcode : Code.Alike m.toVariation (.active ⟨.callback f, [], Task.ofOps callback⟩)
        (.active ⟨.callback (m.id f), [], Task.ofOps callback'⟩) :=
      .active ⟨rfl, rfl, h.ofOps fun hcuts => ⟨hcuts, fun ho => nomatch ho⟩⟩
    refine (mirrors_become hcode).seq fun _ _ _ _ => ?_
    exact mirrors_status.bind fun _ _ _ _ hs => mirrors_emit hm (.began hs) fun _ h => by cases h

theorem mirrors_returnFrom (origin : Origin) (held : List Nat) (outcome : Outcome) :
    Mirrors m w (returnFrom origin held outcome)
      (returnFrom (origin.rename m.toVariation) (held.map m.id) outcome) Same := by
  refine (mirrors_become (.returned origin (.same origin outcome))).seq fun _ _ _ _ => ?_
  refine (mirrors_releaseAll held).seq fun _ _ _ _ => ?_
  cases origin with
  | program => exact mirrors_same ()
  | callback f =>
    cases outcome with
    | finished => exact mirrors_same ()
    | panicked payload =>
      exact mirrors_logRenamed (.panicked f payload.report) fun _ _ h => by cases h

theorem mirrors_leave (hm : m.Reports) (origin : Origin) (held : List Nat) (outcome : Outcome) :
    Mirrors m w (leave origin held outcome)
      (leave (origin.rename m.toVariation) (held.map m.id) outcome) Same := by
  rw [leave_eq, leave_eq]
  by_cases ho : outcome = .finished
  · rw [if_pos ho, if_pos ho]
    refine mirrors_status.bind fun _ _ _ _ hs => ?_
    exact (mirrors_emit hm (.ended hs) fun _ h => by cases h).seq
      fun _ _ _ _ => mirrors_returnFrom origin held outcome
  · rw [if_neg ho, if_neg ho]
    exact mirrors_returnFrom origin held outcome

theorem mirrors_finish (f : Nat) : Mirrors m w (finish f) (finish (m.id f)) Same := by
  refine Mirrors.seq (mirrors_modifyFiber f fun _ _ _ _ hx => {hx with state := rfl})
    fun _ _ _ _ => ?_
  refine (mirrors_become (.spent f)).seq fun _ _ _ _ => ?_
  refine (mirrors_release f).seq fun _ _ _ _ => ?_
  refine mirrors_thread.bind fun _ t t' _ ht => ?_
  refine (mirrors_ensure (alive_alike ht f) (.rootYielded f)).seq fun _ _ _ _ => ?_
  exact mirrors_yieldFiber f

/-! ### Slots -/

theorem mirrors_slot? (s : String) :
    Mirrors m w (slot? s) (slot? s) fun _ f f' => f' = f.map m.id :=
  mirrors_thread.bind fun _ _ _ _ ht => mirrors_pure fun _ _ => ht.slots s

theorem mirrors_putSlot (s : String) (f : Nat) :
    Mirrors m w (putSlot s f) (putSlot s (m.id f)) Same := by
  refine (mirrors_slot? s).bind fun v g g' _ hg => ?_
  cases hg
  refine Mirrors.seq (mirrors_modifyThread fun _ t t' _ ht => {ht with slots := fun k => ?_})
    fun u _ _ _ => ?_
  · simp only [Table.get?_set]
    split
    · rfl
    · exact ht.slots k
  · cases g with
    | none => exact mirrors_same ()
    | some g => exact mirrors_release g

theorem mirrors_emptySlot (s : String) : Mirrors m w (emptySlot s) (emptySlot s) Same := by
  refine mirrors_modifyThread fun _ t t' _ ht => {ht with slots := fun k => ?_}
  simp only [Table.get?_erase]
  split
  · rfl
  · exact ht.slots k

theorem mirrors_keepOrRelease (s : Option String) (f : Nat) :
    Mirrors m w (keepOrRelease s f) (keepOrRelease s (m.id f)) Same := by
  cases s with
  | none => exact mirrors_release f
  | some s => exact mirrors_putSlot s f

theorem mirrors_onSlot (s : String) {act act' : Nat → Act Answer}
    (h : ∀ u f, w ⊆ u → Mirrors m u (act f) (act' (m.id f)) (Answer.Alike m.toVariation)) :
    Mirrors m w (onSlot s act) (onSlot s act') (Answer.Alike m.toVariation) := by
  refine (mirrors_slot? s).bind fun v f f' hv hf => ?_
  cases hf
  cases f with
  | none => exact mirrors_pure fun _ _ => .same trivial
  | some f => exact h v f hv

theorem mirrors_nothing :
    Mirrors m w (pure .nothing) (pure .nothing) (Answer.Alike m.toVariation) :=
  mirrors_pure fun _ _ => .same trivial

theorem stackSize_alike {x x' : Fiber} (h : x.Alike m.toVariation w x') :
    x'.stack.elim 0 (·.size) = x.stack.elim 0 (·.size) := by
  have hstack := h.stack
  revert hstack
  cases x.stack <;> cases x'.stack <;> intro hstack <;> cases hstack
  · rfl
  · next h => exact h.size

theorem view_alike {x x' : Fiber} (f : Nat) (h : x.Alike m.toVariation w x') :
    (x.view f).Alike m.toVariation w (x'.view (m.id f)) :=
  ⟨rfl, h.state, h.stack, h.scheduled⟩

theorem mirrors_create (s : String) {c c' : Script} (size : Nat) {flag flag' : Bool}
    (supply : Option Supply) (hc : Script.Answers m.toVariation c c') (hflag : m.flags flag flag') :
    Mirrors m w (create s c size flag supply) (create s c' size flag' supply)
      (Answer.Alike m.toVariation) := by
  refine (mirrors_resolve (hc.ops? m.fit)).bind fun v ops ops' _ hops => ?_
  cases hops with
  | none => exact mirrors_pure fun _ _ => .same trivial
  | some hops =>
    refine (mirrors_allocator? _).same fun v allocator _ => ?_
    cases allocator with
    | none => exact mirrors_pure fun _ _ => .same trivial
    | some allocator =>
      refine (mirrors_createFiber size allocator hops hflag).bind fun _ f _ _ hf => ?_
      cases hf
      refine (mirrors_fiber f).bind fun _ x x' _ hx => ?_
      refine (mirrors_putSlot s f).seq fun _ _ _ _ => mirrors_pure fun _ _ => ?_
      rw [hx.state, stackSize_alike hx]
      exact .created f x.state _

/-- What is known of the answers of each of two actions is known where they are compared. -/
theorem Mirrors.told {act act' : Act α} {A : Pairing → α → α → Prop} {P : α → Prop}
    (h : Mirrors m w act act' A) (hact : ∀ p, act.Leads p (fun a _ => P a) fun _ _ => True)
    (hact' : ∀ p, act'.Leads p (fun a _ => P a) fun _ _ => True) :
    Mirrors m w act act' fun u a a' => A u a a' ∧ P a ∧ P a' := by
  intro u hu p p' hp
  have hagree := h u hu p p' hp
  cases hr : act p <;> cases hr' : act' p' <;> rw [hr, hr'] at hagree
  · obtain ⟨v, hv, hq, ha⟩ := hagree
    exact ⟨v, hv, hq, ha, (hact p).ok hr, (hact' p').ok hr'⟩
  · exact hagree.elim
  · exact hagree.elim
  · exact hagree

/-- A fiber that is reset keeps its stack. -/
theorem renewal_stack (f : Nat) (callback : List Op) (p : Process) :
    (renewal f callback).Leads p (fun a _ => a.2.stack = a.1.stack) fun _ _ => True := by
  unfold renewal
  refine leads_bind.mpr (leads_fiber_of (fun x hx => ?_) trivial)
  refine Leads.bind ((resetFiber_leads callback hx).mono (fun _ _ h => h) fun _ _ _ => trivial)
    fun _ q hq => ?_
  obtain ⟨-, -, hlike, -, -⟩ := hq
  have hy := (hlike.fibers f).trans (Thread.get?_renew.trans (if_pos rfl))
  exact leads_bind.mpr ((leads_fiber hy).mpr rfl)

theorem mirrors_renewal (f : Nat) {callback callback' : List Op}
    (hc : Op.Leave m.toVariation callback callback') :
    Mirrors m w (renewal f callback) (renewal (m.id f) callback') fun u a a' =>
      a.1.Alike m.toVariation u a'.1 ∧ a.2.Alike m.toVariation u a'.2 := by
  refine (mirrors_fiber f).bind fun v x x' _ hx => ?_
  refine (mirrors_resetFiber f hc).seq fun _ _ _ h₁ => ?_
  refine (mirrors_fiber f).bind fun _ y y' h₂ hy => mirrors_pure fun _ hv => ⟨?_, hy.mono hv⟩
  exact hx.mono (List.Subset.trans h₁ (List.Subset.trans h₂ hv))

theorem mirrors_reset (s : String) {c c' : Script} {answerOf : Fiber → Fiber → Answer}
    (hc : Script.Answers m.toVariation c c')
    (h : ∀ (u : Pairing) x x' y y', y.stack = x.stack → y'.stack = x'.stack →
      y.Alike m.toVariation u y' → (answerOf x y).Alike m.toVariation u (answerOf x' y')) :
    Mirrors m w (reset s c answerOf) (reset s c' answerOf) (Answer.Alike m.toVariation) := by
  rw [reset_eq, reset_eq]
  refine mirrors_onSlot s fun v f _ => ?_
  refine (mirrors_resolve (hc.ops? m.fit)).bind fun v ops ops' _ hops => ?_
  cases hops with
  | none => exact mirrors_pure fun _ _ => .same trivial
  | some hops =>
    have hrenewal := (mirrors_renewal (w := v) f hops).told (renewal_stack f _)
      (renewal_stack (m.id f) _)
    refine hrenewal.bind fun u a a' _ ha => mirrors_pure fun _ hv => ?_
    obtain ⟨⟨-, hy⟩, hstack, hstack'⟩ := ha
    exact h _ a.1 a'.1 a.2 a'.2 hstack hstack' (hy.mono hv)

theorem mirrors_findCurrent (s : Option String) :
    Mirrors m w (findCurrent s) (findCurrent s) (Answer.Alike m.toVariation) := by
  refine mirrors_currentFiber.bind fun _ f _ _ hf => ?_
  cases hf
  refine (mirrors_fiber f).bind fun _ x x' _ hx => ?_
  refine (mirrors_keepOrRelease s f).seq fun _ _ _ _ => mirrors_pure fun _ _ => ?_
  rw [hx.state, Fiber.isRoot, Fiber.isRoot, rel_isNone hx.stack]
  exact .found f x.state _

theorem mirrors_findHub (hm : m.hubs) (s : Option String) :
    Mirrors m w (findHub s) (findHub s) (Answer.Alike m.toVariation) := by
  refine (mirrors_hubFiber hm).bind fun _ hub _ _ hhub => ?_
  cases hhub
  cases hub with
  | none => exact mirrors_pure fun _ _ => .hub none
  | some h =>
    exact (mirrors_keepOrRelease s h).seq fun _ _ _ _ => mirrors_pure fun _ _ => .hub (some h)

theorem mirrors_setHub (hub : Option Nat) :
    Mirrors m w (setHub hub) (setHub (hub.map m.id)) (Answer.Alike m.toVariation) :=
  Mirrors.seq (mirrors_modifyThread fun _ _ _ _ ht => {ht with hub := fun _ => rfl})
    fun _ _ _ _ => mirrors_nothing

theorem mirrors_clone (s target : String) :
    Mirrors m w (clone s target) (clone s target) (Answer.Alike m.toVariation) :=
  mirrors_onSlot s fun _ f _ => (mirrors_retain f).seq fun _ _ _ _ =>
    (mirrors_putSlot target f).seq fun _ _ _ _ => mirrors_nothing

theorem mirrors_drop (s : String) :
    Mirrors m w (drop s) (drop s) (Answer.Alike m.toVariation) :=
  mirrors_onSlot s fun _ f _ => (mirrors_emptySlot s).seq fun _ _ _ _ =>
    (mirrors_release f).seq fun _ _ _ _ => mirrors_nothing

theorem mirrors_hold (s : String) :
    Mirrors m w (hold s) (hold s) (Answer.Alike m.toVariation) := by
  refine mirrors_onSlot s fun _ f _ => (mirrors_emptySlot s).seq fun _ _ _ _ => ?_
  refine Mirrors.seq (mirrors_modifyThread fun _ t t' _ ht => ?_) fun _ _ _ _ => mirrors_nothing
  exact {ht with running := ⟨ht.running.serial, ht.running.code.hold f⟩}

/-- What is answered from a fiber that is looked at. -/
theorem mirrors_look (s : String) {answerOf : Nat → Fiber → Answer}
    (h : ∀ (u : Pairing) f x x', x.Alike m.toVariation u x' →
      (answerOf f x).Alike m.toVariation u (answerOf (m.id f) x')) :
    Mirrors m w (onSlot s fun f => return answerOf f (← fiber f))
      (onSlot s fun f => return answerOf f (← fiber f)) (Answer.Alike m.toVariation) :=
  mirrors_onSlot s fun _ f _ => (mirrors_fiber f).bind fun u x x' _ hx =>
    mirrors_pure fun _ hv => (h u f x x' hx).mono hv

/-! ### Belongings of the scripts -/

theorem mirrors_add (counter : String) (amount : Int) :
    Mirrors m w (add counter amount) (add counter amount) (Answer.Alike m.toVariation) := by
  refine mirrors_thread.bind fun _ t _ _ ht => ?_
  rw [ht.counters]
  refine Mirrors.seq (mirrors_modifyThread fun _ t t' _ ht => {ht with counters := ?_})
    fun _ _ _ _ => mirrors_pure fun _ _ => .same trivial
  rw [ht.counters]

theorem mirrors_makeTally (name : String) (source : Memory.Source) (limit : Option Nat) :
    Mirrors m w (makeTally name source limit) (makeTally name source limit)
      (Answer.Alike m.toVariation) := by
  refine Mirrors.seq (mirrors_modifyThread fun _ t t' _ ht => {ht with
    tallies := ?_, tallyNames := ?_ }) fun _ _ _ _ => mirrors_nothing
  · rw [ht.tallies]
  · rw [ht.tallies, ht.tallyNames]

theorem mirrors_readTally (name : String) :
    Mirrors m w (readTally name) (readTally name) (Answer.Alike m.toVariation) := by
  refine mirrors_thread.bind fun _ t t' _ ht => ?_
  have htally : t'.tally? name = t.tally? name := by
    rw [Thread.tally?, Thread.tally?, ht.tallies, ht.tallyNames]
  rw [htally]
  cases t.tally? name <;> exact mirrors_pure fun _ _ => .same trivial

theorem alike_kept {t t' : Thread} {stack stack' : Memory.Stack} (name : String)
    (h : t.Alike m.toVariation w t') (hs : stack.Alike w stack') :
    Thread.Alike m.toVariation w {t with kept := t.kept.set name stack}
      {t' with kept := t'.kept.set name stack'} :=
  {h with
    kept := by
      intro k
      simp only [Table.get?_set]
      split
      · exact .some hs
      · exact h.kept k }

theorem mirrors_makeStack (name : String) (size : Nat) (supply : Supply) :
    Mirrors m w (makeStack name size supply) (makeStack name size supply)
      (Answer.Alike m.toVariation) := by
  refine (mirrors_allocator? _).same fun v allocator _ => ?_
  cases allocator with
  | none => exact mirrors_pure fun _ _ => .same trivial
  | some allocator =>
    refine (mirrors_allocateStack _ _).bind fun v result _ _ hresult => ?_
    cases hresult with
    | error error => exact mirrors_pure fun _ _ => .same trivial
    | @ok stack stack' hs =>
      refine mirrors_thread.bind fun v t t' h₁ ht => ?_
      refine Mirrors.seq (mirrors_modifyThread fun _ _ _ h₂ ht =>
        alike_kept name ht (hs.mono (List.Subset.trans h₁ h₂))) fun u _ _ h₂ => ?_
      have hanswer {u' : Pairing} (h₃ : u ⊆ u') :
          Answer.Alike m.toVariation u' (.stack stack) (.stack stack') :=
        .stack (hs.mono (List.Subset.trans h₁ (List.Subset.trans h₂ h₃)))
      have hkept := ht.kept name
      revert hkept
      cases t.kept.get? name <;> cases t'.kept.get? name <;> intro hkept <;> cases hkept
      · exact mirrors_pure fun _ h₃ => hanswer h₃
      · next h =>
        exact (mirrors_releaseStack (h.mono h₂)).seq fun _ _ _ h₃ =>
          mirrors_pure fun _ h₄ => hanswer (List.Subset.trans h₃ h₄)

theorem mirrors_freeStack (name : String) :
    Mirrors m w (freeStack name) (freeStack name) (Answer.Alike m.toVariation) := by
  refine mirrors_thread.bind fun v t t' h₁ ht => ?_
  have hkept := ht.kept name
  revert hkept
  cases t.kept.get? name <;> cases t'.kept.get? name <;> intro hkept <;> cases hkept
  · exact mirrors_pure fun _ _ => .same trivial
  · next h =>
    refine Mirrors.seq (mirrors_modifyThread fun _ t t' _ ht => {ht with kept := fun k => ?_})
      fun _ _ _ h₂ => ?_
    · simp only [Table.get?_erase]
      split
      · exact Option.Rel.none
      · exact ht.kept k
    · exact (mirrors_releaseStack (h.mono h₂)).seq fun _ _ _ _ => mirrors_nothing

/-! ### Performing -/

theorem mirrors_defer {tasks tasks' : List Task}
    (h : List.Forall₂ (Task.Alike m.toVariation) tasks tasks') :
    Mirrors m w (defer tasks) (defer tasks') Same :=
  mirrors_modifyThread fun _ _ _ _ ht =>
    {ht with running := ⟨ht.running.serial, ht.running.code.before h⟩}

theorem mirrors_deferOne {task task' : Task} (h : Task.Alike m.toVariation task task') :
    Mirrors m w (defer [task]) (defer [task']) Same :=
  mirrors_defer (.cons h .nil)

theorem mirrors_bodyOf {c c' : Script} (hc : Script.Alike m.toVariation c c') :
    Mirrors m w (bodyOf c) (bodyOf c') fun _ => List.Forall₂ (Op.Alike m.toVariation) :=
  (mirrors_resolve (hc.ops? m.fit)).bind fun _ _ _ _ h => mirrors_pure fun _ _ => by
    cases h with
    | some h => exact h
    | none => exact .nil

theorem alike_start {program program' : List Op} (serial : Nat)
    (h : List.Forall₂ (Op.Alike m.toVariation) program program') :
    Thread.Alike m.toVariation w (.start serial program) (.start serial program') where
  fibers _ := Option.Rel.none
  others _ _ := rfl
  current := rfl
  root := rfl
  hub _ := rfl
  slots _ := rfl
  counters := rfl
  tallies := rfl
  tallyNames := rfl
  kept _ := Option.Rel.none
  running := ⟨rfl, .opening h⟩

theorem mirrors_launch (label : Label) {program program' : List Op}
    (h : List.Forall₂ (Op.Alike m.toVariation) program program') :
    Mirrors m w (launch label program) (launch label program') Same :=
  mirrors_freshSerial.same fun _ serial _ => mirrors_modify fun _ _ _ _ hp =>
    {hp with thread := alike_start serial h, joining := .cons ⟨hp.thread, rfl⟩ hp.joining}

theorem mirrors_slotState? (s : String) : Mirrors m w (slotState? s) (slotState? s) Same := by
  refine (mirrors_slot? s).bind fun v f f' _ hf => ?_
  cases hf
  cases f with
  | none => exact mirrors_same none
  | some f =>
    exact (mirrors_fiber f).bind fun _ x x' _ hx => mirrors_pure fun _ _ => congrArg some hx.state

/-- An operation that answers. -/
theorem Mirrors.answer (hm : m.Reports) {act act' : Act Answer} {label : Label}
    (h : Mirrors m w act act' (Answer.Alike m.toVariation)) :
    Mirrors m w (do answer label (← act)) (do answer label (← act')) Same :=
  h.bind fun _ _ _ _ ha => mirrors_answer hm label ha

/-- What is the same in both processes is answered. -/
theorem mirrors_answerSame (hm : m.Reports) (label : Label) {a : Answer} (ha : a.Nameless) :
    Mirrors m w (answer label a) (answer label a) Same :=
  mirrors_answer hm label (.same ha)

theorem mirrors_throughSlot (hm : m.Reports) (s : String) (label : Label)
    {act act' : Nat → Act Unit}
    (h : ∀ u f, w ⊆ u → Mirrors m u (act f) (act' (m.id f)) Same) :
    Mirrors m w (throughSlot s label act) (throughSlot s label act') Same := by
  refine (mirrors_slot? s).bind fun v f f' hv hf => ?_
  cases hf
  cases f with
  | none => exact mirrors_answerSame hm label trivial
  | some f => exact h v f hv

theorem mirrors_holding {f : Nat} {task task' : Task} {next next' : Act Unit}
    (ht : task.Alike m.toVariation task') (h : ∀ u, Mirrors m u next next' Same) :
    Mirrors m w (holding f task next) (holding (m.id f) task' next') Same :=
  (mirrors_retain f).seq fun _ _ _ _ => (mirrors_deferOne ht).seq fun u _ _ _ => h u

theorem mirrors_answerState (hm : m.Reports) (label : Label) (f : Nat) :
    Mirrors m w (answerState label f) (answerState label (m.id f)) Same := by
  refine (mirrors_fiber f).bind fun _ x x' _ hx => (mirrors_release f).seq fun _ _ _ _ => ?_
  rw [hx.state]
  exact mirrors_answerSame hm label trivial

/-- What the executing code does is done by code like it, flags and hubs apart. -/
theorem mirrors_perform (hm : m.Reports) {op op' : Op} (h : Op.Alike m.toVariation op op')
    (hresume : ∀ s, op.action = .resume s → m.Strict) (hhub : ∀ s, op.action = .hub s → m.hubs) :
    Mirrors m w (perform op) (perform op') Same := by
  obtain @⟨label, a, a', h⟩ := h
  cases h with
  | create s size supply hc hflag => exact (mirrors_create s size supply hc hflag).answer hm
  | reset s hc =>
    refine (mirrors_reset s hc fun _ _ _ _ _ _ _ hy => ?_).answer hm
    rw [hy.state]
    exact .same trivial
  | resetInPlace s hc =>
    refine (mirrors_reset s hc fun _ _ _ _ _ hstack hstack' _ => ?_).answer hm
    simp only [hstack, hstack', decide_true]
    exact .same trivial
  | runThread hc =>
    refine (mirrors_resolve (hc.ops? m.fit)).bind fun _ ops ops' _ hops => ?_
    cases hops with
    | none => exact mirrors_answerSame hm label trivial
    | some hops => exact mirrors_launch label hops
  | times n hc => exact (mirrors_bodyOf hc).bind fun _ _ _ _ h => mirrors_deferOne (.again n h)
  | untilTerm s hc =>
    exact (mirrors_bodyOf hc).bind fun _ _ _ _ h => mirrors_deferOne (.untilTerm maxRounds s h)
  | whenState s state hc hd =>
    refine (mirrors_slotState? s).same fun _ found _ => ?_
    split
    · exact (mirrors_bodyOf hc).bind fun _ _ _ _ h => mirrors_defer (Task.ofOps_alike h)
    · exact (mirrors_bodyOf hd).bind fun _ _ _ _ h => mirrors_defer (Task.ofOps_alike h)
  | plain ha =>
    cases a with
    | nothing => exact mirrors_answerSame hm label trivial
    | resume s =>
      exact mirrors_throughSlot hm s label fun _ f _ => mirrors_holding (.resumed label f)
        fun _ => mirrors_resume (hresume s rfl) f
    | yield =>
      refine (mirrors_deferOne (.yielded label none)).seq fun _ _ _ _ => ?_
      refine mirrors_currentFiber.bind fun _ f _ _ hf => ?_
      cases hf
      exact (mirrors_release f).seq fun _ _ _ _ => mirrors_yieldFiber f
    | yieldOf s =>
      exact mirrors_throughSlot hm s label fun _ f _ => mirrors_holding (.yielded label (some f))
        fun _ => mirrors_yieldFiber f
    | current s => exact (mirrors_findCurrent s).answer hm
    | clone s target => exact (mirrors_clone s target).answer hm
    | drop s => exact (mirrors_drop s).answer hm
    | hold s => exact (mirrors_hold s).answer hm
    | state s =>
      have hstate (u : Pairing) (f : Nat) (x x' : Fiber) (hx : x.Alike m.toVariation u x') :
          Answer.Alike m.toVariation u (.state x.state) (.state x'.state) := by
        rw [hx.state]
        exact .same trivial
      exact (mirrors_look s hstate).answer hm
    | view s =>
      exact (mirrors_look s fun _ f _ _ hx => .view (view_alike f hx)).answer hm
    | inspect s =>
      exact (mirrors_look s fun _ f _ _ hx => .inspection (view_alike f hx)).answer hm
    | same s other =>
      refine (mirrors_onSlot s fun _ f _ => mirrors_onSlot other fun _ g _ => ?_).answer hm
      refine mirrors_pure fun _ _ => ?_
      rw [decide_eq_decide.mpr m.injective.eq_iff]
      exact .same trivial
    | setHub s => exact (mirrors_onSlot s fun _ f _ => mirrors_setHub (some f)).answer hm
    | clearHub => exact (mirrors_setHub none).answer hm
    | hub s => exact (mirrors_findHub (hhub s rfl) s).answer hm
    | currentId =>
      exact mirrors_status.bind fun _ _ _ _ hs => mirrors_answer hm label (.id hs.current)
    | panic payload =>
      have hleave : Mirrors m w
          (modifyThread fun t => t.become (t.running.code.leave (.panicked payload)))
          (modifyThread fun t => t.become (t.running.code.leave (.panicked payload))) Same :=
        mirrors_modifyThread fun _ _ _ _ ht =>
          {ht with running := ⟨ht.running.serial, ht.running.code.leave (.panicked payload)⟩}
      exact hleave
    | note => exact mirrors_answerSame hm label trivial
    | add counter amount => exact (mirrors_add counter amount).answer hm
    | install config => exact (mirrors_install config).answer hm
    | readEnvironment =>
      refine mirrors_get.bind fun _ p _ _ hp => ?_
      rw [hp.environment]
      cases Config.ofEnvironment p.environment <;> exact mirrors_answerSame hm label trivial
    | stackSize =>
      exact mirrors_defaultStackSize.same fun _ _ _ => mirrors_answerSame hm label trivial
    | setEnvironment environment =>
      exact Mirrors.seq (mirrors_modify fun _ _ _ _ hp => {hp with environment := rfl})
        fun _ _ _ _ => mirrors_answerSame hm label trivial
    | makeTally name source limit => exact (mirrors_makeTally name source limit).answer hm
    | readTally name => exact (mirrors_readTally name).answer hm
    | makeStack name size supply => exact (mirrors_makeStack name size supply).answer hm
    | freeStack name => exact (mirrors_freeStack name).answer hm
    | _ => exact ha.elim

/-- The next thing that the executing code has to do. -/
theorem mirrors_carryOut (hm : m.Reports) {task task' : Task}
    (h : Task.Alike m.toVariation task task')
    (hresume : ∀ op s, task = .perform op → op.action = .resume s → m.Strict)
    (hhub : ∀ op s, task = .perform op → op.action = .hub s → m.hubs) :
    Mirrors m w (carryOut task) (carryOut task') Same := by
  cases h with
  | perform h => exact mirrors_perform hm h (fun s => hresume _ s rfl) fun s => hhub _ s rfl
  | again n h =>
    cases n with
    | zero => exact mirrors_same ()
    | succ n =>
      exact mirrors_defer (List.rel_append (Task.ofOps_alike h) (.cons (.again n h) .nil))
  | untilTerm n s h =>
    cases n with
    | zero => exact mirrors_same ()
    | succ n =>
      refine (mirrors_slotState? s).same fun _ state _ => ?_
      have hgo := List.rel_append (Task.ofOps_alike h)
        (.cons (.untilTerm n s h) .nil : List.Forall₂ (Task.Alike m.toVariation) _ _)
      match state with
      | none | some .term => exact mirrors_same ()
      | some .ready | some .running => exact mirrors_defer hgo
  | resumed label f =>
    exact mirrors_answerState hm label f
  | yielded label f =>
    cases f with
    | none => exact mirrors_answerSame hm label trivial
    | some f => exact mirrors_answerState hm label f

/-! ### Steps -/

theorem mirrors_releaseRoot : Mirrors m w releaseRoot releaseRoot Same := by
  refine mirrors_thread.bind fun _ t _ _ ht => ?_
  rw [ht.root]
  cases t.root with
  | none => exact mirrors_same ()
  | some root =>
    refine Mirrors.seq (mirrors_modifyThread fun _ t t' _ ht => {ht with
      root := rfl, current := ?_ }) fun _ _ _ _ => mirrors_release root
    rw [ht.current]
    cases t.current with
    | none => rfl
    | some c =>
      by_cases hc : c = root
      · simp [hc]
      · simp [hc, m.injective.eq_iff]

theorem mirrors_endThread (hm : m.Reports) (outcome : Outcome) :
    Mirrors m w (endThread outcome) (endThread outcome) Same := by
  refine mirrors_get.bind fun v p p' _ hp => ?_
  have hjoining := hp.joining
  revert hjoining
  cases p.joining <;> cases p'.joining <;> intro hjoining <;> cases hjoining
  · cases outcome with
    | finished =>
      exact mirrors_status.bind fun _ _ _ _ hs => mirrors_throw (.ended hs) fun _ h => nomatch h
    | panicked payload => exact mirrors_throw .panicked fun _ h => nomatch h
  · next hj hrest =>
    refine mirrors_releaseRoot.seq fun _ _ _ h₁ => ?_
    refine Mirrors.seq (mirrors_modify fun _ _ _ h₂ hp => ?_) fun _ _ _ _ => ?_
    · have hsub := List.Subset.trans h₁ h₂
      exact {hp with
        thread := (hj.mono hsub).thread
        joining := hrest.imp fun _ _ h => h.mono hsub }
    · rw [hj.label]
      exact mirrors_answerSame hm _ trivial

end Act

namespace Process

/-- The process is about to do one of the things in which processes with other flags, hubs or ends
of callbacks differ. -/
inductive Differs (m : Likeness) (p p' : Process) : Prop
  | resume {op : Op} {frame : Frame} {rest : List Task} {s : String}
    (hop : p.thread.Performs op frame rest) (ha : op.action = .resume s) (hm : ¬m.Strict)
  | hub {op : Op} {frame : Frame} {rest : List Task} {s : Option String}
    (hop : p.thread.Performs op frame rest) (ha : op.action = .hub s) (hm : ¬m.hubs)
  | leave {f f' : Nat} {held held' : List Nat} {payload : Payload}
    (hcode : p.thread.running.code = .leaving (.callback f) held (.panicked payload))
    (hcode' : p'.thread.running.code = .leaving (.callback f') held' .finished)

end Process

namespace Act
open Process

variable {m : Likeness} {w : Pairing} {p p' : Process}

theorem step_eq (p : Process) : step p = (match p.thread.running.code with
    | .opening program => do
      modifyThread (·.become (.active ⟨.program, [], Task.ofOps program⟩))
      emit (.began (← status))
    | .entry _ => enter
    | .active frame =>
      match frame.todo with
      | [] => modifyThread (·.become (.leaving frame.origin frame.held .finished))
      | task :: rest => do
        modifyThread (·.become (.active {frame with todo := rest}))
        carryOut task
    | .leaving origin held outcome => leave origin held outcome
    | .returned (.callback f) _ => finish f
    | .returned .program outcome => endThread outcome
    | .spent f => throw (.fault (.spent f)) : Act Unit) p := rfl

/-- A script is gone on with. -/
theorem mirrors_task (hm : m.Reports) {origin : Origin} {held : List Nat} {task task' : Task}
    {rest rest' : List Task} (htask : Task.Alike m.toVariation task task')
    (hrest : Leaves Task.Panics (Task.Alike m.toVariation) (m.cuts ∧ origin ≠ .program) rest rest')
    (hresume : ∀ op s, task = .perform op → op.action = .resume s → m.Strict)
    (hhub : ∀ op s, task = .perform op → op.action = .hub s → m.hubs) : Mirrors m w
      (do modifyThread (·.become (.active ⟨origin, held, rest⟩)); carryOut task : Act Unit)
      (do modifyThread (·.become (.active ⟨origin.rename m.toVariation, held.map m.id, rest'⟩))
          carryOut task') Same :=
  Mirrors.seq (mirrors_become (.active ⟨rfl, rfl, hrest⟩)) fun _ _ _ _ =>
    mirrors_carryOut hm htask hresume hhub

/-- A panic ends a callback where that of the other process has come to its end. -/
theorem agrees_cut (hp : m.Alike w p p') {origin : Origin} {held : List Nat} {label : Label}
    {payload : Payload} (rest : List Task) (hcuts : m.cuts) (horigin : origin ≠ .program) :
    Agree m w Same
      ((do modifyThread (·.become (.active ⟨origin, held, rest⟩))
           carryOut (.perform (.mk label (.panic payload))) : Act Unit) p)
      ((modifyThread (·.become (.leaving (origin.rename m.toVariation) (held.map m.id) .finished)))
        p') :=
  mirrors_become (.leaving origin held (.cut payload hcuts horigin)) w (List.Subset.refl w) p p' hp

/-- **Step for step**: a step of the one process is like the step of the other, unless it is one
in which the two may differ. -/
theorem step_agrees (hm : m.Reports) (hp : m.Alike w p p') (hdiffers : ¬p.Differs m p') :
    Agree m w Same (step p) (step p') := by
  have hgo {act act' : Act Unit} (h : Mirrors m w act act' Same) :
      Agree m w Same (act p) (act' p') :=
    h w (List.Subset.refl w) p p' hp
  have hcode := hp.thread.running.code
  rw [step_eq, step_eq]
  cases hc : p.thread.running.code <;> cases hc' : p'.thread.running.code <;>
    rw [hc, hc'] at hcode <;> cases hcode
  · next h =>
    refine hgo (Mirrors.seq (mirrors_become (.active ⟨rfl, rfl, .inl (Task.ofOps_alike h)⟩))
      fun _ _ _ _ => ?_)
    exact mirrors_status.bind fun _ _ _ _ hs => mirrors_emit hm (.began hs) fun _ h => by cases h
  · exact hgo (mirrors_enter hm)
  · next frame frame' h =>
    obtain ⟨origin, held, todo⟩ := frame
    obtain ⟨origin', held', todo'⟩ := frame'
    obtain ⟨rfl, rfl, htodo⟩ := h
    have htask {task task' : Task} {rest rest' : List Task} (htodo : todo = task :: rest)
        (h : Task.Alike m.toVariation task task')
        (hrest : Leaves Task.Panics (Task.Alike m.toVariation) (m.cuts ∧ origin ≠ .program)
          rest rest') :
        Mirrors m w (do modifyThread (·.become (.active ⟨origin, held, rest⟩)); carryOut task)
          (do modifyThread (·.become (.active ⟨origin.rename m.toVariation, held.map m.id, rest'⟩))
              carryOut task') Same := by
      refine mirrors_task hm h hrest (fun op s hop ha => ?_) fun op s hop ha => ?_
      · exact of_not_not fun hs => hdiffers (.resume ⟨hc, htodo.trans (by rw [hop])⟩ ha hs)
      · exact of_not_not fun hs => hdiffers (.hub ⟨hc, htodo.trans (by rw [hop])⟩ ha hs)
    rcases htodo with htodo | ⟨hcuts, before, task, rest, hbefore, hpanics, htodo⟩
    · cases htodo with
      | nil => exact hgo (mirrors_become (.leaving origin held (.same origin .finished)))
      | cons h hrest => exact hgo (htask rfl h (.inl hrest))
    · dsimp only at hbefore
      subst hbefore
      cases htodo with
      | cons h hrest => exact hgo (htask rfl h (.inr ⟨hcuts, _, _, _, rfl, hpanics, hrest⟩))
      | nil =>
        match task, hpanics with
        | .perform (.mk label _), ⟨payload, rfl⟩ => exact agrees_cut hp rest hcuts.1 hcuts.2
  · next origin held outcome outcome' h =>
    cases h with
    | same => exact hgo (mirrors_leave hm origin held outcome)
    | cut payload hv ho =>
      cases origin with
      | program => exact (ho rfl).elim
      | callback f => exact (hdiffers (.leave hc hc')).elim
  · next origin outcome outcome' h =>
    cases origin with
    | callback f => exact hgo (mirrors_finish f)
    | program =>
      cases h with
      | same => exact hgo (mirrors_endThread hm outcome)
      | cut payload hv ho => exact (ho rfl).elim
  · exact hgo (mirrors_throw (.fault (.spent _)) fun _ h => nomatch h)

end Act
end Fibers
