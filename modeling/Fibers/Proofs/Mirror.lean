import Fibers.Proofs.Likeness
import Fibers.Proofs.Phases
import Fibers.Proofs.Trade

/-! Two processes side by side.

A `Likeness` is a variation together with what else is compared: how much each of the two
processes logs, whether their memory may differ, and what their traces have in common. `Mirrors`
says of two actions that, begun in processes which are alike, they answer alike or halt alike and
leave processes which are alike; the blocks that they allocate meanwhile come to stand for each
other. The rules take two actions apart along their binds at the same time. Nothing needs to be
known of the two processes but that they are alike, so the rules pass on nothing but what was
read. -/
namespace Fibers

/-- The trace after a record was logged at a level, or left out. -/
def Record.logOn (level : Level) (record : Record) (trace : List Event) : List Event :=
  if record.level ≤ level then .logged record :: trace else trace

/-- How two processes are compared. -/
structure Likeness extends Variation where
  fit : toVariation.Fit
  /-- Roots take part in no scheduler. -/
  unscheduled : flags false false
  /-- The memory of the other may be laid out otherwise. -/
  moved : Prop
  /-- How much the one logs, and how much the other. -/
  level : Level
  level' : Level
  /-- What their traces have in common, latest events first. -/
  traces : Pairing → List Event → List Event → Prop
  /-- What their halts and their traces have in common where they halt. -/
  ends : Pairing → Halt → List Event → Halt → List Event → Prop
  mono : ∀ {w u : Pairing} {trace trace' : List Event}, w ⊆ u → traces w trace trace' →
    traces u trace trace'
  ended : ∀ {w : Pairing} {halt halt' : Halt} {trace trace' : List Event},
    halt.Alike toVariation halt' → (∀ violation, halt ≠ .aborted violation) →
    traces w trace trace' → ends w halt trace halt' trace'
  /-- A violation is logged before the processes halt over it. -/
  aborted : ∀ {w : Pairing} {trace trace' : List Event} (violation : Violation),
    traces w trace trace' →
    ends w (.aborted violation) ((Record.violated violation).logOn level trace)
      (.aborted (violation.rename toVariation))
      ((Record.violated (violation.rename toVariation)).logOn level' trace')
  logged : ∀ {w : Pairing} {record record' : Record} {trace trace' : List Event},
    record.Alike toVariation w record' → traces w trace trace' →
    traces w (record.logOn level trace) (record'.logOn level' trace')

namespace Likeness

/-- Other events than records are alike in traces that have this in common. -/
def Reports (m : Likeness) : Prop :=
  ∀ {w : Pairing} {event event' : Event} {trace trace' : List Event},
    event.Alike m.toVariation w event' → (∀ record, event ≠ .logged record) →
    m.traces w trace trace' → m.traces w (event :: trace) (event' :: trace')

/-- The two processes are alike. What has ended in them may be anything. -/
structure Alike (m : Likeness) (w : Pairing) (p p' : Process) : Prop where
  level : p.level = m.level
  level' : p'.level = m.level'
  scripts : p.scripts = m.scripts
  scripts' : p'.scripts = m.scripts'
  environment : p'.environment = p.environment
  stackSize : p'.stackSize = p.stackSize
  nextId : p'.nextId = m.id p.nextId
  /-- The ids that are yet to be given are given in step. -/
  following : ∀ f, p.nextId ≤ f → m.id (f + 1) = m.id f + 1
  live : p'.live = p.live
  nextSerial : p'.nextSerial = p.nextSerial
  memory : m.moved ∨ p'.memory = p.memory ∧ w.Diagonal
  placement : p'.memory.placement = p.memory.placement
  /-- Blocks that stand for each other were granted, once each where nothing is granted twice. -/
  used : ∀ x ∈ w, p.memory.Used x.1 ∧ p'.memory.Used x.2
  oneToOne : p.memory.placement.Fresh → w.OneToOne
  thread : p.thread.Alike m.toVariation w p'.thread
  joining : List.Forall₂ (Joiner.Alike m.toVariation w) p.joining p'.joining
  trace : m.traces w p.trace p'.trace

end Likeness

/-- The same. -/
def Same {α : Type} (_ : Pairing) (a a' : α) : Prop := a' = a

/-- The fiber and what it is called in the other process. -/
def Likeness.Called (m : Likeness) (_ : Pairing) (f f' : Nat) : Prop := f' = m.id f

namespace Act

variable {α β : Type} {m : Likeness} {w u : Pairing} {A : Pairing → α → α → Prop}
  {B : Pairing → β → β → Prop} {f f' : Nat}

/-- What two actions came to is alike. -/
def Agree (m : Likeness) (w : Pairing) (A : Pairing → α → α → Prop) :
    EStateM.Result Halt Process α → EStateM.Result Halt Process α → Prop
  | .ok a q, .ok a' q' => ∃ u, w ⊆ u ∧ m.Alike u q q' ∧ A u a a'
  | .error halt q, .error halt' q' =>
    ∃ u, w ⊆ u ∧ (m.moved ∨ u.Diagonal) ∧ m.ends u halt q.trace halt' q'.trace
  | _, _ => False

/-- The one action does in a process what the other does in a process like it. -/
def Mirrors (m : Likeness) (w : Pairing) (act act' : Act α) (A : Pairing → α → α → Prop) : Prop :=
  ∀ u, w ⊆ u → ∀ p p', m.Alike u p p' → Agree m u A (act p) (act' p')

theorem Agree.before {result result' : EStateM.Result Halt Process α}
    (h : Agree m u A result result') (hw : w ⊆ u) : Agree m w A result result' := by
  cases result <;> cases result' <;> try exact h
  all_goals
    obtain ⟨u', hu, h⟩ := h
    exact ⟨u', List.Subset.trans hw hu, h⟩

/-! ### Rules -/

theorem mirrors_pure {a a' : α} (h : ∀ u, w ⊆ u → A u a a') : Mirrors m w (pure a) (pure a') A :=
  fun u hu _ _ hp => ⟨u, List.Subset.refl u, hp, h u hu⟩

theorem mirrors_same (a : α) : Mirrors m w (pure a) (pure a) Same := mirrors_pure fun _ _ => rfl

theorem Mirrors.bind {act act' : Act α} {k k' : α → Act β} (h : Mirrors m w act act' A)
    (hk : ∀ u a a', w ⊆ u → A u a a' → Mirrors m u (k a) (k' a') B) :
    Mirrors m w (act >>= k) (act' >>= k') B := by
  intro v hv p p' hp
  have hact := h v hv p p' hp
  show Agree m v B (EStateM.bind act k p) (EStateM.bind act' k' p')
  unfold EStateM.bind
  cases hr : act p <;> cases hr' : act' p' <;> rw [hr, hr'] at hact
  · obtain ⟨u, hu, hq, ha⟩ := hact
    exact (hk u _ _ (List.Subset.trans hv hu) ha u (List.Subset.refl u) _ _ hq).before hu
  · exact hact.elim
  · exact hact.elim
  · exact hact

/-- Then something else is done. -/
theorem Mirrors.seq {act act' : Act α} {k k' : α → Act β} (h : Mirrors m w act act' A)
    (hk : ∀ u a a', w ⊆ u → Mirrors m u (k a) (k' a') B) :
    Mirrors m w (act >>= k) (act' >>= k') B :=
  h.bind fun u a a' hu _ => hk u a a' hu

/-- Then something is done with the same answer. -/
theorem Mirrors.same {act act' : Act α} {k k' : α → Act β} (h : Mirrors m w act act' Same)
    (hk : ∀ u a, w ⊆ u → Mirrors m u (k a) (k' a) B) : Mirrors m w (act >>= k) (act' >>= k') B := by
  refine h.bind fun u a a' hu ha => ?_
  cases ha
  exact hk u a hu

theorem Mirrors.ite {rule rule' : Prop} [Decidable rule] [Decidable rule']
    {act act' other other' : Act α} (hrule : rule' ↔ rule) (h : Mirrors m w act act' A)
    (hother : Mirrors m w other other' A) :
    Mirrors m w (if rule then act else other) (if rule' then act' else other') A := by
  by_cases hr : rule
  · rwa [if_pos hr, if_pos (hrule.mpr hr)]
  · rwa [if_neg hr, if_neg fun hr' => hr (hrule.mp hr')]

theorem mirrors_throw {halt halt' : Halt} (h : halt.Alike m.toVariation halt')
    (hhalt : ∀ violation, halt ≠ .aborted violation) :
    Mirrors m w (throw halt : Act α) (throw halt') A :=
  fun u _ _ _ hp =>
    ⟨u, List.Subset.refl u, hp.memory.imp id And.right, m.ended h hhalt hp.trace⟩

theorem mirrors_get : Mirrors m w get get m.Alike :=
  fun u _ _ _ hp => ⟨u, List.Subset.refl u, hp, hp⟩

theorem mirrors_modify {g g' : Process → Process}
    (h : ∀ u p p', w ⊆ u → m.Alike u p p' → m.Alike u (g p) (g' p')) :
    Mirrors m w (modify g : Act Unit) (modify g') Same :=
  fun u hu p p' hp => ⟨u, List.Subset.refl u, h u p p' hu hp, rfl⟩

theorem mirrors_thread : Mirrors m w thread thread (Thread.Alike m.toVariation) :=
  mirrors_get.bind fun _ _ _ _ hp => mirrors_pure fun _ hu => hp.thread.mono hu

theorem mirrors_modifyThread {g g' : Thread → Thread}
    (h : ∀ u t t', w ⊆ u → t.Alike m.toVariation u t' → (g t).Alike m.toVariation u (g' t')) :
    Mirrors m w (modifyThread g) (modifyThread g') Same :=
  mirrors_modify fun u _ _ hu hp => {hp with thread := h u _ _ hu hp.thread}

/-! ### What happened -/

theorem mirrors_emit (hm : m.Reports) {event event' : Event}
    (h : event.Alike m.toVariation w event') (hevent : ∀ record, event ≠ .logged record) :
    Mirrors m w (emit event) (emit event') Same :=
  mirrors_modify fun _ _ _ hu hp => {hp with trace := hm (h.mono hu) hevent hp.trace}

theorem log_eq (record : Record) :
    log record = modify fun p => {p with trace := record.logOn p.level p.trace} := by
  funext p
  show (if record.level ≤ p.level then emit (.logged record) else pure ()) p = _
  have hmodify : (modify fun p => {p with trace := record.logOn p.level p.trace} : Act Unit) p =
      .ok () {p with trace := record.logOn p.level p.trace} := rfl
  rw [hmodify, Record.logOn]
  split <;> rfl

theorem mirrors_log {record record' : Record} (h : record.Alike m.toVariation w record') :
    Mirrors m w (log record) (log record') Same := by
  rw [log_eq, log_eq]
  refine mirrors_modify fun _ p p' hu hp => {hp with trace := ?_}
  have htrace := m.logged (h.mono hu) hp.trace
  rw [← hp.level, ← hp.level'] at htrace
  exact htrace

theorem mirrors_logRenamed (record : Record)
    (h : ∀ size block, record ≠ .releasedStack size block) :
    Mirrors m w (log record) (log (record.rename m.toVariation)) Same :=
  mirrors_log (.renamed h)

theorem violate_eq (violation : Violation) (p : Process) :
    (violate violation : Act α) p =
      .error (.aborted violation) {p with
        trace := (Record.violated violation).logOn p.level p.trace} := by
  show EStateM.bind (log (.violated violation)) (fun _ => throw (.aborted violation)) p = _
  rw [log_eq]
  rfl

theorem mirrors_violate (violation : Violation) :
    Mirrors m w (violate violation : Act α) (violate (violation.rename m.toVariation)) A := by
  intro u _ p p' hp
  rw [violate_eq, violate_eq, hp.level, hp.level']
  exact ⟨u, List.Subset.refl u, hp.memory.imp id And.right, m.aborted violation hp.trace⟩

theorem mirrors_ensure {rule rule' : Prop} [Decidable rule] [Decidable rule'] (h : rule' ↔ rule)
    (violation : Violation) :
    Mirrors m w (ensure rule violation) (ensure rule' (violation.rename m.toVariation)) Same :=
  Mirrors.ite h (mirrors_same ()) (mirrors_violate violation)

/-! ### Fibers -/

theorem mirrors_freshSerial : Mirrors m w freshSerial freshSerial Same := by
  refine mirrors_get.bind fun v p p' _ hp => ?_
  rw [hp.nextSerial]
  refine Mirrors.seq (mirrors_modify fun u q q' _ hq => ?_) fun _ _ _ _ => mirrors_same _
  exact {hq with nextSerial := congrArg (· + 1) hq.nextSerial}

theorem mirrors_fiber (f : Nat) :
    Mirrors m w (fiber f) (fiber (m.id f)) (Fiber.Alike m.toVariation) := by
  refine mirrors_thread.bind fun v t t' _ ht => ?_
  have hf := ht.fibers f
  revert hf
  cases t.fibers.get? f <;> cases t'.fibers.get? (m.id f) <;> intro hf <;> cases hf
  · exact mirrors_throw (.fault (.destroyed f)) fun _ h => nomatch h
  · next hx => exact mirrors_pure fun _ hv => hx.mono hv

theorem alike_setFiber {t t' : Thread} {x x' : Fiber} (h : t.Alike m.toVariation w t')
    (hx : x.Alike m.toVariation w x') :
    Thread.Alike m.toVariation w {t with fibers := t.fibers.set f x}
      {t' with fibers := t'.fibers.set (m.id f) x'} :=
  {h with
    fibers := by
      intro g
      simp only [Table.get?_set, m.injective.eq_iff]
      split
      · exact .some hx
      · exact h.fibers g
    others := by
      intro g hg
      simp only [Table.get?_set]
      rw [if_neg fun he => hg f he.symm]
      exact h.others g hg }

theorem alike_eraseFiber {t t' : Thread} (h : t.Alike m.toVariation w t') (f : Nat) :
    Thread.Alike m.toVariation w {t with fibers := t.fibers.erase f}
      {t' with fibers := t'.fibers.erase (m.id f)} :=
  {h with
    fibers := by
      intro g
      simp only [Table.get?_erase, m.injective.eq_iff]
      split
      · exact .none
      · exact h.fibers g
    others := by
      intro g hg
      simp only [Table.get?_erase]
      split
      · rfl
      · exact h.others g hg }

theorem mirrors_setFiber (f : Nat) {x x' : Fiber} (hx : x.Alike m.toVariation w x') :
    Mirrors m w (setFiber f x) (setFiber (m.id f) x') Same :=
  mirrors_modifyThread fun _ _ _ hu ht => alike_setFiber ht (hx.mono hu)

theorem mirrors_modifyFiber (f : Nat) {g : Fiber → Fiber}
    (h : ∀ u x x', w ⊆ u → x.Alike m.toVariation u x' → (g x).Alike m.toVariation u (g x')) :
    Mirrors m w (modifyFiber f g) (modifyFiber (m.id f) g) Same :=
  (mirrors_fiber f).bind fun u x x' hu hx => mirrors_setFiber f (h u x x' hu hx)

theorem mirrors_setCurrent (f : Option Nat) :
    Mirrors m w (setCurrent f) (setCurrent (f.map m.id)) Same :=
  mirrors_modifyThread fun _ _ _ _ ht => {ht with current := rfl}

theorem mirrors_lose (k k' : Option Context) : Mirrors m w (lose k) (lose k') Same :=
  mirrors_modifyThread fun _ _ _ _ ht => {ht with}

theorem mirrors_become {code code' : Code} (h : code.Alike m.toVariation code') :
    Mirrors m w (modifyThread (·.become code)) (modifyThread (·.become code')) Same :=
  mirrors_modifyThread fun _ _ _ _ ht => {ht with running := ⟨ht.running.serial, h⟩}

theorem mirrors_status : Mirrors m w status status fun _ => Status.Alike m.toVariation := by
  have hlast (v : Pairing) (c c' : Nat) (hc : IdAlike m.toVariation c c') : Mirrors m v
      (do return ⟨c, (← get).live⟩ : Act Status) (do return ⟨c', (← get).live⟩)
      fun _ => Status.Alike m.toVariation :=
    mirrors_get.bind fun _ _ _ _ hp => mirrors_pure fun _ _ => ⟨hc, hp.live⟩
  refine mirrors_thread.bind fun v t _ _ ht => ?_
  rw [ht.current]
  cases t.current with
  | none =>
    have hzero : Mirrors m v (pure 0) (pure 0) fun _ => IdAlike m.toVariation :=
      mirrors_pure fun _ _ => .inr ⟨rfl, rfl⟩
    exact hzero.bind fun u c c' _ hc => hlast u c c' hc
  | some f =>
    refine (mirrors_fiber f).seq fun u _ _ _ => ?_
    have hcurrent : Mirrors m u (pure f) (pure (m.id f)) fun _ => IdAlike m.toVariation :=
      mirrors_pure fun _ _ => .inl rfl
    exact hcurrent.bind fun u c c' _ hc => hlast u c c' hc

theorem mirrors_answer (hm : m.Reports) (label : Label) {a a' : Answer}
    (h : a.Alike m.toVariation w a') : Mirrors m w (answer label a) (answer label a') Same :=
  mirrors_status.bind fun _ _ _ hu hs =>
    mirrors_emit hm (.done hs (h.mono hu)) fun _ he => by cases he

theorem resolve_eq (c : Script) (p : Process) : resolve c p = .ok (c.ops? p.scripts) p := by
  cases c <;> rfl

theorem mirrors_resolve {c c' : Script} {R : List Op → List Op → Prop}
    (h : Option.Rel R (c.ops? m.scripts) (c'.ops? m.scripts')) :
    Mirrors m w (resolve c) (resolve c') fun _ => Option.Rel R := by
  intro u _ p p' hp
  rw [resolve_eq, resolve_eq, hp.scripts, hp.scripts']
  exact ⟨u, List.Subset.refl u, hp, h⟩

/-! ### Memory -/

/-- An allocation of the one process succeeds or fails as that of the other. -/
inductive Allots (w : Pairing) : Except Error Memory.Stack → Except Error Memory.Stack → Prop
  | ok {stack stack' : Memory.Stack} (h : stack.Alike w stack') : Allots w (.ok stack) (.ok stack')
  | error (error : Error) : Allots w (.error error) (.error error)

/-- Whether memory is granted does not depend on where it would lie. -/
theorem allocate_alike (s s' : Memory.System) (source : Memory.Source) (size : Nat) :
    (∃ cause, s.allocate source size = .error cause ∧ s'.allocate source size = .error cause) ∨
    ∃ block block' t t', s.allocate source size = .ok (block, t) ∧
      s'.allocate source size = .ok (block', t') := by
  cases hd : source.demand size with
  | error cause =>
    exact .inl ⟨cause, Memory.System.allocate_of_error hd, Memory.System.allocate_of_error hd⟩
  | ok d =>
    rw [Memory.System.allocate_of_ok hd, Memory.System.allocate_of_ok hd, Memory.System.grant,
      Memory.System.grant]
    split
    · exact .inr ⟨_, _, _, _, rfl, rfl⟩
    · exact .inl ⟨_, rfl, rfl⟩

/-- A block that stood for none is paired with another such block. -/
theorem oneToOne_cons {block block' : Nat} (h : w.OneToOne)
    (hnew : ∀ x ∈ w, x.1 ≠ block ∧ x.2 ≠ block') : Pairing.OneToOne ((block, block') :: w) := by
  intro x hx y hy
  rcases List.mem_cons.mp hx with rfl | hx <;> rcases List.mem_cons.mp hy with rfl | hy
  · exact ⟨fun _ => rfl, fun _ => rfl⟩
  · exact ⟨fun he => ((hnew y hy).1 he.symm).elim, fun he => ((hnew y hy).2 he.symm).elim⟩
  · exact ⟨fun he => ((hnew x hx).1 he).elim, fun he => ((hnew x hx).2 he).elim⟩
  · exact h x hx y hy

theorem alike_allocate {p p' : Process} {s s' : Memory.System} {block block' : Nat}
    {source : Memory.Source} {size : Nat} (hp : m.Alike w p p')
    (h : p.memory.allocate source size = .ok (block, s))
    (h' : p'.memory.allocate source size = .ok (block', s')) :
    m.Alike ((block, block') :: w) {p with memory := s} {p' with memory := s'} := by
  obtain ⟨hused, hplacement, hunused⟩ := Memory.System.allocate_uses h
  obtain ⟨hused', hplacement', hunused'⟩ := Memory.System.allocate_uses h'
  have hw : w ⊆ (block, block') :: w := List.subset_cons_self ..
  exact {hp with
    memory := by
      rcases hp.memory with hmoved | ⟨hmemory, hsame⟩
      · exact .inl hmoved
      · rw [hmemory, h] at h'
        cases h'
        refine .inr ⟨rfl, fun x hx => ?_⟩
        rcases List.mem_cons.mp hx with rfl | hx
        · rfl
        · exact hsame x hx
    placement := hplacement'.trans (hp.placement.trans hplacement.symm)
    used := by
      intro x hx
      rcases List.mem_cons.mp hx with rfl | hx
      · exact ⟨hused.2, hused'.2⟩
      · exact ⟨hused.1 _ (hp.used x hx).1, hused'.1 _ (hp.used x hx).2⟩
    oneToOne := by
      intro hfresh
      have hfresh : p.memory.placement.Fresh := hplacement ▸ hfresh
      refine oneToOne_cons (hp.oneToOne hfresh) fun x hx => ⟨fun he => ?_, fun he => ?_⟩
      · exact hunused hfresh (he ▸ (hp.used x hx).1)
      · exact hunused' (hp.placement ▸ hfresh) (he ▸ (hp.used x hx).2)
    thread := hp.thread.mono hw
    joining := hp.joining.imp fun _ _ hj => hj.mono hw
    trace := m.mono hw hp.trace }

theorem allocateFrom_ok {p : Process} {s : Memory.System} {block size : Nat}
    {source : Memory.Source} (allocator : Memory.Allocator)
    (h : p.memory.allocate source size = .ok (block, s)) :
    allocateFrom source size allocator p =
      .ok (.ok ⟨block, size, allocator⟩) {p with memory := s} := by
  simp only [allocateFrom, bind, EStateM.bind, get, getThe, MonadStateOf.get, EStateM.get, h]
  rfl

theorem allocateFrom_error {p : Process} {cause : Memory.Refusal} {size : Nat}
    {source : Memory.Source} (allocator : Memory.Allocator)
    (h : p.memory.allocate source size = .error cause) :
    allocateFrom source size allocator p = .ok (.error (.stackAllocation size cause)) p := by
  simp only [allocateFrom, bind, EStateM.bind, get, getThe, MonadStateOf.get, EStateM.get, h]
  rfl

theorem mirrors_allocateFrom (source : Memory.Source) (size : Nat) (allocator : Memory.Allocator) :
    Mirrors m w (allocateFrom source size allocator) (allocateFrom source size allocator)
      Allots := by
  intro u _ p p' hp
  rcases allocate_alike p.memory p'.memory source size with
    ⟨cause, h, h'⟩ | ⟨block, block', s, s', h, h'⟩
  · rw [allocateFrom_error allocator h, allocateFrom_error allocator h']
    exact ⟨u, List.Subset.refl u, hp, .error _⟩
  · rw [allocateFrom_ok allocator h, allocateFrom_ok allocator h']
    exact ⟨_, List.subset_cons_self .., alike_allocate hp h h',
      .ok ⟨List.mem_cons_self .., rfl, rfl⟩⟩

theorem mirrors_modifyTally (serial : Nat) (g : Memory.Tally → Memory.Tally) :
    Mirrors m w (modifyTally serial g) (modifyTally serial g) Same :=
  mirrors_modifyThread fun _ _ _ _ ht =>
    {ht with tallies := congrArg (·.modify serial g) ht.tallies}

theorem mirrors_allocator? (supply : Supply) :
    Mirrors m w (allocator? supply) (allocator? supply) Same := by
  cases supply with
  | source source => exact mirrors_same _
  | tally name =>
    refine mirrors_thread.bind fun _ t _ _ ht => ?_
    rw [ht.tallyNames]
    exact mirrors_same _

theorem mirrors_allocateStack (allocator : Memory.Allocator) (size : Nat) :
    Mirrors m w (allocateStack allocator size) (allocateStack allocator size) Allots := by
  have hfail (v : Pairing) : Mirrors m v
      (pure (.error (.stackAllocation size .outOfMemory)) : Act (Except Error Memory.Stack))
      (pure (.error (.stackAllocation size .outOfMemory))) Allots :=
    mirrors_pure fun _ _ => .error _
  unfold allocateStack
  cases allocator with
  | source source => exact mirrors_allocateFrom source size _
  | tally serial =>
    refine mirrors_thread.bind fun v t _ _ ht => ?_
    rw [ht.tallies]
    cases t.tallies[serial]? with
    | none => exact hfail v
    | some tally =>
      refine Mirrors.ite Iff.rfl (hfail v) ?_
      refine (mirrors_allocateFrom _ _ _).bind fun u result _ _ hresult => ?_
      cases hresult with
      | ok h =>
        exact (mirrors_modifyTally _ _).seq fun _ _ _ hu => mirrors_pure fun _ hv =>
          .ok (h.mono (List.Subset.trans hu hv))
      | error error => exact mirrors_pure fun _ _ => .error error

theorem mirrors_reclaim (source : Memory.Source) {stack stack' : Memory.Stack}
    (h : stack.Alike w stack') : Mirrors m w
      (modify fun p => {p with
        memory := p.memory.deallocate source stack.block stack.size} : Act Unit)
      (modify fun p => {p with memory := p.memory.deallocate source stack'.block stack'.size})
      Same := by
  refine mirrors_modify fun u p p' hu hp => {hp with
    memory := ?_
    placement := ?_
    used := fun x hx => ?_
    oneToOne := ?_ }
  · rcases hp.memory with hmoved | ⟨hmemory, hsame⟩
    · exact .inl hmoved
    · have hblock : stack'.block = stack.block := hsame _ (hu h.block)
      rw [hmemory, hblock, h.size]
      exact .inr ⟨rfl, hsame⟩
  · rw [Memory.System.placement_deallocate, Memory.System.placement_deallocate]
    exact hp.placement
  · obtain ⟨hused, hused'⟩ := hp.used x hx
    exact ⟨hused.deallocate, hused'.deallocate⟩
  · rw [Memory.System.placement_deallocate]
    exact hp.oneToOne

theorem mirrors_giveBack {stack stack' : Memory.Stack} (h : stack.Alike w stack')
    (source? : Option Memory.Source) :
    Mirrors m w (giveBack stack source?) (giveBack stack' source?) Same := by
  have hlog (v : Pairing) (hv : w ⊆ v) : Mirrors m v (log (.releasedStack stack.size stack.block))
      (log (.releasedStack stack'.size stack'.block)) Same := by
    rw [h.size]
    exact mirrors_log (.releasedStack _ (hv h.block))
  cases source? with
  | none => exact (mirrors_same ()).seq fun u _ _ hu => hlog u hu
  | some source => exact (mirrors_reclaim source h).seq fun u _ _ hu => hlog u hu

theorem mirrors_releaseStack {stack stack' : Memory.Stack} (h : stack.Alike w stack') :
    Mirrors m w (releaseStack stack) (releaseStack stack') Same := by
  cases hallocator : stack.allocator with
  | source source =>
    rw [releaseStack_source hallocator, releaseStack_source (h.allocator.trans hallocator)]
    exact mirrors_giveBack h (some source)
  | tally serial =>
    rw [releaseStack_tally hallocator, releaseStack_tally (h.allocator.trans hallocator), h.size]
    refine (mirrors_modifyTally _ _).seq fun v _ _ hv => ?_
    refine mirrors_thread.bind fun u t _ hu ht => ?_
    rw [ht.tallies]
    exact mirrors_giveBack (h.mono (List.Subset.trans hv hu)) _

theorem mirrors_settle (n : Nat) : Mirrors m w (settle n) (settle n) Same :=
  Mirrors.seq (mirrors_modify fun _ _ _ _ hp => {hp with stackSize := rfl})
    fun _ _ _ _ => mirrors_same n

theorem mirrors_defaultStackSize : Mirrors m w defaultStackSize defaultStackSize Same := by
  unfold defaultStackSize
  refine mirrors_get.bind fun v p _ _ hp => ?_
  rw [hp.stackSize]
  cases p.stackSize with
  | some n => exact mirrors_same n
  | none =>
    refine mirrors_get.bind fun u q _ _ hq => ?_
    rw [hq.environment]
    cases Config.ofEnvironment q.environment with
    | ok config => exact (mirrors_same _).same fun _ _ _ => mirrors_settle _
    | error error =>
      refine (mirrors_logRenamed (.fallback error _) fun _ _ h => by cases h).seq fun u _ _ _ => ?_
      exact (mirrors_same _).same fun _ _ _ => mirrors_settle _

theorem mirrors_install (config : Config) :
    Mirrors m w (install config) (install config) (Answer.Alike m.toVariation) := by
  unfold install
  cases config.refused? with
  | some error => exact mirrors_pure fun _ _ => .same trivial
  | none =>
    refine Mirrors.seq (mirrors_modify fun _ _ _ _ hp => {hp with stackSize := rfl})
      fun _ _ _ _ => ?_
    exact (mirrors_logRenamed (.installed _) fun _ _ h => by cases h).seq
      fun _ _ _ _ => mirrors_pure fun _ _ => .same trivial

/-! ### Handles -/

theorem mirrors_register : Mirrors m w register register m.Called := by
  refine mirrors_get.bind fun v p p' _ hp => ?_
  rw [hp.nextId]
  refine Mirrors.seq (mirrors_modify fun u q q' _ hq => ?_)
    fun _ _ _ _ => mirrors_pure fun _ _ => rfl
  exact {hq with
    nextId := by
      show q'.nextId + 1 = m.id (q.nextId + 1)
      rw [hq.nextId, hq.following q.nextId (Nat.le_refl _)]
    following := fun f hf => hq.following f (Nat.le_of_succ_le hf)
    live := congrArg (· + 1) hq.live }

theorem mirrors_retain (f : Nat) : Mirrors m w (retain f) (retain (m.id f)) Same :=
  mirrors_modifyFiber f fun _ _ _ _ hx => {hx with handles := congrArg (· + 1) hx.handles}

theorem mirrors_bury (f : Nat) (x x' : Fiber) : Mirrors m w (bury f x) (bury (m.id f) x') Same :=
  (mirrors_modifyThread fun _ _ _ _ ht => alike_eraseFiber ht f).seq
    fun _ _ _ _ => mirrors_lose _ _

theorem mirrors_destroy (f : Nat) {x x' : Fiber} (hx : x.Alike m.toVariation w x') :
    Mirrors m w (destroy f x) (destroy (m.id f) x') Same := by
  unfold destroy
  refine (mirrors_logRenamed (.destroying f) fun _ _ h => by cases h).seq fun v _ _ hv => ?_
  refine Mirrors.seq (mirrors_modify fun _ _ _ _ hp => {hp with live := congrArg (· - 1) hp.live})
    fun u _ _ hu => ?_
  have hstack := hx.stack
  rw [hx.state]
  cases hs : x.stack <;> cases hs' : x'.stack <;> rw [hs, hs'] at hstack <;> cases hstack
  · refine (mirrors_ensure (by rw [rel_isNone hx.callback]) (.rootHoldsCallback f)).seq
      fun _ _ _ _ => ?_
    refine (mirrors_ensure Iff.rfl (.rootDestroyedWhile f x.state)).seq fun _ _ _ _ => ?_
    exact mirrors_bury f x x'
  · next hstack =>
    refine (mirrors_ensure Iff.rfl (.destroyedWhile f x.state)).seq fun _ _ _ h₁ => ?_
    refine (mirrors_bury f x x').seq fun _ _ _ h₂ => ?_
    have hsub := List.Subset.trans hv (List.Subset.trans hu (List.Subset.trans h₁ h₂))
    refine (mirrors_releaseStack (hstack.mono hsub)).seq fun _ _ _ _ => ?_
    exact mirrors_logRenamed (.releasedStackOf f) fun _ _ h => by cases h

theorem mirrors_release (f : Nat) : Mirrors m w (release f) (release (m.id f)) Same := by
  refine (mirrors_fiber f).bind fun v x x' _ hx => ?_
  refine Mirrors.ite (by rw [hx.handles]) (mirrors_destroy f hx) ?_
  exact mirrors_setFiber f {hx with handles := congrArg (· - 1) hx.handles}

theorem mirrors_releaseAll (fs : List Nat) :
    Mirrors m w (releaseAll fs) (releaseAll (fs.map m.id)) Same := by
  induction fs generalizing w with
  | nil => exact mirrors_same ()
  | cons f rest ih => exact (mirrors_release f).seq fun _ _ _ _ => ih

theorem alike_root (m : Likeness) (w : Pairing) : Fiber.Alike m.toVariation w .root .root where
  state := rfl
  stack := Option.Rel.none
  context := Option.Rel.none
  callback := Option.Rel.none
  scheduled := m.unscheduled
  handles := rfl

theorem mirrors_createRoot : Mirrors m w createRoot createRoot m.Called := by
  refine mirrors_register.bind fun v f f' _ hf => ?_
  cases hf
  refine (mirrors_setFiber f (alike_root m v)).seq fun _ _ _ _ => ?_
  refine (mirrors_logRenamed (.createdRoot f) fun _ _ h => by cases h).seq fun _ _ _ _ => ?_
  refine (mirrors_setCurrent (some f)).seq fun _ _ _ _ => ?_
  refine (mirrors_retain f).seq fun _ _ _ _ => ?_
  exact Mirrors.seq (mirrors_modifyThread fun _ _ _ _ ht => {ht with root := rfl})
    fun _ _ _ _ => mirrors_pure fun _ _ => rfl

theorem mirrors_currentFiber : Mirrors m w currentFiber currentFiber m.Called := by
  refine mirrors_thread.bind fun v t _ _ ht => ?_
  rw [ht.current]
  cases t.current with
  | none => exact mirrors_createRoot
  | some f => exact (mirrors_retain f).seq fun _ _ _ _ => mirrors_pure fun _ _ => rfl

theorem alive_alike {t t' : Thread} (h : t.Alike m.toVariation w t') (f : Nat) :
    t'.Alive (m.id f) ↔ t.Alive f := by
  have hf := h.fibers f
  revert hf
  unfold Thread.Alive
  cases t.fibers.get? f <;> cases t'.fibers.get? (m.id f) <;> intro hf <;> cases hf <;> rfl

theorem livingHub_alike {t t' : Thread} (hm : m.hubs) (h : t.Alike m.toVariation w t') :
    t'.livingHub = t.livingHub.map m.id := by
  unfold Thread.livingHub
  rw [h.hub hm]
  cases t.hub with
  | none => rfl
  | some g =>
    by_cases hg : t.Alive g
    · have := (alive_alike h g).mpr hg
      simp [Option.filter, hg, this]
    · have : ¬t'.Alive (m.id g) := fun h' => hg ((alive_alike h g).mp h')
      simp [Option.filter, hg, this]

theorem mirrors_hubFiber (hm : m.hubs) :
    Mirrors m w hubFiber hubFiber fun _ hub hub' => hub' = hub.map m.id := by
  refine mirrors_thread.bind fun v t _ _ ht => ?_
  rw [livingHub_alike hm ht]
  cases t.livingHub with
  | none => exact mirrors_pure fun _ _ => rfl
  | some h => exact (mirrors_retain h).seq fun _ _ _ _ => mirrors_pure fun _ _ => rfl

theorem mirrors_startContext (f : Nat) : Mirrors m w (startContext f) (startContext (m.id f))
    fun _ => Context.Alike m.toVariation :=
  mirrors_freshSerial.same fun _ _ _ => mirrors_pure fun _ _ => ⟨rfl, .entry f⟩

theorem alike_task {stack stack' : Memory.Stack} {k k' : Context} {callback callback' : List Op}
    {flag flag' : Bool} (hs : stack.Alike w stack') (hk : k.Alike m.toVariation k')
    (hc : Op.Leave m.toVariation callback callback') (hflag : m.flags flag flag') :
    Fiber.Alike m.toVariation w (.task stack k callback flag)
      (.task stack' k' callback' flag') where
  state := rfl
  stack := .some hs
  context := .some hk
  callback := .some hc
  scheduled := hflag
  handles := rfl

theorem mirrors_createOn {callback callback' : List Op} {flag flag' : Bool} (size : Nat)
    (allocator : Memory.Allocator) (hc : Op.Leave m.toVariation callback callback')
    (hflag : m.flags flag flag') :
    Mirrors m w (createOn callback size flag allocator) (createOn callback' size flag' allocator)
      m.Called := by
  refine (mirrors_allocateStack _ _).bind fun v result _ _ hresult => ?_
  cases hresult with
  | error error => exact mirrors_violate (.noStack error)
  | ok hstack =>
    refine mirrors_register.bind fun u f _ hu hf => ?_
    cases hf
    refine (mirrors_startContext f).bind fun u' k k' hu' hk => ?_
    have htask := alike_task (hstack.mono (List.Subset.trans hu hu')) hk hc hflag
    refine (mirrors_setFiber f htask).seq fun _ _ _ _ => ?_
    exact (mirrors_logRenamed (.created f _) fun _ _ h => by cases h).seq
      fun _ _ _ _ => mirrors_pure fun _ _ => rfl

theorem mirrors_createSized {callback callback' : List Op} {flag flag' : Bool} (requested : Nat)
    (allocator : Memory.Allocator) (hc : Op.Leave m.toVariation callback callback')
    (hflag : m.flags flag flag') :
    Mirrors m w (createSized callback requested flag allocator)
      (createSized callback' requested flag' allocator) m.Called := by
  unfold createSized
  dsimp only
  split
  · exact (mirrors_logRenamed (.raised _ _) fun _ _ h => by cases h).seq
      fun _ _ _ _ => mirrors_createOn _ allocator hc hflag
  · exact mirrors_createOn _ allocator hc hflag

theorem mirrors_createFiber {callback callback' : List Op} {flag flag' : Bool} (size : Nat)
    (allocator : Memory.Allocator) (hc : Op.Leave m.toVariation callback callback')
    (hflag : m.flags flag flag') :
    Mirrors m w (createFiber callback size flag allocator)
      (createFiber callback' size flag' allocator) m.Called := by
  rw [createFiber_eq, createFiber_eq]
  split
  · exact mirrors_defaultStackSize.same fun _ n _ => mirrors_createSized n allocator hc hflag
  · exact (mirrors_same _).same fun _ n _ => mirrors_createSized n allocator hc hflag

theorem mirrors_resetFiber (f : Nat) {callback callback' : List Op}
    (hc : Op.Leave m.toVariation callback callback') :
    Mirrors m w (resetFiber f callback) (resetFiber (m.id f) callback') Same := by
  refine (mirrors_fiber f).bind fun v x x' hv hx => ?_
  have hroot : x'.isRoot = x.isRoot := rel_isNone hx.stack
  refine (mirrors_ensure (by rw [hroot]) (.rootReset f)).seq fun u _ _ hu => ?_
  rw [hx.state]
  refine (mirrors_ensure Iff.rfl (.resetWhile f x.state)).seq fun u₁ _ _ h₁ => ?_
  refine (mirrors_lose _ _).seq fun u₂ _ _ h₂ => ?_
  refine (mirrors_startContext f).bind fun u₃ k k' h₃ hk => ?_
  have hx := hx.mono (List.Subset.trans hu (List.Subset.trans h₁ (List.Subset.trans h₂ h₃)))
  have hrenewed : Fiber.Alike m.toVariation u₃
      {x with state := .ready, context := some k, callback := some callback}
      {x' with state := .ready, context := some k', callback := some callback'} :=
    {hx with state := rfl, context := .some hk, callback := .some hc}
  refine (mirrors_setFiber f hrenewed).seq fun _ _ _ _ => ?_
  exact mirrors_logRenamed (.resetFiber f) fun _ _ h => by cases h

end Act
end Fibers
