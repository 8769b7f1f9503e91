import Fibers.Proofs.Flags

/-! The scheduler flag is a label.

Steps of processes that differ in flags come to the same (`Act.step_meets`), unless one of them is a
resume that would anchor a fiber to itself, which is not allowed. So runs come to the same up to
the first such resume, and so they do from processes that differ in the hub, as long as nobody asks
for the hub. -/
namespace Fibers

/-- A run came to an abort over a fiber that would anchor itself. But for that it shows nothing that
the other run does not show. -/
structure Snag (f : Nat) (a a' : Option Halt × Process) : Prop where
  halt : a.1 = some (.aborted (.anchorsItself f))
  trace : ∃ trace, a.2.trace = .logged (.violated (.anchorsItself f)) :: trace ∧
    shown trace <:+ shown a'.2.trace

/-- The first of two actions came to such an abort, or only the second. -/
def Apart (r r' : EStateM.Result Halt Process Unit) : Prop :=
  ∃ f, Snag f (Act.left r) (Act.left r') ∨
    Snag f (Act.left r') (Act.left r) ∧ ∀ g, (Act.left r).1 ≠ some (.aborted (.anchorsItself g))

namespace Act
open Process

section Steps

variable {hubs : Prop} {level : Level} {scripts scripts' : List (String × List Op)}
  {hscripts : scripts'.map (fun named => (named.1, Op.allMasked named.2)) =
    scripts.map (fun named => (named.1, Op.allMasked named.2))}
  {w : Pairing} {p p' q : Process} {f c : Nat} {x x' : Fiber}

theorem switchInto_grows (f c : Nat) (p : Process) :
    p.trace <:+ (left (switchInto f c p)).2.trace := by
  have hedits : (switchInto f c).Edits .usual p := edits_switchInto f c
  cases h : switchInto f c p with
  | ok _ q => exact (hedits.ok h).spares.grows
  | error halt q => exact (hedits.error h).spares.grows

/-- Past the anchor there is no more question of it. -/
theorem switchInto_anchored (f c : Nat) (p : Process) (g : Nat) :
    (left (switchInto f c p)).1 ≠ some (.aborted (.anchorsItself g)) := by
  have hfiber (f : Nat) (p : Process) : (fiber f).Leads p (fun _ _ => True)
      fun halt _ => halt ≠ .aborted (.anchorsItself g) :=
    leads_fiber_of (fun _ _ => trivial) fun h => nomatch h
  have hleads : (switchInto f c).Leads p (fun _ _ => True)
      fun halt _ => halt ≠ .aborted (.anchorsItself g) := by
    have htake : (takeContext f).Leads p (fun _ _ => True)
        fun halt _ => halt ≠ .aborted (.anchorsItself g) := by
      refine Leads.bind (hfiber f p) fun x q _ => ?_
      cases x.context with
      | none => exact leads_violate.mpr fun h => nomatch h
      | some k => exact trivial
    refine Leads.bind htake fun target q _ => leads_bind.mpr (leads_modifyThread.mpr ?_)
    have hmodify (p : Process) : (modifyFiber f ({· with state := .running})).Leads p
        (fun _ _ => True) fun halt _ => halt ≠ .aborted (.anchorsItself g) :=
      Leads.bind (hfiber f p) fun _ _ _ => (leads_setFiber (Q := fun _ _ => True)).mpr trivial
    refine Leads.bind (hmodify _) fun _ q _ => ?_
    refine leads_bind.mpr (leads_log.mpr ?_)
    unfold switchTo freshSerial
    simp only [leads_bind, leads_get, leads_modify, leads_pure, leads_thread, leads_modifyThread]
    exact Leads.bind (hfiber c _) fun _ _ _ =>
      leads_bind.mpr (leads_modifyThread.mpr ((leads_setFiber (Q := fun _ _ => True)).mpr trivial))
  intro h
  cases hr : switchInto f c p with
  | ok _ q => simp [hr, left] at h
  | error halt q =>
    rw [hr] at h
    exact hleads.error hr (Option.some.inj h)

/-- One of two resumes is not allowed. -/
theorem snag_approach (flag : Bool) (hp : p.Standing) (hx : p.thread.fibers.get? c = some x)
    (htwo : 2 ≤ x.handles) {r : Process} {halt : Halt} (hr : Snagged f q halt r)
    (hq : shown q.trace = shown p.trace) :
    Snag f (some halt, r) (left (approach f c flag (switchInto f c) p)) := by
  obtain ⟨rfl, trace, htrace, hmasked⟩ := hr
  refine ⟨rfl, trace, htrace, ?_⟩
  rw [hmasked, hq]
  rcases approach_cases f flag (switchInto f c) hp hx htwo with
    ⟨q', hq', heq⟩ | ⟨halt', q', ⟨-, trace', htrace', hmasked'⟩, heq⟩ <;> rw [heq]
  · rw [← show shown (p.giveBackOne c x).trace = shown p.trace from rfl, ← hq'.trace]
    exact shown_suffix (switchInto_grows f c q')
  · show _ <:+ shown q'.trace
    rw [htrace', shown_cons, hmasked']
    exact List.suffix_append _ _

/-- Whatever flags and hubs are, the approaches to a fiber come to the same unless one is not
allowed. -/
theorem approach_meets (flag flag' : Bool)
    (h : (Likeness.flagged hubs level hscripts).Alike w p p') (hp : p.Standing)
    (hp' : p'.Standing) (hx : p.thread.fibers.get? c = some x)
    (hx' : p'.thread.fibers.get? c = some x')
    (hxx' : x.Alike (.flagged hubs scripts scripts') w x') (htwo : 2 ≤ x.handles) :
    Agree (Likeness.flagged hubs level hscripts) w Same
        (approach f c flag (switchInto f c) p) (approach f c flag' (switchInto f c) p') ∨
      Apart (approach f c flag (switchInto f c) p) (approach f c flag' (switchInto f c) p') := by
  have htwo' : 2 ≤ x'.handles := hxx'.handles ▸ htwo
  have hmasked := shown_of_flagged h
  rcases approach_cases f flag (switchInto f c) hp hx htwo with ⟨q, hq, heq⟩ | ⟨halt, q, hq, heq⟩
  · rcases approach_cases f flag' (switchInto f c) hp' hx' htwo' with
      ⟨q', hq', heq'⟩ | ⟨halt', q', hq', heq'⟩
    · left
      rw [heq, heq']
      have hgiven : (Likeness.flagged hubs level hscripts).Alike w (p.giveBackOne c x)
          (p'.giveBackOne c x') :=
        {h with thread := alike_setFiber (m := .flagged hubs level hscripts) h.thread
                            {hxx' with handles := congrArg (· - 1) hxx'.handles}}
      exact mirrors_switchInto f c w (List.Subset.refl w) _ _ (flagged_borrowed hgiven hq hq')
    · refine .inr ⟨f, .inr ⟨?_, ?_⟩⟩
      · rw [heq']
        exact snag_approach flag hp hx htwo hq' hmasked
      · rw [heq]
        exact switchInto_anchored f c q
  · refine .inr ⟨f, .inl ?_⟩
    rw [heq]
    exact snag_approach flag' hp' hx' htwo' hq hmasked.symm

/-- After `currentFiber` a resume may look for its anchor. -/
theorem currentFiber_stands {hand : List Nat} {E : Halt → Process → Prop}
    (hp : p.thread.Steady p.nextId hand) : currentFiber.Leads p (fun c q => q.Standing ∧
      ∃ x, q.thread.fibers.get? c = some x ∧ 2 ≤ x.handles) E := by
  refine (lent_currentFiber hp).mono (fun c q ⟨p₁, hground, hc, hroot, hlent⟩ => ?_) fun _ _ h => h
  have hp₁ := (hground.move hand).steady hp
  obtain ⟨r, hr⟩ := Option.ne_none_iff_exists'.mp hroot
  obtain ⟨z, hz⟩ := hp₁.toCounted.root_alive hr
  obtain ⟨-, y, hy, -⟩ := hp₁.current_running hc
  refine ⟨⟨⟨r, _, hlent.root.trans hr, hlent.get? hz⟩, fun f x hx => ?_⟩, _, hlent.get? hy, ?_⟩
  · rw [hlent.fibers] at hx
    obtain ⟨x₁, hx₁, rfl⟩ := Option.map_eq_some_iff.mp hx
    exact Nat.lt_of_lt_of_le (hp₁.positive f x₁ hx₁) (Nat.le_add_right ..)
  · have := hp₁.positive c y hy
    rw [List.count_singleton_self]
    dsimp only
    omega

/-- Whatever flags and hubs are, resumes come to the same unless one is not allowed. -/
theorem resume_meets {hand : List Nat} (h : (Likeness.flagged hubs level hscripts).Alike w p p')
    (hp : p.thread.Steady p.nextId hand) (f : Nat) :
    Agree (Likeness.flagged hubs level hscripts) w Same (resume f p) (resume f p') ∨
      Apart (resume f p) (resume f p') := by
  have hsub := List.Subset.refl w
  have hfiber : Agree (Likeness.flagged hubs level hscripts) w
      (Fiber.Alike (.flagged hubs scripts scripts')) (fiber f p) (fiber f p') :=
    mirrors_fiber f w hsub p p' h
  rw [resume_eq]
  refine hfiber.bind_or fun u x x' q q' hq h₀ hx => ?_
  have hread : (fiber f).Leads p (fun _ q => q = p) fun _ _ => True :=
    leads_fiber_of (fun _ _ => rfl) trivial
  obtain rfl := hread.ok hq
  have hensure : Agree (Likeness.flagged hubs level hscripts) u Same
      (ensure (x.state = .ready) (.resumedWhile f x.state) q)
      (ensure (x'.state = .ready) (.resumedWhile f x'.state) q') := by
    rw [hx.state]
    exact mirrors_ensure Iff.rfl (.resumedWhile f x.state) u (List.Subset.refl u) q q' h₀
  refine hensure.bind_or fun u₁ _ _ q₁ q₁' hq₁ h₁ _ => ?_
  have hkeeps : (ensure (x.state = .ready) (.resumedWhile f x.state)).Leads q
      (fun _ q₁ => q₁ = q) fun _ _ => True :=
    leads_ensure.mpr ⟨fun _ => rfl, fun _ => trivial⟩
  obtain rfl := hkeeps.ok hq₁
  have hcurrent : Agree (Likeness.flagged hubs level hscripts) u₁
      (fun _ c c' => c' = c) (currentFiber q₁) (currentFiber q₁') :=
    mirrors_currentFiber u₁ (List.Subset.refl u₁) q₁ q₁' h₁
  refine hcurrent.bind_or fun u₂ c c' q₂ q₂' hq₂ h₂ hc => ?_
  obtain rfl := hc
  obtain ⟨hstanding, y, hy, htwo⟩ := (currentFiber_stands (E := fun _ _ => True) hp).ok hq₂
  obtain ⟨y', hy', hyy'⟩ := fiber_flagged h₂ hy
  exact approach_meets _ _ h₂ hstanding (standing_flagged h₂ hstanding) hy hy' hyy' htwo

/-- What resumes the fiber in a slot does so with any flags and hubs, unless it is not allowed. -/
theorem perform_resume_meets {op : Op} {frame frame' : Frame} {rest rest' : List Task} {s : String}
    (h : (Likeness.flagged hubs level hscripts).Alike w (p.takeUp frame rest)
      (p'.takeUp frame' rest')) (hp : p.Ordered) (hop : p.thread.Performs op frame rest)
    (ha : op.action = .resume s) :
    Agree (Likeness.flagged hubs level hscripts) w Same
        (perform op (p.takeUp frame rest)) (perform op (p'.takeUp frame' rest')) ∨
      Apart (perform op (p.takeUp frame rest)) (perform op (p'.takeUp frame' rest')) := by
  have hsub (u : Pairing) := List.Subset.refl u
  rw [perform_resume ha]
  refine (mirrors_slot? s w (hsub w) _ _ h).bind_or fun u f f' q q' hq h₁ hf => ?_
  obtain rfl := hf
  cases hq
  cases hs : p.thread.slots.get? s with
  | none =>
    rw [show (p.takeUp frame rest).thread.slots.get? s = none from hs]
    have habsent : Answer.Alike (.flagged hubs scripts scripts') u .absent .absent := .same trivial
    exact .inl (mirrors_answer flagged_reports op.label habsent u (hsub u) _ _ h₁)
  | some f =>
    rw [show (p.takeUp frame rest).thread.slots.get? s = some f from hs]
    obtain ⟨x, hx⟩ := hp.slot_alive hs
    have hinside : (holding f (.resumed op.label f) (pure ())).Leads (p.takeUp frame rest)
        (fun _ q => q.thread.Steady q.nextId []) fun _ _ => True :=
      (leads_holding hx).mpr (hp.inside _ hop hx rfl).1
    have hresumed (u : Pairing) : Mirrors (Likeness.flagged hubs level hscripts) u
        (defer [.resumed op.label f]) (defer [.resumed op.label f]) Same :=
      mirrors_deferOne (.resumed op.label f)
    refine (mirrors_retain f u (hsub u) _ _ h₁).bind_or fun u₂ _ _ q₂ q₂' hq₂ h₂ _ => ?_
    refine (hresumed u₂ u₂ (hsub u₂) _ _ h₂).bind_or fun u₃ _ _ q₃ q₃' hq₃ h₃ _ => ?_
    exact resume_meets h₃ (hinside.ok ((bind_ok hq₂).trans (bind_ok hq₃))) f

/-- Operations that switch are the same in both processes. -/
theorem performs_flagged {op : Op} {frame : Frame} {rest : List Task} {s : String}
    (h : (Likeness.flagged hubs level hscripts).Alike w p p')
    (hop : p.thread.Performs op frame rest) (ha : op.action = .resume s) :
    ∃ frame' rest', p'.thread.Performs op frame' rest' ∧
      (Likeness.flagged hubs level hscripts).Alike w (p.takeUp frame rest)
        (p'.takeUp frame' rest') := by
  have hcode := h.thread.running.code
  rw [hop.code] at hcode
  obtain ⟨origin, held, todo⟩ := frame
  obtain rfl : todo = .perform op :: rest := hop.todo
  cases hcode' : p'.thread.running.code <;> rw [hcode'] at hcode <;> cases hcode
  next frame' hframe =>
  obtain ⟨origin', held', todo'⟩ := frame'
  obtain ⟨horigin, hheld, htodo⟩ := hframe
  rcases htodo with htodo | ⟨⟨hcuts, -⟩, -⟩
  · cases htodo with
    | cons htask hrest =>
      cases htask with
      | perform halike =>
        obtain @⟨label, a, a', haction⟩ := halike
        obtain rfl : a = .resume s := ha
        cases haction
        refine ⟨_, _, ⟨hcode', rfl⟩, {h with thread := {h.thread with running := ?_}}⟩
        exact ⟨h.thread.running.serial, .active ⟨horigin, hheld, .inl hrest⟩⟩
  · exact hcuts.elim

/-- A script is being gone on with that asks for the hub. -/
def AsksHub (p : Process) : Prop :=
  ∃ op frame rest s, p.thread.Performs op frame rest ∧ op.action = .hub s

/-- **A step** comes to the same whatever flags are, and whatever hubs are when they are not asked
for, unless it is a resume which is not allowed. -/
theorem step_meets (h : (Likeness.flagged hubs level hscripts).Alike w p p') (hp : p.Ordered)
    (hhub : hubs ∨ ¬AsksHub p) : Agree (Likeness.flagged hubs level hscripts) w Same
        (step p) (step p') ∨ Apart (step p) (step p') := by
  by_cases hdiffers : p.Differs (.flagged hubs level hscripts) p'
  · have hcode := h.thread.running.code
    cases hdiffers with
    | hub hop ha hhubs => exact (hhub.elim hhubs fun hasks => hasks ⟨_, _, _, _, hop, ha⟩).elim
    | leave hleft hleft' =>
      rw [hleft, hleft'] at hcode
      cases hcode with
      | leaving _ _ h =>
        cases h with
        | cut _ hcuts => exact hcuts.elim
    | @resume op frame rest s hop ha =>
      obtain ⟨frame', rest', hop', htaken⟩ := performs_flagged h hop ha
      rw [step_of_performs hop, step_of_performs hop']
      exact perform_resume_meets htaken hp hop ha
  · exact .inl (step_agrees flagged_reports h hdiffers)

end Steps
end Act

/-! ### Runs -/

/-- The end is an abort over a fiber that would anchor itself. -/
def Snags (halt : Option Halt) : Prop := ∃ f, halt = some (.aborted (.anchorsItself f))

namespace Process

/-- The processes differ in nothing that shows but flags, and hubs if those do not count. -/
structure Flagged (hubs : Prop) (p p' : Process) : Prop where
  nextId : p'.nextId = p.nextId
  live : p'.live = p.live
  stackSize : p'.stackSize = p.stackSize
  memory : p'.memory = p.memory
  /-- All threads have the same fibers, in the same states, with the same handles, in the same
  slots, and are to do the same. -/
  threads : ∃ w : Pairing, w.Diagonal ∧
    List.Forall₂ (Thread.Alike (.flagged hubs p.scripts p'.scripts) w) p.threads p'.threads
  trace : shown p'.trace = shown p.trace

/-- The process with another hub. -/
def withHub (p : Process) (hub : Option Nat) : Process := {p with thread := {p.thread with hub}}

end Process

open Process Act

section Runs

variable {hubs : Prop} {level : Level} {scripts scripts' : List (String × List Op)}
  {hscripts : scripts'.map (fun named => (named.1, Op.allMasked named.2)) =
    scripts.map (fun named => (named.1, Op.allMasked named.2))}
  {w : Pairing} {p p' q q' : Process} {n : Nat}

theorem flagged_of_alike (h : (Likeness.flagged hubs level hscripts).Alike w p p') :
    p.Flagged hubs p' where
  nextId := h.nextId
  live := h.live
  stackSize := h.stackSize
  memory := (h.memory.resolve_left id).1
  threads := by
    obtain rfl : p.scripts = scripts := h.scripts
    obtain rfl : p'.scripts = scripts' := h.scripts'
    refine ⟨w, (h.memory.resolve_left id).2, .cons h.thread ?_⟩
    exact List.rel_map (fun _ _ hj => hj.thread) h.joining
  trace := shown_of_flagged h

/-- Processes on the way, of which the first is in order. -/
def Abreast (hubs : Prop) (level : Level) {scripts scripts' : List (String × List Op)}
    (hscripts : scripts'.map (fun named => (named.1, Op.allMasked named.2)) =
      scripts.map (fun named => (named.1, Op.allMasked named.2))) (p p' : Process) : Prop :=
  p.Lawful ∧ ∃ w, (Likeness.flagged hubs level hscripts).Alike w p p'

theorem step_abreast (h : Abreast hubs level hscripts p p') :
    Match (Abreast hubs level hscripts)
        (fun halt q halt' q' => SameEnd halt q.trace halt' q'.trace) (p.run 1) (p'.run 1) ∨
      Apart (step p) (step p') ∨ ¬hubs ∧ AsksHub p := by
  obtain ⟨hp, w, h⟩ := h
  by_cases hasks : hubs ∨ ¬AsksHub p
  · rcases step_meets h hp.ordered hasks with hagree | hapart
    · refine .inl (hagree.run.imp (fun q q' hq _ ⟨u, _, hu⟩ => ⟨?_, u, hu⟩)
        fun halt q halt' q' ⟨u, _, hu, hends⟩ => hends (hu.resolve_left id))
      exact hp.run hq
    · exact .inr (.inl hapart)
  · exact .inr (.inr ⟨fun h => hasks (.inl h), by_contra fun h => hasks (.inr h)⟩)

/-- **Runs** come to the same as long as no resume is refused for its anchor and, if hubs do not
count, nobody asks for the hub. -/
theorem run_abreast_flagged (h : Abreast hubs level hscripts p p')
    (hasks : hubs ∨ ∀ m q, m < n → p.run m = (none, q) → ¬AsksHub q)
    (hn : ¬Snags (p.run n).1) (hn' : ¬Snags (p'.run n).1) :
    Match (Abreast hubs level hscripts)
      (fun halt q halt' q' => SameEnd halt q.trace halt' q'.trace) (p.run n) (p'.run n) := by
  rcases run_abreast (fun p p' => step_abreast) h n with hmatch | ⟨m, q, q', hm, hpart⟩
  · exact hmatch
  have hleft {p q : Process} {f : Nat} (hp : p.run m = (none, q))
      (hs : (left (step q)).1 = some (.aborted (.anchorsItself f))) : Snags (p.run n).1 := by
    have hone : p.run (m + 1) = (some (.aborted (.anchorsItself f)), (q.run 1).2) := by
      rw [run_add hp, ← hs, run_one]
    exact ⟨f, by rw [run_halted hone hm]⟩
  rcases hpart.parts with ⟨f, hsnag | ⟨hsnag, -⟩⟩ | ⟨hhubs, hask⟩
  · exact (hn (hleft hpart.run hsnag.halt)).elim
  · exact (hn' (hleft hpart.run' hsnag.halt)).elim
  · exact ((hasks.resolve_left hhubs) m q hm hpart.run hask).elim

/-- Another hub makes a process that is alike where hubs do not count. -/
theorem abreast_withHub {s : Scenario} (h : s.Reaches p) (hub : Option Nat) :
    @Abreast False p.level p.scripts p.scripts rfl p (p.withHub hub) := by
  have hplain : (Variation.flagged False p.scripts p.scripts).Plain :=
    ⟨fun op => Op.alike_of_masked op op rfl, fun _ => trivial⟩
  have hself {t : Thread} (ht : t ∈ p.threads) :
      t.Alike (.flagged False p.scripts p.scripts) p.ownPairing t :=
    Thread.alike_self hplain (h.names_alive ht) (fun _ _ => rfl) (fun h => h.elim)
      fun stack hs => mem_ownPairing (List.mem_append_left _ ht) hs
  refine ⟨h.lawful, p.ownPairing, {
    level := rfl
    level' := rfl
    scripts := rfl
    scripts' := rfl
    environment := rfl
    stackSize := rfl
    nextId := rfl
    following := fun _ _ => rfl
    live := rfl
    nextSerial := rfl
    memory := .inr ⟨rfl, diagonal_ownPairing p⟩
    placement := rfl
    used := fun x hx => ⟨h.used x hx, diagonal_ownPairing p x hx ▸ h.used x hx⟩
    oneToOne := fun _ => (diagonal_ownPairing p).oneToOne
    thread := {hself (List.mem_cons_self ..) with hub := fun h => h.elim}
    joining := List.forall₂_same.mpr fun joiner hj =>
      ⟨hself (List.mem_cons_of_mem _ (List.mem_map_of_mem hj)), rfl⟩
    trace := fun _ => rfl }⟩

/-- Scenarios that differ in flags begin alike. -/
theorem abreast_start {s s' : Scenario} (h : s'.masked = s.masked) : ∃ hscripts,
    @Abreast True s.level s.scripts s'.scripts hscripts s.process s'.process := by
  simp only [Scenario.masked, Scenario.mk.injEq] at h
  obtain ⟨hlevel, henvironment, hplacement, hscripts, hprogram⟩ := h
  exact ⟨hscripts, s.lawful, [], Scenario.alike_process rfl hlevel rfl rfl henvironment hplacement
    (fun _ => rfl) (Op.allAlike_of_masked _ _ hprogram) fun _ => rfl⟩

/-- The first resume that is refused for its anchor shows nothing that the other run does not
show. -/
theorem first_snag {f : Nat} (h : Abreast hubs level hscripts p p') (hhubs : hubs)
    (hn : ¬Snags (p.run n).1) (hn' : ¬Snags (p'.run n).1)
    (hsnag : (p.run (n + 1)).1 = some (.aborted (.anchorsItself f))) :
    ∃ trace, (p.run (n + 1)).2.trace = .logged (.violated (.anchorsItself f)) :: trace ∧
      shown trace <:+ shown (p'.run (n + 1)).2.trace := by
  have hmatch := run_abreast_flagged h (.inl hhubs) hn hn'
  cases hr : p.run n with
  | mk end? q =>
    cases hr' : p'.run n with
    | mk end'? q' =>
      rw [hr, hr'] at hmatch
      cases hmatch with
      | halted hends =>
        rw [run_halted hr (Nat.le_succ n)] at hsnag
        exact (hn ⟨f, by rw [hr, hsnag]⟩).elim
      | going hgoing =>
        rw [run_add hr] at hsnag ⊢
        rw [run_add hr']
        rcases step_abreast hgoing with hstep | ⟨g, hapart⟩ | ⟨hnot, -⟩
        · cases hone : q.run 1 with
          | mk last r =>
            cases hone' : q'.run 1 with
            | mk last' r' =>
              rw [hone, hone'] at hstep
              rw [hone] at hsnag
              cases hstep with
              | going => cases hsnag
              | halted hends =>
                obtain rfl := Option.some.inj hsnag
                obtain ⟨earlier, hearlier⟩ := hends.last _ rfl
                refine ⟨earlier, hearlier, ?_⟩
                have hshown := hends.shown
                dsimp only
                rw [hshown, hearlier, shown_cons]
                exact List.suffix_append _ _
        · rw [← run_one, ← run_one] at hapart
          rcases hapart with ⟨hhalt, trace, htrace, hshown⟩ | ⟨-, hnone⟩
          · rw [hsnag] at hhalt
            cases hhalt
            exact ⟨trace, htrace, hshown⟩
          · exact (hnone f hsnag).elim
        · exact (hnot hhubs).elim

end Runs

/-! ### The flag and the hub -/

/-- What scenarios have in common that differ in the scheduler flags of their fibers. -/
structure Scenario.FlagsAreLabels (s s' : Scenario) : Prop where
  /-- While no resume is refused for its anchor, the runs come to the same end and the same shows of
  them. -/
  same : ∀ n, ¬Snags (s.play n).halt → ¬Snags (s'.play n).halt →
    (s'.play n).halt = (s.play n).halt ∧ shown (s'.play n).events = shown (s.play n).events
  /-- Nor does anything else in the processes differ. -/
  alike : ∀ n p p', s.process.run n = (none, p) → s'.process.run n = (none, p') →
    p.Flagged True p'
  /-- What shows of a run up to the first such refusal shows in the other run as well. -/
  first : ∀ n f, ¬Snags (s.play n).halt → ¬Snags (s'.play n).halt →
    (s.play (n + 1)).halt = some (.aborted (.anchorsItself f)) →
    ∃ events, (s.play (n + 1)).events = events ++ [.logged (.violated (.anchorsItself f))] ∧
      ∀ m, n < m → shown events <+: shown (s'.play m).events
  /-- Which fiber is the hub makes no difference either until somebody asks for it. -/
  hubs : ∀ p hub n, s.Reaches p → (∀ m q, m < n → p.run m = (none, q) → ¬AsksHub q) →
    ¬Snags (p.run n).1 → ¬Snags ((p.withHub hub).run n).1 →
    Match (Flagged False) (fun halt q halt' q' => halt' = halt ∧ shown q'.trace = shown q.trace)
      (p.run n) ((p.withHub hub).run n)

theorem shown_reverse (trace : List Event) : shown trace.reverse = (shown trace).reverse :=
  List.filterMap_reverse

/-- **The scheduler flag is only an anchor label**, and so is the hub: neither decides where control
goes, what becomes of a fiber, or when it is destroyed. -/
theorem Scenario.flags_are_labels {s s' : Scenario} (h : s'.masked = s.masked) :
    s.FlagsAreLabels s' := by
  obtain ⟨hscripts, hstart⟩ := abreast_start h
  refine ⟨fun n hn hn' => ?_, fun n p p' hp hp' => ?_, fun n f hn hn' hsnag => ?_,
    fun p hub n hp hasks hn hn' => ?_⟩
  · have hmatch := run_abreast_flagged hstart (.inl trivial) hn hn'
    rw [play, play, shown_reverse, shown_reverse]
    cases hr : s.process.run n with
    | mk end? q =>
      cases hr' : s'.process.run n with
      | mk end'? q' =>
        rw [hr, hr'] at hmatch
        cases hmatch with
        | going hgoing =>
          obtain ⟨-, w, hq⟩ := hgoing
          exact ⟨rfl, congrArg List.reverse (shown_of_flagged hq)⟩
        | halted hends =>
          exact ⟨congrArg some hends.reason, congrArg List.reverse hends.shown⟩
  · have hnone {p q : Process} (hp : p.run n = (none, q)) : ¬Snags (p.run n).1 := by
      rw [hp]
      exact fun ⟨_, h⟩ => nomatch h
    have hmatch := run_abreast_flagged hstart (.inl trivial) (hnone hp) (hnone hp')
    rw [hp, hp'] at hmatch
    cases hmatch with
    | going hgoing =>
      obtain ⟨-, w, hq⟩ := hgoing
      exact flagged_of_alike hq
  · obtain ⟨trace, htrace, hshown⟩ := first_snag hstart trivial hn hn' hsnag
    refine ⟨trace.reverse, ?_, fun m hm => ?_⟩
    · show (s.process.run (n + 1)).2.trace.reverse = _
      rw [htrace]
      exact List.reverse_cons
    · show shown trace.reverse <+: shown (s'.process.run m).2.trace.reverse
      rw [shown_reverse, shown_reverse, List.reverse_prefix]
      exact hshown.trans (shown_suffix (s'.lawful.run_grows_le hm))
  · refine (run_abreast_flagged (abreast_withHub hp hub) (.inr hasks) hn hn').imp
      (fun q q' _ _ hq => ?_) fun halt q halt' q' hends => ⟨hends.reason, hends.shown⟩
    obtain ⟨-, w, hq⟩ := hq
    exact flagged_of_alike hq

/-- A fiber is made the hub and resumed. -/
def Scenario.hubResumed (flag : Bool) : Scenario where
  level := .debug
  program := [
    .on "new" "f" (.create "f" (.inline [.mk ⟨"note", none⟩ .note]) 16384 flag none),
    .on "setHub" "f" (.setHub "f"),
    .on "resume" "f" (.resume "f")]

/-- In a scheduler the fiber would anchor itself; out of it, it runs. -/
theorem hubResumed_flags_are_labels :
    (Scenario.hubResumed false).masked = (Scenario.hubResumed true).masked ∧
    ((Scenario.hubResumed true).play 4).halt = some (.aborted (.anchorsItself 0)) ∧
    ∃ events, ((Scenario.hubResumed true).play 4).events =
        events ++ [.logged (.violated (.anchorsItself 0))] ∧
      shown events <+: shown ((Scenario.hubResumed false).play 20).events := by
  have hhalt : ((Scenario.hubResumed true).play 4).halt = some (.aborted (.anchorsItself 0)) := by
    decide +kernel
  have hgoing (flag : Bool) : ¬Snags ((Scenario.hubResumed flag).play 3).halt := by
    have hnone : ((Scenario.hubResumed flag).play 3).halt = none := by
      revert flag
      decide +kernel
    rw [hnone]
    exact fun ⟨_, h⟩ => nomatch h
  have hlabels := Scenario.flags_are_labels
    (show (Scenario.hubResumed false).masked = (Scenario.hubResumed true).masked from rfl)
  obtain ⟨events, hevents, hshown⟩ := hlabels.first 3 0 (hgoing true) (hgoing false) hhalt
  exact ⟨rfl, hhalt, events, hevents, hshown 20 (by decide)⟩

end Fibers
