import Fibers.Proofs.Parallel
import Fibers.Proofs.Reach
import Fibers.Proofs.Report

/-! Runs side by side.

Two runs go on abreast as long as each step of the one matches the step of the other:
`run_abreast` is the induction, for steps that match or come to a parting. Whatever happens, a run
only adds to what happened before (`Process.Lawful.run_grows`). -/
namespace Fibers
namespace Process

variable {p p' q q' r : Process} {kind : Kind} {halt : Halt} {n : Nat}

/-! ### What happened stays -/

theorem Spares.grows (h : p.Spares q) : p.trace <:+ q.trace :=
  have ⟨records, hq⟩ := h.trace
  ⟨records.map .logged, hq.symm⟩

theorem Records.grows (h : p.Records kind q) : p.trace <:+ q.trace := by
  cases h with
  | nothing h => exact h.spares.grows
  | report h _ hq =>
    subst hq
    exact h.spares.grows.trans (List.suffix_cons ..)

theorem Effects.grows (h : p.Effects kind q) : p.trace <:+ q.trace := by
  cases h with
  | edits h => exact h.spares.grows
  | records h => exact h.grows
  | ended _ h => exact (List.suffix_cons ..).trans h.spares.grows
  | launch h hq =>
    subst hq
    exact h.spares.grows
  | join _ h _ _ hq =>
    subst hq
    exact h.spares.grows.trans (List.suffix_cons ..)

theorem Parts.grows (h : p.Parts kind halt q) : p.trace <:+ q.trace := by
  cases h with
  | breaks h => exact h.spares.grows
  | ended _ h => exact (List.suffix_cons ..).trans h.spares.grows
  | withdrawn h => exact h.spares.grows

/-- What happened so far stays in the trace. -/
theorem Lawful.run_grows (h : p.Lawful) (n : Nat) : p.trace <:+ (p.run n).2.trace := by
  induction n generalizing p with
  | zero => exact List.suffix_refl _
  | succ n ih =>
    have hstep := Act.step_effects h.ordered
    rw [Process.run]
    cases hs : Act.step p with
    | ok _ q => exact (hstep.ok hs).grows.trans (ih (h.step hs).2)
    | error halt q => exact (hstep.error hs).grows

/-! ### Matching runs -/

/-- A process that has halted does nothing more. -/
theorem run_halted (h : p.run n = (some halt, q)) {m : Nat} (hm : n ≤ m) :
    p.run m = (some halt, q) := by
  induction n generalizing p m with
  | zero => cases h
  | succ n ih =>
    have hpos : m ≠ 0 := Nat.ne_of_gt (Nat.lt_of_lt_of_le n.succ_pos hm)
    obtain ⟨m, rfl⟩ := Nat.exists_eq_succ_of_ne_zero hpos
    rw [run] at h ⊢
    split at h
    · next hs => exact ih h (Nat.le_of_succ_le_succ hm)
    · exact h

/-- What happened in part of a run happened in the whole. -/
theorem Lawful.run_grows_le (h : p.Lawful) {m : Nat} (hm : n ≤ m) :
    (p.run n).2.trace <:+ (p.run m).2.trace := by
  cases hr : p.run n with
  | mk end? q =>
    cases end? with
    | none =>
      obtain ⟨k, rfl⟩ := Nat.exists_eq_add_of_le hm
      rw [run_add hr]
      exact (h.run hr).run_grows k
    | some halt =>
      rw [run_halted hr hm]

/-- Two runs match: both go on in processes that are related, or both have halted in ways that
are. -/
inductive Match (R : Process → Process → Prop) (E : Halt → Process → Halt → Process → Prop) :
    Option Halt × Process → Option Halt × Process → Prop
  | going {q q' : Process} (h : R q q') : Match R E (none, q) (none, q')
  | halted {halt halt' : Halt} {q q' : Process} (h : E halt q halt' q') :
    Match R E (some halt, q) (some halt', q')

variable {R R' X : Process → Process → Prop} {E E' : Halt → Process → Halt → Process → Prop}

theorem Match.imp {a a' : Option Halt × Process} (h : Match R E a a')
    (hR : ∀ q q', a = (none, q) → a' = (none, q') → R q q' → R' q q')
    (hE : ∀ halt q halt' q', E halt q halt' q' → E' halt q halt' q') : Match R' E' a a' := by
  cases h with
  | going h => exact .going (hR _ _ rfl rfl h)
  | halted h => exact .halted (hE _ _ _ _ h)

/-- The runs are still related after so many steps, and there they part. -/
structure Parting (R X : Process → Process → Prop) (p p' : Process) (m : Nat) (q q' : Process) :
    Prop where
  run : p.run m = (none, q)
  run' : p'.run m = (none, q')
  related : R q q'
  parts : X q q'

theorem Parting.before {m : Nat} {r r' : Process} (hs : Act.step p = .ok () q)
    (hs' : Act.step p' = .ok () q') (h : Parting R X q q' m r r') :
    Parting R X p p' (m + 1) r r' :=
  ⟨(run_succ hs).trans h.run, (run_succ hs').trans h.run', h.related, h.parts⟩

/-- Steps that match or part make runs that match until they part. -/
theorem run_abreast (hstep : ∀ p p', R p p' → Match R E (p.run 1) (p'.run 1) ∨ X p p')
    (h : R p p') (n : Nat) :
    Match R E (p.run n) (p'.run n) ∨ ∃ m q q', m < n ∧ Parting R X p p' m q q' := by
  induction n generalizing p p' with
  | zero => exact .inl (.going h)
  | succ n ih =>
    rcases hstep p p' h with hone | hparts
    · simp only [Process.run] at hone ⊢
      cases hs : Act.step p <;> cases hs' : Act.step p' <;> rw [hs, hs'] at hone <;> cases hone
      · next hgoing =>
        rcases ih hgoing with hmatch | ⟨m, r, r', hm, hpart⟩
        · exact .inl hmatch
        · exact .inr ⟨m + 1, r, r', Nat.succ_lt_succ hm, hpart.before hs hs'⟩
      · next hends => exact .inl (.halted hends)
    · exact .inr ⟨0, p, p', Nat.succ_pos n, rfl, rfl, h, hparts⟩

end Process

namespace Act

variable {α β : Type} {p p' q : Process} {m : Likeness} {w : Pairing} {A : Pairing → α → α → Prop}
  {B : Pairing → β → β → Prop}

/-- Going on from an action that answers. -/
theorem bind_ok {act : Act α} {k : α → Act β} {a : α} (h : act p = .ok a q) :
    (act >>= k) p = k a q := by
  show EStateM.bind act k p = _
  unfold EStateM.bind
  rw [h]

theorem bind_error {act : Act α} {k : α → Act β} {halt : Halt} (h : act p = .error halt q) :
    (act >>= k) p = .error halt q := by
  show EStateM.bind act k p = _
  unfold EStateM.bind
  rw [h]

/-- Two actions that agree are gone on with, and after that the processes may part. -/
theorem Agree.bind_or {P : EStateM.Result Halt Process β → EStateM.Result Halt Process β → Prop}
    {act act' : Act α} {k k' : α → Act β} (h : Agree m w A (act p) (act' p'))
    (hk : ∀ u a a' q q', act p = .ok a q → m.Alike u q q' → A u a a' →
      Agree m u B (k a q) (k' a' q') ∨ P (k a q) (k' a' q')) :
    Agree m w B ((act >>= k) p) ((act' >>= k') p') ∨ P ((act >>= k) p) ((act' >>= k') p') := by
  cases hr : act p <;> cases hr' : act' p' <;> rw [hr, hr'] at h
  · obtain ⟨u, hu, hq, ha⟩ := h
    rw [bind_ok hr, bind_ok hr']
    exact (hk u _ _ _ _ hr hq ha).imp_left fun h => h.before hu
  · exact h.elim
  · exact h.elim
  · rw [bind_error hr, bind_error hr']
    exact .inl h

/-- The current fiber is there to be told of. -/
theorem status_eq {hand : List Nat} (hp : p.thread.Steady p.nextId hand) :
    status p = .ok ⟨p.thread.current.getD 0, p.live⟩ p := by
  obtain ⟨_, q, h, rfl, hq⟩ := (status_answers hp).answers
  rw [h, hq]

/-- A step of code that is about to perform an operation. -/
theorem step_of_performs {op : Op} {frame : Frame} {rest : List Task}
    (h : p.thread.Performs op frame rest) : step p = perform op (p.takeUp frame rest) := by
  rw [step_eq, h.code]
  dsimp only
  rw [h.todo]
  rfl

/-- Where an action has led: why it halted, if it did, and the process as it is then. -/
def left : EStateM.Result Halt Process α → Option Halt × Process
  | .ok _ q => (none, q)
  | .error halt q => (some halt, q)

theorem run_one (p : Process) : p.run 1 = left (step p) := by
  rw [Process.run]
  cases step p <;> rfl

/-- Steps that agree are runs of one step that match. -/
theorem Agree.run (h : Agree m w Same (step p) (step p')) : Process.Match
      (fun q q' => ∃ u, w ⊆ u ∧ m.Alike u q q')
      (fun halt q halt' q' => ∃ u, w ⊆ u ∧ (m.moved ∨ u.Diagonal) ∧
        m.ends u halt q.trace halt' q'.trace)
      (p.run 1) (p'.run 1) := by
  rw [run_one, run_one]
  cases hs : step p <;> cases hs' : step p' <;> rw [hs, hs'] at h
  · obtain ⟨u, hu, hq, -⟩ := h
    exact .going ⟨u, hu, hq⟩
  · exact h.elim
  · exact h.elim
  · exact .halted h

end Act

/-- Scenarios that correspond begin alike. -/
theorem Scenario.alike_process {m : Likeness} {s s' : Scenario} (hlevel : s.level = m.level)
    (hlevel' : s'.level = m.level') (hscripts : s.scripts = m.scripts)
    (hscripts' : s'.scripts = m.scripts') (henvironment : s'.environment = s.environment)
    (hplacement : s'.placement = s.placement) (hid : ∀ f, m.id f = f)
    (hprogram : List.Forall₂ (Op.Alike m.toVariation) s.program s'.program)
    (htraces : m.traces [] [] []) : m.Alike [] s.process s'.process where
  level := hlevel
  level' := hlevel'
  scripts := hscripts
  scripts' := hscripts'
  environment := henvironment
  stackSize := rfl
  nextId := (hid 0).symm
  following f _ := by rw [hid, hid]
  live := rfl
  nextSerial := rfl
  memory := .inr ⟨congrArg (Memory.System.mk · []) hplacement, (fun _ hx => nomatch hx)⟩
  placement := hplacement
  used _ hx := nomatch hx
  oneToOne _ _ hx := nomatch hx
  thread := Act.alike_start 0 hprogram
  joining := .nil
  trace := htraces

end Fibers
