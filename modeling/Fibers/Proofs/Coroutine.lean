import Fibers.Proofs.Start

/-! Coroutines.

A straight callback is a list of parts, each a segment of local operations that ends in a yield,
the last one excepted. Resumed one at a time, fibers with such callbacks should be independent
coroutines: a `resume` performs the next part of one of them, and nothing else. `interleave` is
what a schedule of resumes performs by that rule, without slots, handles or switches;
`Process.Plays` is what a run does perform. -/
namespace Fibers

/-! ### Straight callbacks -/

/-- The parts of a straight callback: at least one, of local operations, with a yield at the end
of each but the last. -/
inductive Straight : List (List Op) → Prop
  | last {segment : List Op} (h : ∀ op ∈ segment, op.action.Local) : Straight [segment]
  | next {segment : List Op} {label : Label} {rest : List (List Op)}
    (h : ∀ op ∈ segment, op.action.Local) (hrest : Straight rest) :
    Straight ((segment ++ [.mk label .yield]) :: rest)

/-- When resumed, the fiber goes on with these operations. -/
inductive Fiber.Awaits (f : Nat) (x : Fiber) (ops : List Op) : Prop
  | start {k : Context} (hcallback : x.callback = some ops) (hk : x.context = some k)
    (hcode : k.code = .entry f)
  | yield {k : Context} {label : Label} (hk : x.context = some k)
    (hcode : k.code = .active ⟨.callback f, [], .yielded label none :: Task.ofOps ops⟩)

/-- The fiber stands where these parts of its callback are left. -/
structure Fiber.Stands (f : Nat) (left : List (List Op)) (x : Fiber) : Prop where
  task : x.stack ≠ none
  state : x.state = if left = [] then .term else .ready
  awaits : left ≠ [] → x.Awaits f left.flatten

def Thread.Stands (t : Thread) (f : Nat) (left : List (List Op)) : Prop :=
  ∃ x, t.fibers.get? f = some x ∧ x.Stands f left

/-- A task fiber whose callback has not begun. -/
def Thread.Fresh (t : Thread) (f : Nat) (callback : List Op) : Prop :=
  ∃ x, t.fibers.get? f = some x ∧ x.stack ≠ none ∧ x.callback = some callback

theorem Straight.ne_nil {parts : List (List Op)} (h : Straight parts) : parts ≠ [] := by
  cases h <;> simp

/-- What is left of a straight callback is straight. -/
theorem Straight.drop {parts : List (List Op)} (h : Straight parts) (n : Nat) :
    parts.drop n = [] ∨ Straight (parts.drop n) := by
  induction n generalizing parts with
  | zero => exact .inr h
  | succ n ih =>
    cases h with
    | last h => simp
    | next h hrest => exact ih hrest

/-- A fiber that has not begun has its whole callback left. -/
theorem Thread.Fresh.stands {t : Thread} {f : Nat} {parts : List (List Op)}
    (h : t.Fresh f parts.flatten) (ht : t.Primed) (hrun : t.running.code ≠ .entry f)
    (hparts : parts ≠ []) : t.Stands f parts := by
  obtain ⟨x, hx, hstack, hcallback⟩ := h
  have hstart := (ht.callback f x hx).mp (hcallback ▸ Option.some_ne_none _)
  obtain ⟨k, hk, hcode⟩ := hstart.resolve_left hrun
  refine ⟨x, hx, hstack, ?_, fun _ => .start hcallback hk hcode⟩
  rw [if_neg hparts]
  exact (ht.rests f x k f hx hk hcode).2

/-! ### Independent coroutines -/

/-- The fiber that an operation resumes. -/
def Op.target? (slots : Table String Nat) (op : Op) : Option Nat :=
  op.action.resumes?.bind slots.get?

/-- What a program's operation performs: itself, and the next part of the fiber it resumes. -/
def Op.performs (slots : Table String Nat) (left : Nat → List (List Op)) (op : Op) :
    List (Origin × Op) :=
  (.program, op) :: match op.target? slots with
    | some f => ((left f).headD []).map (.callback f, ·)
    | none => []

/-- What is left of the callbacks after an operation of the program. -/
def Op.spend (slots : Table String Nat) (op : Op) (left : Nat → List (List Op)) :
    Nat → List (List Op) :=
  fun f => if op.target? slots = some f then (left f).tail else left f

/-- What coroutines perform under a schedule. -/
def interleave (slots : Table String Nat) : (Nat → List (List Op)) → List Op → List (Origin × Op)
  | _, [] => []
  | left, op :: rest => op.performs slots left ++ interleave slots (op.spend slots left) rest

/-- How often a schedule resumes a fiber. -/
def resumptions (slots : Table String Nat) (f : Nat) (schedule : List Op) : Nat :=
  schedule.countP fun op => op.target? slots = some f

/-- What is left of the callbacks after a schedule. -/
def remaining (slots : Table String Nat) (left : Nat → List (List Op)) (schedule : List Op) :
    Nat → List (List Op) :=
  fun f => (left f).drop (resumptions slots f schedule)

section Interleaving

variable {slots : Table String Nat} {left : Nat → List (List Op)} {op : Op} {f : Nat}
  {schedule : List Op}

theorem remaining_cons :
    remaining slots left (op :: schedule) = remaining slots (op.spend slots left) schedule := by
  funext f
  unfold remaining resumptions Op.spend
  rw [List.countP_cons]
  by_cases h : op.target? slots = some f
  · simp [h, List.drop_tail]
  · simp [h]

/-- What the callback of a fiber does in a record of performances. -/
def ofCallback (f : Nat) (log : List (Origin × Op)) : List Op :=
  (log.filter fun entry => entry.1 = .callback f).map Prod.snd

theorem ofCallback_append (log log' : List (Origin × Op)) :
    ofCallback f (log ++ log') = ofCallback f log ++ ofCallback f log' := by
  simp [ofCallback]

theorem ofCallback_performs : ofCallback f (op.performs slots left) =
    if op.target? slots = some f then (left f).headD [] else [] := by
  unfold Op.performs
  cases op.target? slots with
  | none => simp [ofCallback]
  | some g =>
    by_cases h : g = f
    · simp [ofCallback, h, List.filter_map, Function.comp_def]
    · simp [ofCallback, h]

/-- Under any schedule a callback performs its parts from the first on, each once and in order. -/
theorem ofCallback_interleave : ofCallback f (interleave slots left schedule) =
    ((left f).take (resumptions slots f schedule)).flatten := by
  induction schedule generalizing left with
  | nil => rfl
  | cons op schedule ih =>
    rw [interleave, ofCallback_append, ofCallback_performs, ih]
    unfold resumptions Op.spend
    rw [List.countP_cons]
    by_cases h : op.target? slots = some f
    · cases left f <;> simp [h]
    · simp [h]

end Interleaving

/-! ### What a run performs -/

/-- What the process is about to perform, and for whom. -/
def Process.performing? (p : Process) : Option (Origin × Op) :=
  p.thread.performs?.map fun (op, frame, _) => (frame.origin, op)

/-- What is performed in so many steps. -/
def Process.performed : Nat → Process → List (Origin × Op)
  | 0, _ => []
  | n + 1, p =>
    match Act.step p with
    | .ok _ q => p.performing?.toList ++ performed n q
    | .error .. => []

/-- The one process runs to the other and performs this in between. -/
def Process.Plays (p : Process) (log : List (Origin × Op)) (q : Process) : Prop :=
  ∃ n, p.run n = (none, q) ∧ performed n p = log

namespace Process

variable {p q r : Process} {log log' : List (Origin × Op)} {n m : Nat}

theorem performed_succ (hq : Act.step p = .ok () q) :
    performed (n + 1) p = p.performing?.toList ++ performed n q := by
  rw [performed, hq]

theorem performed_add (h : p.run n = (none, q)) :
    performed (n + m) p = performed n p ++ performed m q := by
  induction n generalizing p with
  | zero =>
    cases h
    rw [Nat.zero_add]
    rfl
  | succ n ih =>
    rw [run] at h
    split at h
    · next hs =>
      rw [Nat.add_right_comm, performed_succ hs, performed_succ hs, ih h, List.append_assoc]
    · cases h

theorem Plays.refl (p : Process) : p.Plays [] p := ⟨0, rfl, rfl⟩

theorem Plays.trans (h : p.Plays log q) (h' : q.Plays log' r) : p.Plays (log ++ log') r := by
  obtain ⟨n, hn, rfl⟩ := h
  obtain ⟨m, hm, rfl⟩ := h'
  exact ⟨n + m, (run_add hn m).trans hm, performed_add hn⟩

theorem plays_step (hq : Act.step p = .ok () q) (hlog : p.performing?.toList = log) :
    p.Plays log q :=
  ⟨1, run_succ hq, by rw [performed_succ hq, hlog, performed, List.append_nil]⟩

theorem performing_of {op : Op} {frame : Frame} {rest : List Task}
    (h : p.thread.Performs op frame rest) : p.performing? = some (frame.origin, op) := by
  obtain ⟨hcode, htodo⟩ := h
  simp [performing?, Thread.performs?, hcode, htodo]

end Process

theorem Scenario.Reaches.plays {s : Scenario} {p q : Process} {log : List (Origin × Op)}
    (h : s.Reaches p) (hq : p.Plays log q) : s.Reaches q :=
  hq.elim fun _ hrun => h.run hrun.1

end Fibers
