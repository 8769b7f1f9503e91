import Fibers.Thread
import Fibers.Proofs.Table

/-! The contexts of a thread, counted.

Every context that a thread ever had is in one of three places: it executes, it rests
in a fiber, or it is lost. A weight on contexts gives the thread the sum over all of
them. Switching moves contexts about and changes no such sum, so one law about sums
(`weigh_handOver`) serves handles, callbacks in progress and serial numbers alike. -/
namespace Fibers

/-! ### Shapes of code -/

namespace Task

/-- Not the second half of a switch. -/
def Plain : Task → Prop
  | perform _ | again .. | untilTerm .. => True
  | resumed .. | yielded .. => False

theorem Plain.handles_nil {task : Task} (h : task.Plain) : task.handles = [] := by
  cases task <;> first | rfl | cases h

theorem plain_ofOps (ops : List Op) : ∀ task ∈ ofOps ops, task.Plain := by
  intro task h
  obtain ⟨op, _, rfl⟩ := List.mem_map.mp h
  trivial

end Task

/-- The code with a task put first. -/
def Frame.push (task : Task) (frame : Frame) : Frame := {frame with todo := task :: frame.todo}

namespace Code

/-- Whose code it is. -/
def origin : Code → Origin
  | opening _ => .program
  | entry f => .callback f
  | active frame => frame.origin
  | leaving origin .. => origin
  | returned origin _ => origin
  | spent f => .callback f

/-- The fiber whose `resume` the code is inside of. -/
def awaited : Code → Option Nat
  | active ⟨_, _, .resumed _ f :: _⟩ => some f
  | _ => none

/-- The fiber whose callback the code is to begin or has yet to finish. -/
def unfinished : Code → List Nat
  | entry f => [f]
  | active frame => frame.origin.handles
  | leaving origin .. => origin.handles
  | returned origin _ => origin.handles
  | _ => []

/-- No switch to return from. -/
def Clear : Code → Prop
  | active frame => ∀ task ∈ frame.todo, task.Plain
  | spent _ => False
  | _ => True

/-- A script in progress with no switch to return from. -/
def Scripted : Code → Prop
  | active frame => ∀ task ∈ frame.todo, task.Plain
  | _ => False

/-- At most the first thing to do is to return from a switch. -/
def Tidy : Code → Prop
  | active frame => ∀ task ∈ frame.todo.tail, task.Plain
  | _ => True

/-- Code that may execute: a callback never does so to return from a `resume`, or after
its end. -/
structure Awake (code : Code) : Prop where
  tidy : code.Tidy
  awaited : code.origin ≠ .program → code.awaited = none
  spent : ∀ f, code ≠ .spent f

theorem Clear.awake {code : Code} (h : code.Clear) : code.Awake := by
  refine ⟨?_, fun _ => ?_, ?_⟩
  · cases code with
    | active frame => exact fun task ht => h task (List.mem_of_mem_tail ht)
    | _ => trivial
  · unfold Code.awaited
    split
    · exact (h _ (List.mem_cons_self ..)).elim
    · rfl
  · rintro f rfl
    exact h

end Code

theorem Task.handles_of_plain {tasks : List Task} (h : ∀ task ∈ tasks, task.Plain) :
    tasks.flatMap Task.handles = [] := by
  rw [List.flatMap_eq_nil_iff]
  exact fun task ht => (h task ht).handles_nil

namespace Code

/-- The code goes on as other code of the same kind, which keeps handles from the hand or
gives some back. -/
structure Follows (hand : List Nat) (code : Code) (rest : List Nat) (next : Code) : Prop where
  origin : next.origin = code.origin
  unfinished : next.unfinished = code.unfinished
  entry : ∀ f, next ≠ .entry f
  /-- A start goes on in a way of its own. -/
  started : ∀ f, code ≠ .entry f
  clear : next.Clear
  handles : ∀ f, next.handles.count f + rest.count f = code.handles.count f + hand.count f

variable {code : Code} {hand : List Nat}

theorem Scripted.follows_hold (h : code.Scripted) (f : Nat) :
    Follows (f :: hand) code hand (code.hold f) := by
  cases code with
  | active frame =>
    refine ⟨rfl, rfl, (fun _ he => nomatch he), (fun _ he => nomatch he), h, fun g => ?_⟩
    simp only [handles, Code.hold, List.count_append, List.count_cons, List.count_nil]
    omega
  | _ => exact h.elim

theorem Scripted.follows_before (h : code.Scripted) {tasks : List Task}
    (ht : ∀ task ∈ tasks, task.Plain) : Follows hand code hand (code.before tasks) := by
  cases code with
  | active frame =>
    refine ⟨rfl, rfl, (fun _ he => nomatch he), (fun _ he => nomatch he), fun task hmem => ?_,
      fun g => ?_⟩
    · rcases List.mem_append.mp hmem with hmem | hmem
      · exact ht task hmem
      · exact h task hmem
    · simp only [handles, before, List.flatMap_append, Task.handles_of_plain ht, List.nil_append]
  | _ => exact h.elim

theorem Scripted.follows_leave (h : code.Scripted) (outcome : Outcome) :
    Follows hand code hand (code.leave outcome) := by
  cases code with
  | active frame =>
    refine ⟨rfl, rfl, (fun _ he => nomatch he), (fun _ he => nomatch he), trivial, fun g => ?_⟩
    simp only [handles, leave, Task.handles_of_plain h, List.append_nil]
  | _ => exact h.elim

/-- The first thing to do is taken up, and the handles it keeps come to hand. -/
theorem follows_rest {frame : Frame} {task : Task} {rest : List Task}
    (htodo : frame.todo = task :: rest) (h : ∀ task ∈ rest, task.Plain) :
    Follows hand (.active frame) (task.handles ++ hand) (.active {frame with todo := rest}) := by
  refine ⟨rfl, rfl, (fun _ he => nomatch he), (fun _ he => nomatch he), h, fun g => ?_⟩
  simp only [handles, htodo, List.flatMap_cons, List.count_append]
  omega

theorem handles_active (origin : Origin) (ops : List Op) :
    (active ⟨origin, [], Task.ofOps ops⟩).handles = origin.handles := by
  simp [handles, Task.handles_of_plain (Task.plain_ofOps ops)]

theorem follows_opening (program : List Op) :
    Follows hand (.opening program) hand (.active ⟨.program, [], Task.ofOps program⟩) := by
  refine ⟨rfl, rfl, (fun _ he => nomatch he), (fun _ he => nomatch he), Task.plain_ofOps program,
    fun g => ?_⟩
  rw [handles_active]
  rfl

theorem follows_returned {origin : Origin} {held : List Nat} {outcome : Outcome} :
    Follows hand (.leaving origin held outcome) (held ++ hand) (.returned origin outcome) := by
  refine ⟨rfl, rfl, (fun _ he => nomatch he), (fun _ he => nomatch he), trivial, fun g => ?_⟩
  simp only [handles, List.count_append]
  omega

/-- Code about to return from a switch, unless a callback was to return from a `resume`. -/
theorem awake_push (frame : Frame) {task : Task} (h : ∀ task ∈ frame.todo, task.Plain)
    (ha : frame.origin ≠ .program → (active (frame.push task)).awaited = none) :
    (active (frame.push task)).Awake :=
  ⟨h, ha, fun _ h => nomatch h⟩

theorem handles_push (frame : Frame) (task : Task) (f : Nat) :
    (active (frame.push task)).handles.count f =
      task.handles.count f + (active frame).handles.count f := by
  simp only [handles, Frame.push, List.flatMap_cons, List.count_append]
  omega

end Code

/-! ### Sums over contexts -/

/-- The weight of what rests in a fiber. -/
def Fiber.weigh (w : Context → Nat) (x : Fiber) : Nat := x.context.elim 0 w

namespace Thread

/-- The sum of a weight over all the contexts of a thread. -/
def weigh (w : Context → Nat) (t : Thread) : Nat :=
  w t.running + t.fibers.total (Fiber.weigh w) + (t.lost.map w).sum

/-- Fibers, roles, slots and contexts are the same; other belongings may differ. -/
structure Like (t u : Thread) : Prop where
  fibers : ∀ f, u.fibers.get? f = t.fibers.get? f
  current : u.current = t.current
  root : u.root = t.root
  slots : u.slots = t.slots
  running : u.running = t.running
  lost : u.lost = t.lost

theorem Like.refl (t : Thread) : t.Like t := ⟨fun _ => rfl, rfl, rfl, rfl, rfl, rfl⟩

theorem Like.trans {t u v : Thread} (h : t.Like u) (h' : u.Like v) : t.Like v where
  fibers f := (h'.fibers f).trans (h.fibers f)
  current := h'.current.trans h.current
  root := h'.root.trans h.root
  slots := h'.slots.trans h.slots
  running := h'.running.trans h.running
  lost := h'.lost.trans h.lost

theorem Like.weigh {t u : Thread} (h : t.Like u) (w : Context → Nat) : u.weigh w = t.weigh w := by
  have hfibers := Table.total_congr id (Fiber.weigh w) fun f => congrArg _ (h.fibers f)
  simp only [id_eq] at hfibers
  unfold Thread.weigh
  rw [hfibers, h.running, h.lost]

def setFiber (t : Thread) (f : Nat) (x : Fiber) : Thread := {t with fibers := t.fibers.set f x}

/-- The thread without a fiber; the context that rested there is lost. -/
def bury (t : Thread) (f : Nat) (x : Fiber) : Thread :=
  {t with fibers := t.fibers.erase f, lost := x.context.toList ++ t.lost}

/-- The thread with a root, which is current. -/
def addRoot (t : Thread) (r : Nat) : Thread :=
  {t with fibers := t.fibers.set r .root, current := some r, root := some r}

theorem get?_setFiber {t : Thread} {f g : Nat} {x : Fiber} :
    (t.setFiber f x).fibers.get? g = if g = f then some x else t.fibers.get? g :=
  Table.get?_set ..

theorem get?_bury {t : Thread} {f g : Nat} {x : Fiber} :
    (t.bury f x).fibers.get? g = if g = f then none else t.fibers.get? g :=
  Table.get?_erase ..

theorem get?_addRoot {t : Thread} {f g : Nat} :
    (t.addRoot f).fibers.get? g = if g = f then some .root else t.fibers.get? g :=
  Table.get?_set ..

theorem weigh_setFiber (w : Context → Nat) (t : Thread) (f : Nat) (x : Fiber) :
    (t.setFiber f x).weigh w + (t.fibers.get? f).elim 0 (Fiber.weigh w) =
      t.weigh w + x.weigh w := by
  have h := t.fibers.total_set (Fiber.weigh w) f x
  simp only [weigh, setFiber]
  omega

theorem weigh_lost (w : Context → Nat) (context : Option Context) (lost : List Context) :
    ((context.toList ++ lost).map w).sum = context.elim 0 w + (lost.map w).sum := by
  cases context <;> simp

theorem weigh_bury (w : Context → Nat) {t : Thread} {f : Nat} {x : Fiber}
    (hx : t.fibers.get? f = some x) : (t.bury f x).weigh w = t.weigh w := by
  have h := t.fibers.total_erase (Fiber.weigh w) f
  rw [hx, Option.elim_some, Fiber.weigh] at h
  simp only [weigh, bury, weigh_lost]
  omega

/-- The executing code is put to rest in the fiber `home`, and what rested in `source`
continues. -/
def handOver (t : Thread) (source : Nat) (x : Fiber) (target : Context) (home : Nat) (y : Fiber)
    (serial : Nat) : Thread :=
  {t with
    running := target
    fibers := (t.fibers.set source {x with context := none}).set home
      {y with context := some ⟨serial, t.running.code⟩}
    lost := y.context.toList ++ t.lost}

theorem weigh_handOver (w : Context → Nat) {t : Thread} {source home serial : Nat}
    {x x' y y' : Fiber} {target : Context} (hx : t.fibers.get? source = some x)
    (hy : t.fibers.get? home = some y) (hne : home ≠ source) (ht : x.context = some target)
    (hc : y'.context = y.context) :
    (t.handOver source x' target home y' serial).weigh w + w t.running =
      t.weigh w + w ⟨serial, t.running.code⟩ := by
  have h₁ := t.fibers.total_set (Fiber.weigh w) source {x' with context := none}
  have h₂ := (t.fibers.set source {x' with context := none}).total_set (Fiber.weigh w) home
    {y' with context := some ⟨serial, t.running.code⟩}
  rw [Table.get?_set, if_neg hne] at h₂
  simp only [hx, hy, Option.elim_some, Fiber.weigh, ht, Option.elim_none] at h₁ h₂
  simp only [weigh, handOver, weigh_lost, hc]
  omega

/-! ### Handles -/

/-- How many handles of a fiber there are on a thread: in slots, as its root, and in code
wherever it is. -/
def handlesOf (f : Nat) (t : Thread) : Nat :=
  t.slots.total (fun g => [g].count f) + t.root.toList.count f +
    t.weigh (fun k => k.code.handles.count f)

theorem Like.handlesOf {t u : Thread} (h : t.Like u) (f : Nat) :
    u.handlesOf f = t.handlesOf f := by
  unfold Thread.handlesOf
  rw [h.weigh, h.slots, h.root]

end Thread
end Fibers
