import Fibers.Process.Handle

/-! Switches.

A switch puts the executing code to rest in the place of one fiber and continues the
context that rested in the place of another. `resume` leaves the code in the fiber
that was current and enters the one resumed. `yieldFiber` leaves it in the fiber
that is yielded, whether or not that is the current one, and goes back to the
thread's root. -/
namespace Fibers.Act

/-- Takes the saved context out of a fiber. -/
def takeContext (f : Nat) : Act Context := do
  let x ← fiber f
  match x.context with
  | none => violate (.noContext f)
  | some context =>
    setFiber f {x with context := none}
    return context

/-- Saves a context in a fiber. One that was there is lost. -/
def fileContext (f : Nat) (context : Context) : Act Unit := do
  let x ← fiber f
  lose x.context
  setFiber f {x with context := some context}

/-- Puts the executing code to rest in the fiber `home` and continues `target`. -/
def switchTo (target : Context) (home : Nat) : Act Unit := do
  let suspended : Context := ⟨← freshSerial, (← thread).running.code⟩
  modifyThread fun t => {t with running := target}
  fileContext home suspended

/-- A handle of the fiber against which `f` is resumed: for a fiber of a scheduler the
hub, while there is one, and otherwise the root. -/
def anchor (f : Nat) (scheduled : Bool) : Act Nat := do
  let root ← match (← thread).root with
    | some root => do retain root; pure root
    | none => currentFiber
  let hub ← if scheduled then hubFiber else pure none
  let anchor ← match hub with
    | some hub => do release root; pure hub
    | none => pure root
  ensure (anchor ≠ f) (.anchorsItself f)
  return anchor

/-- Switches into a ready fiber. -/
def resume (f : Nat) : Act Unit := do
  let x ← fiber f
  ensure (x.state = .ready) (.resumedWhile f x.state)
  let caller ← currentFiber
  let anchor ← anchor f x.scheduled
  if caller ≠ anchor then log (.foreignAnchor f caller anchor)
  release caller
  release anchor
  let target ← takeContext f
  setCurrent f
  modifyFiber f ({· with state := .running})
  log (.resuming f)
  switchTo target caller

/-- Switches out of a task fiber that has begun, back to the root. A terminated fiber
stays so. -/
def yieldFiber (f : Nat) : Act Unit := do
  let x ← fiber f
  ensure (x.state ≠ .ready) (.yieldedWhile f x.state)
  ensure (!x.isRoot) (.rootYielded f)
  match (← thread).root with
  | none => violate (.yieldedWithoutRoot f)
  | some root =>
    setCurrent root
    if x.state ≠ .term then modifyFiber f ({· with state := .ready})
    let target ← takeContext root
    log (.yielding f)
    switchTo target f

/-- Begins the callback of the current fiber: the code takes a handle of that fiber and
then runs what was installed. -/
def enter : Act Unit := do
  let f ← currentFiber
  let x ← fiber f
  match x.callback with
  | none => violate (.startedWithoutCallback f)
  | some callback =>
    setFiber f {x with callback := none}
    modifyThread (·.become (.active ⟨.callback f, [], Task.ofOps callback⟩))
    emit (.began (← status))

/-- Leaves a script: its normal end is recorded, the handles it held are released in
order, and a panic of a callback is logged. -/
def leave (origin : Origin) (held : List Nat) (outcome : Outcome) : Act Unit := do
  if outcome = .finished then emit (.ended (← status))
  modifyThread (·.become (.returned origin outcome))
  releaseAll held
  match origin, outcome with
  | .callback f, .panicked payload => log (.panicked f payload.report)
  | _, _ => return

/-- Ends a fiber's code: the fiber has terminated, the code gives up its own handle of it
and yields it for good. Where that handle was the last, the fiber is gone with its
stack, and like a root, which has none, it cannot be yielded. -/
def finish (f : Nat) : Act Unit := do
  modifyFiber f ({· with state := .term})
  modifyThread (·.become (.spent f))
  release f
  ensure ((← thread).Alive f) (.rootYielded f)
  yieldFiber f

end Fibers.Act
