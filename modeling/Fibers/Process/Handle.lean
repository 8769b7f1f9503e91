import Fibers.Process.Memory

/-! Handles and the life of a fiber.

A fiber is made with one handle and destroyed when its last one is released. Only a
terminated task fiber may go that way, and its stack goes with it. What a fiber's
place for a context still holds is lost. -/
namespace Fibers.Act

/-- A new id, counted as alive. -/
def register : Act Nat := do
  let id := (← get).nextId
  modify fun p => {p with nextId := p.nextId + 1, live := p.live + 1}
  return id

/-- Takes another handle. -/
def retain (f : Nat) : Act Unit :=
  modifyFiber f fun x => {x with handles := x.handles + 1}

/-- Takes a fiber out of its thread. -/
def bury (f : Nat) (x : Fiber) : Act Unit := do
  modifyThread fun t => {t with fibers := t.fibers.erase f}
  lose x.context

/-- The end of a fiber. -/
def destroy (f : Nat) (x : Fiber) : Act Unit := do
  log (.destroying f)
  modify fun p => {p with live := p.live - 1}
  match x.stack with
  | some stack =>
    ensure (x.state = .term) (.destroyedWhile f x.state)
    bury f x
    releaseStack stack
    log (.releasedStackOf f)
  | none =>
    ensure x.callback.isNone (.rootHoldsCallback f)
    ensure (x.state = .running) (.rootDestroyedWhile f x.state)
    bury f x

/-- Gives a handle back; with the last one the fiber is destroyed. -/
def release (f : Nat) : Act Unit := do
  let x ← fiber f
  if x.handles ≤ 1 then destroy f x
  else setFiber f {x with handles := x.handles - 1}

/-- Releases handles in order. -/
def releaseAll : List Nat → Act Unit
  | [] => return
  | f :: rest => do
    release f
    releaseAll rest

/-- Makes the root of the thread, which becomes current. Answers a handle besides the one
the thread keeps. -/
def createRoot : Act Nat := do
  let root ← register
  setFiber root .root
  log (.createdRoot root)
  setCurrent root
  retain root
  modifyThread fun t => {t with root := some root}
  return root

/-- A handle of the current fiber. The first time on a thread this makes its root. -/
def currentFiber : Act Nat := do
  match (← thread).current with
  | some f =>
    retain f
    return f
  | none => createRoot

/-- A handle of the hub, as long as it is alive. -/
def hubFiber : Act (Option Nat) := do
  match (← thread).livingHub with
  | some h =>
    retain h
    return some h
  | none => return none

/-- A fresh context for the start of a fiber. -/
def startContext (f : Nat) : Act Context :=
  return ⟨← freshSerial, .entry f⟩

/-- Makes a task fiber and answers its one handle. -/
def createFiber (callback : List Op) (size : Nat) (scheduled : Bool)
    (allocator : Memory.Allocator) : Act Nat := do
  let requested ← if size = 0 then defaultStackSize else pure size
  let size := Memory.stackSizeFor requested
  if size ≠ requested then log (.raised requested size)
  match ← allocateStack allocator size with
  | .error error => violate (.noStack error)
  | .ok stack =>
    let f ← register
    setFiber f (.task stack (← startContext f) callback scheduled)
    log (.created f size)
    return f

/-- Installs a new callback on a terminated task fiber, which keeps its stack. -/
def resetFiber (f : Nat) (callback : List Op) : Act Unit := do
  let x ← fiber f
  ensure (!x.isRoot) (.rootReset f)
  ensure (x.state = .term) (.resetWhile f x.state)
  lose x.context
  setFiber f {x with
    state := .ready, context := some (← startContext f), callback := some callback}
  log (.resetFiber f)

end Fibers.Act
