import Fibers.Process.Switch

/-! Slots and the operations on what they name.

An operation that names a slot works on the fiber whose handle is there, and answers
that it found nothing when the slot is empty. A handle put in a slot replaces the one
that was there, which is released afterwards. -/
namespace Fibers.Act

/-- The fiber in a slot. -/
def slot? (s : String) : Act (Option Nat) :=
  return (← thread).slots.get? s

/-- Puts a handle in a slot and releases the one it replaces. -/
def putSlot (s : String) (f : Nat) : Act Unit := do
  let replaced ← slot? s
  modifyThread fun t => {t with slots := t.slots.set s f}
  if let some g := replaced then release g

/-- Takes the handle out of a slot. -/
def emptySlot (s : String) : Act Unit :=
  modifyThread fun t => {t with slots := t.slots.erase s}

/-- Puts a handle in the slot, if one is given, or gives it back. -/
def keepOrRelease (s : Option String) (f : Nat) : Act Unit :=
  match s with
  | some s => putSlot s f
  | none => release f

/-- Answers through the fiber in a slot. -/
def onSlot (s : String) (act : Nat → Act Answer) : Act Answer := do
  match ← slot? s with
  | some f => act f
  | none => return .absent

/-- Makes a fiber and puts it in a slot. What is answered was seen before that. -/
def create (s : String) (callback : Script) (size : Nat) (scheduled : Bool)
    (supply : Option Supply) : Act Answer := do
  let some callback ← resolve callback | return .absent
  let some allocator ← allocator? (supply.getD (.source .heap)) | return .absent
  let f ← createFiber callback size scheduled allocator
  let x ← fiber f
  let a := Answer.created f x.state (x.stack.elim 0 (·.size))
  putSlot s f
  return a

/-- Resets the fiber in a slot and answers from what it was before and after. -/
def reset (s : String) (callback : Script) (answerOf : (before after : Fiber) → Answer) :
    Act Answer :=
  onSlot s fun f => do
    let some callback ← resolve callback | return .absent
    let before ← fiber f
    resetFiber f callback
    return answerOf before (← fiber f)

/-- Finds the current fiber. -/
def findCurrent (s : Option String) : Act Answer := do
  let f ← currentFiber
  let x ← fiber f
  keepOrRelease s f
  return .found f x.state x.isRoot

/-- Finds the hub. Without one the slot is left as it is. -/
def findHub (s : Option String) : Act Answer := do
  let hub ← hubFiber
  if let some h := hub then keepOrRelease s h
  return .hub hub

/-- Registers a hub, or none. A registration keeps nothing alive. -/
def setHub (hub : Option Nat) : Act Answer := do
  modifyThread fun t => {t with hub}
  return .nothing

/-- Puts another handle of the fiber in one slot into another. -/
def clone (s target : String) : Act Answer :=
  onSlot s fun f => do
    retain f
    putSlot target f
    return .nothing

/-- Empties a slot and gives its handle back. -/
def drop (s : String) : Act Answer :=
  onSlot s fun f => do
    emptySlot s
    release f
    return .nothing

/-- Moves the handle in a slot to the executing code. -/
def hold (s : String) : Act Answer :=
  onSlot s fun f => do
    emptySlot s
    modifyThread fun t => t.become (t.running.code.hold f)
    return .nothing

end Fibers.Act
