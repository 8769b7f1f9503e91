import Fibers.Fiber
import Fibers.Record

/-! The trace of a process.

A trace is a list of events: records that were logged, the start and the normal end
of a script, and operations that returned, each with what it answered. -/
namespace Fibers

/-- What an operation answers. -/
inductive Answer
  /-- The operation found nothing to work on. -/
  | absent
  | nothing
  | state (state : State)
  | created (id : Nat) (state : State) (stackSize : Nat)
  | found (id : Nat) (state : State) (isRoot : Bool)
  | view (view : Fiber.View)
  | inspection (view : Fiber.View)
  | truth (value : Bool)
  | id (fiber : Nat)
  | hub (fiber : Option Nat)
  | count (value : Int)
  | installed
  | config (config : Config)
  | size (size : Nat)
  | tally (allocated released : List Nat)
  | stack (stack : Memory.Stack)
  | failed (error : Error)
  | joined (outcome : Outcome)
  deriving DecidableEq, Repr

/-- The current fiber's id, zero before there is one, and the number of live fibers. -/
structure Status where
  current : Nat
  live : Nat
  deriving DecidableEq, Repr

inductive Event
  | logged (record : Record)
  | began (status : Status)
  | ended (status : Status)
  | done (label : Label) (status : Status) (answer : Answer)
  deriving DecidableEq, Repr

end Fibers
