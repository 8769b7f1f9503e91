import Fibers.Config.Environment
import Fibers.Fiber.State
import Fibers.Memory.Stack

/-! Scripts: the programs that fibers and threads run.

A script is a list of operations, given in place or by name. Fibers are named by
the slots of the thread that runs the script; a slot keeps a handle of its fiber.
Every operation has a label, its name and its first argument, under which what it
answers is recorded. -/
namespace Fibers

/-- The first argument of an operation, when it is a text or a number. -/
inductive Subject
  | text (value : String)
  | number (value : Int)
  deriving DecidableEq, Repr

/-- How an operation is called in the trace. -/
structure Label where
  name : String
  subject : Option Subject := none
  deriving DecidableEq, Repr

/-- What a panic carries: a message or something without one. -/
inductive Payload
  | message (text : String)
  | other
  deriving DecidableEq, Repr

/-- The text that reports a panic. -/
def Payload.report : Payload → String
  | .message text => text
  | .other => "non-string payload"

/-- Where a script wants memory from: a source of its own, or a tally by name. -/
inductive Supply
  | source (source : Memory.Source)
  | tally (name : String)
  deriving DecidableEq, Repr

mutual

/-- A labelled action. -/
inductive Op
  | mk (label : Label) (action : Action)

/-- A list of operations, or the name of one. -/
inductive Script
  | inline (ops : List Op)
  | named (name : String)

inductive Action
  /-- An operation that is not known, or is not given what it needs. -/
  | nothing
  /-- Makes a fiber and puts it in a slot. A size of zero asks for the default. -/
  | create (slot : String) (callback : Script) (size : Nat) (scheduled : Bool)
      (supply : Option Supply)
  /-- Gives a terminated fiber a new callback. -/
  | reset (slot : String) (callback : Script)
  /-- The same, telling whether the stack stayed where it was. -/
  | resetInPlace (slot : String) (callback : Script)
  /-- Switches into a fiber. -/
  | resume (slot : String)
  /-- Switches out of the current fiber. -/
  | yield
  /-- Yields another fiber. -/
  | yieldOf (slot : String)
  /-- Finds the current fiber, and keeps it in a slot if one is given. -/
  | current (slot : Option String)
  /-- Puts another handle of a fiber in a slot. -/
  | clone (slot target : String)
  /-- Empties a slot. -/
  | drop (slot : String)
  /-- Moves a handle from a slot to the running code, which keeps it until it ends. -/
  | hold (slot : String)
  | state (slot : String)
  | view (slot : String)
  | inspect (slot : String)
  /-- Compares the fibers of two slots. -/
  | same (slot other : String)
  | setHub (slot : String)
  | clearHub
  /-- Finds the hub, and keeps it in a slot if one is given. -/
  | hub (slot : Option String)
  | currentId
  | panic (payload : Payload)
  /-- Marks a point of the trace. -/
  | note
  /-- Adds to a counter of the thread. -/
  | add (counter : String) (amount : Int)
  /-- Makes a configuration the process's own. -/
  | install (config : Config)
  /-- Reads the configuration from the environment. -/
  | readEnvironment
  /-- Asks for the default stack size. -/
  | stackSize
  | setEnvironment (environment : Config.Environment)
  /-- Makes a tally. -/
  | makeTally (name : String) (source : Memory.Source) (limit : Option Nat)
  /-- Reads a tally. -/
  | readTally (name : String)
  /-- Makes a stack that belongs to no fiber and keeps it under a name. -/
  | makeStack (name : String) (size : Nat) (supply : Supply)
  /-- Releases such a stack. -/
  | freeStack (name : String)
  /-- Runs a script on a thread of its own and waits for the end of it. -/
  | runThread (program : Script)
  | times (count : Nat) (body : Script)
  /-- Repeats until the fiber in a slot has terminated or the slot is empty. -/
  | untilTerm (slot : String) (body : Script)
  /-- Chooses by the state of the fiber in a slot. -/
  | whenState (slot : String) (state : Option State) (body otherwise : Script)

end

def Op.label : Op → Label
  | .mk label _ => label

def Op.action : Op → Action
  | .mk _ action => action

/-- An operation without a name, which does nothing. -/
instance : Inhabited Op := ⟨.mk ⟨"", none⟩ .nothing⟩

/-- The empty script. -/
def Script.empty : Script := .inline []

end Fibers
