import Mathlib
import Fibers.Process.Run

/-! Processes that are alike.

Two processes may do the same with fibers of other names, in other blocks of memory, with other
scheduler flags, or with callbacks that return where those of the other panic. A `Variation` says
which fibers and which scripts of the two correspond, and a pairing which block of the one stands
for which of the other; it grows as stacks are made. For one and the same variation, scripts, code,
fibers, threads, events and ends of the two processes are alike. What is alike under a pairing is so
under every larger one. -/
namespace Fibers

/-- The operations that a script stands for, given the scripts that have names. -/
def Script.ops? (scripts : List (String × List Op)) : Script → Option (List Op)
  | .inline ops => some ops
  | .named name => scripts.lookup name

/-- The action contains no script. -/
def Action.Scriptless : Action → Prop
  | .create .. | .reset .. | .resetInPlace .. | .runThread _ | .times .. | .untilTerm ..
  | .whenState .. => False
  | _ => True

/-- How the fibers and the scripts of two processes correspond. -/
structure Variation where
  /-- What the fibers of the one are called in the other. -/
  id : Nat → Nat
  injective : Function.Injective id
  /-- Which scheduler flags may stand for each other. -/
  flags : Bool → Bool → Prop
  /-- The hubs correspond too. -/
  hubs : Prop
  /-- The scripts that have names in the one, and those in the other. -/
  scripts : List (String × List Op)
  scripts' : List (String × List Op)
  /-- A callback of the other may leave off where that of the one panics. -/
  cuts : Prop
  /-- The names of scripts that leave off so. No script but a callback may be one of them. -/
  broken : String → Prop

/-! ### Scripts -/

section Scripts

variable (v : Variation)

mutual

inductive Op.Alike : Op → Op → Prop
  | mk (label : Label) {a a' : Action} (h : Action.Alike a a') :
    Op.Alike (.mk label a) (.mk label a')

inductive Action.Alike : Action → Action → Prop
  | plain {a : Action} (h : a.Scriptless) : Action.Alike a a
  | create (s : String) {c c' : Script} (size : Nat) {flag flag' : Bool} (supply : Option Supply)
    (hc : Script.Answers c c') (hflag : v.flags flag flag') :
    Action.Alike (.create s c size flag supply) (.create s c' size flag' supply)
  | reset (s : String) {c c' : Script} (hc : Script.Answers c c') :
    Action.Alike (.reset s c) (.reset s c')
  | resetInPlace (s : String) {c c' : Script} (hc : Script.Answers c c') :
    Action.Alike (.resetInPlace s c) (.resetInPlace s c')
  | runThread {c c' : Script} (hc : Script.Alike c c') : Action.Alike (.runThread c) (.runThread c')
  | times (n : Nat) {c c' : Script} (hc : Script.Alike c c') :
    Action.Alike (.times n c) (.times n c')
  | untilTerm (s : String) {c c' : Script} (hc : Script.Alike c c') :
    Action.Alike (.untilTerm s c) (.untilTerm s c')
  | whenState (s : String) (state : Option State) {c c' d d' : Script} (hc : Script.Alike c c')
    (hd : Script.Alike d d') : Action.Alike (.whenState s state c d) (.whenState s state c' d')

/-- A script that is gone through to its end. -/
inductive Script.Alike : Script → Script → Prop
  | ops {c c' : Script} {ops ops' : List Op} (h : c.ops? v.scripts = some ops)
    (h' : c'.ops? v.scripts' = some ops') (hops : List.Forall₂ Op.Alike ops ops') :
    Script.Alike c c'
  | named {name : String} (h : ¬v.broken name) : Script.Alike (.named name) (.named name)

/-- A script that is installed as a callback. -/
inductive Script.Answers : Script → Script → Prop
  | ops {c c' : Script} {ops ops' : List Op} (h : c.ops? v.scripts = some ops)
    (h' : c'.ops? v.scripts' = some ops') (hops : List.Forall₂ Op.Alike ops ops') :
    Script.Answers c c'
  | named (name : String) : Script.Answers (.named name) (.named name)
  | cut {c c' : Script} {before before' rest : List Op} {label : Label} {payload : Payload}
    (hv : v.cuts) (h : c.ops? v.scripts = some (before ++ .mk label (.panic payload) :: rest))
    (h' : c'.ops? v.scripts' = some before') (hops : List.Forall₂ Op.Alike before before') :
    Script.Answers c c'

end

/-- Two lists correspond, but the second may leave off before a panic of the first, if that is
allowed. -/
def Leaves {α : Type} (panic : α → Prop) (R : α → α → Prop) (allowed : Prop) (l l' : List α) :
    Prop :=
  List.Forall₂ R l l' ∨
    allowed ∧ ∃ before a rest, l = before ++ a :: rest ∧ panic a ∧ List.Forall₂ R before l'

/-- The operation panics. -/
def Op.Panics (op : Op) : Prop := ∃ payload, op.action = .panic payload

/-- Operations that are alike as those of a callback. -/
def Op.Leave (ops ops' : List Op) : Prop := Leaves Op.Panics (Op.Alike v) v.cuts ops ops'

/-- The scripts with names correspond. -/
structure Variation.Fit : Prop where
  callbacks : ∀ name, Option.Rel (Op.Leave v) (v.scripts.lookup name) (v.scripts'.lookup name)
  others : ∀ name, ¬v.broken name →
    Option.Rel (List.Forall₂ (Op.Alike v)) (v.scripts.lookup name) (v.scripts'.lookup name)

variable {v}

theorem Script.Alike.ops? (hv : v.Fit) {c c' : Script} (h : Script.Alike v c c') :
    Option.Rel (List.Forall₂ (Op.Alike v)) (c.ops? v.scripts) (c'.ops? v.scripts') := by
  cases h with
  | ops h h' hops =>
    rw [h, h']
    exact .some hops
  | named h => exact hv.others _ h

theorem Script.Answers.ops? (hv : v.Fit) {c c' : Script} (h : Script.Answers v c c') :
    Option.Rel (Op.Leave v) (c.ops? v.scripts) (c'.ops? v.scripts') := by
  cases h with
  | ops h h' hops =>
    rw [h, h']
    exact .some (.inl hops)
  | named name => exact hv.callbacks name
  | cut hcuts h h' hops =>
    rw [h, h']
    exact .some (.inr ⟨hcuts, _, _, _, rfl, ⟨_, rfl⟩, hops⟩)

end Scripts

/-! ### Code -/

section Code

variable (v : Variation)

def Origin.rename (v : Variation) : Origin → Origin
  | .program => .program
  | .callback f => .callback (v.id f)

inductive Task.Alike : Task → Task → Prop
  | perform {op op' : Op} (h : op.Alike v op') : Task.Alike (.perform op) (.perform op')
  | again (n : Nat) {body body' : List Op} (h : List.Forall₂ (Op.Alike v) body body') :
    Task.Alike (.again n body) (.again n body')
  | untilTerm (n : Nat) (s : String) {body body' : List Op}
    (h : List.Forall₂ (Op.Alike v) body body') :
    Task.Alike (.untilTerm n s body) (.untilTerm n s body')
  | resumed (label : Label) (f : Nat) : Task.Alike (.resumed label f) (.resumed label (v.id f))
  | yielded (label : Label) (f : Option Nat) :
    Task.Alike (.yielded label f) (.yielded label (f.map v.id))

/-- The task performs a panic. -/
def Task.Panics : Task → Prop
  | .perform op => op.Panics
  | _ => False

structure Frame.Alike (frame frame' : Frame) : Prop where
  origin : frame'.origin = frame.origin.rename v
  held : frame'.held = frame.held.map v.id
  /-- Only a callback may leave off. -/
  todo : Leaves Task.Panics (Task.Alike v) (v.cuts ∧ frame.origin ≠ .program) frame.todo frame'.todo

/-- Scripts of one origin end in the same way, but a callback of the one may have panicked that of
the other has left off. -/
inductive Outcome.Alike : Origin → Outcome → Outcome → Prop
  | same (origin : Origin) (outcome : Outcome) : Outcome.Alike origin outcome outcome
  | cut {origin : Origin} (payload : Payload) (hv : v.cuts) (ho : origin ≠ .program) :
    Outcome.Alike origin (.panicked payload) .finished

inductive Code.Alike : Code → Code → Prop
  | opening {program program' : List Op} (h : List.Forall₂ (Op.Alike v) program program') :
    Code.Alike (.opening program) (.opening program')
  | entry (f : Nat) : Code.Alike (.entry f) (.entry (v.id f))
  | active {frame frame' : Frame} (h : frame.Alike v frame') :
    Code.Alike (.active frame) (.active frame')
  | leaving (origin : Origin) (held : List Nat) {outcome outcome' : Outcome}
    (h : Outcome.Alike v origin outcome outcome') :
    Code.Alike (.leaving origin held outcome) (.leaving (origin.rename v) (held.map v.id) outcome')
  | returned (origin : Origin) {outcome outcome' : Outcome}
    (h : Outcome.Alike v origin outcome outcome') :
    Code.Alike (.returned origin outcome) (.returned (origin.rename v) outcome')
  | spent (f : Nat) : Code.Alike (.spent f) (.spent (v.id f))

structure Context.Alike (k k' : Context) : Prop where
  serial : k'.serial = k.serial
  code : k.code.Alike v k'.code

end Code

/-! ### Blocks, fibers and threads -/

/-- Blocks of the one process with those that stand for them in the other. -/
abbrev Pairing := List (Nat × Nat)

/-- No block stands for two, and none has two that stand for it. -/
def Pairing.OneToOne (w : Pairing) : Prop := ∀ x ∈ w, ∀ y ∈ w, x.1 = y.1 ↔ x.2 = y.2

/-- Every block stands for itself. -/
def Pairing.Diagonal (w : Pairing) : Prop := ∀ x ∈ w, x.2 = x.1

section Alike

variable (v : Variation) (w : Pairing)

/-- The stack may lie elsewhere. -/
structure Memory.Stack.Alike (stack stack' : Memory.Stack) : Prop where
  block : (stack.block, stack'.block) ∈ w
  size : stack'.size = stack.size
  allocator : stack'.allocator = stack.allocator

structure Fiber.Alike (x x' : Fiber) : Prop where
  state : x'.state = x.state
  stack : Option.Rel (Memory.Stack.Alike w) x.stack x'.stack
  context : Option.Rel (Context.Alike v) x.context x'.context
  callback : Option.Rel (Op.Leave v) x.callback x'.callback
  scheduled : v.flags x.scheduled x'.scheduled
  handles : x'.handles = x.handles

/-- All that a thread goes by is alike. What it has lost may be anything. -/
structure Thread.Alike (t t' : Thread) : Prop where
  fibers : ∀ f, Option.Rel (Fiber.Alike v w) (t.fibers.get? f) (t'.fibers.get? (v.id f))
  /-- There are no fibers besides. -/
  others : ∀ f', (∀ f, v.id f ≠ f') → t'.fibers.get? f' = none
  current : t'.current = t.current.map v.id
  root : t'.root = t.root.map v.id
  hub : v.hubs → t'.hub = t.hub.map v.id
  slots : ∀ s, t'.slots.get? s = (t.slots.get? s).map v.id
  counters : t'.counters = t.counters
  tallies : t'.tallies = t.tallies
  tallyNames : t'.tallyNames = t.tallyNames
  kept : ∀ name, Option.Rel (Memory.Stack.Alike w) (t.kept.get? name) (t'.kept.get? name)
  running : t.running.Alike v t'.running

structure Joiner.Alike (joiner joiner' : Joiner) : Prop where
  thread : joiner.thread.Alike v w joiner'.thread
  label : joiner'.label = joiner.label

/-! ### Events -/

structure Fiber.View.Alike (x x' : Fiber.View) : Prop where
  id : x'.id = v.id x.id
  state : x'.state = x.state
  stack : Option.Rel (Memory.Stack.Alike w) x.stack x'.stack
  scheduled : v.flags x.scheduled x'.scheduled

/-- An id that stands for none as long as it is zero. -/
def IdAlike (f f' : Nat) : Prop := f' = v.id f ∨ f = 0 ∧ f' = 0

structure Status.Alike (status status' : Status) : Prop where
  current : IdAlike v status.current status'.current
  live : status'.live = status.live

def Violation.rename : Violation → Violation
  | .noStack error => .noStack error
  | .resumedWhile f s => .resumedWhile (v.id f) s
  | .anchorsItself f => .anchorsItself (v.id f)
  | .noContext f => .noContext (v.id f)
  | .yieldedWhile f s => .yieldedWhile (v.id f) s
  | .rootYielded f => .rootYielded (v.id f)
  | .yieldedWithoutRoot f => .yieldedWithoutRoot (v.id f)
  | .rootReset f => .rootReset (v.id f)
  | .resetWhile f s => .resetWhile (v.id f) s
  | .startedWithoutCallback f => .startedWithoutCallback (v.id f)
  | .destroyedWhile f s => .destroyedWhile (v.id f) s
  | .rootHoldsCallback f => .rootHoldsCallback (v.id f)
  | .rootDestroyedWhile f s => .rootDestroyedWhile (v.id f) s

def Fault.rename : Fault → Fault
  | .destroyed f => .destroyed (v.id f)
  | .spent f => .spent (v.id f)

/-- The record with other ids. -/
def Record.rename : Record → Record
  | .created f size => .created (v.id f) size
  | .createdRoot f => .createdRoot (v.id f)
  | .resetFiber f => .resetFiber (v.id f)
  | .foreignAnchor f caller anchor => .foreignAnchor (v.id f) (v.id caller) (v.id anchor)
  | .resuming f => .resuming (v.id f)
  | .yielding f => .yielding (v.id f)
  | .panicked f report => .panicked (v.id f) report
  | .destroying f => .destroying (v.id f)
  | .releasedStackOf f => .releasedStackOf (v.id f)
  | .violated violation => .violated (violation.rename v)
  | record => record

inductive Record.Alike : Record → Record → Prop
  | renamed {record : Record} (h : ∀ size block, record ≠ .releasedStack size block) :
    Record.Alike record (record.rename v)
  | releasedStack (size : Nat) {block block' : Nat} (h : (block, block') ∈ w) :
    Record.Alike (.releasedStack size block) (.releasedStack size block')

/-- The answer names no fiber and no stack. -/
def Answer.Nameless : Answer → Prop
  | .created .. | .found .. | .view _ | .inspection _ | .id _ | .hub _ | .stack _ => False
  | _ => True

inductive Answer.Alike : Answer → Answer → Prop
  | same {a : Answer} (h : a.Nameless) : Answer.Alike a a
  | created (f : Nat) (state : State) (size : Nat) :
    Answer.Alike (.created f state size) (.created (v.id f) state size)
  | found (f : Nat) (state : State) (isRoot : Bool) :
    Answer.Alike (.found f state isRoot) (.found (v.id f) state isRoot)
  | view {x x' : Fiber.View} (h : x.Alike v w x') : Answer.Alike (.view x) (.view x')
  | inspection {x x' : Fiber.View} (h : x.Alike v w x') :
    Answer.Alike (.inspection x) (.inspection x')
  | id {f f' : Nat} (h : IdAlike v f f') : Answer.Alike (.id f) (.id f')
  | hub (f : Option Nat) : Answer.Alike (.hub f) (.hub (f.map v.id))
  | stack {stack stack' : Memory.Stack} (h : stack.Alike w stack') :
    Answer.Alike (.stack stack) (.stack stack')

inductive Event.Alike : Event → Event → Prop
  | logged {record record' : Record} (h : record.Alike v w record') :
    Event.Alike (.logged record) (.logged record')
  | began {status status' : Status} (h : status.Alike v status') :
    Event.Alike (.began status) (.began status')
  | ended {status status' : Status} (h : status.Alike v status') :
    Event.Alike (.ended status) (.ended status')
  | done {label : Label} {status status' : Status} {a a' : Answer} (h : status.Alike v status')
    (ha : a.Alike v w a') : Event.Alike (.done label status a) (.done label status' a')

inductive Halt.Alike : Halt → Halt → Prop
  | ended {status status' : Status} (h : status.Alike v status') :
    Halt.Alike (.ended status) (.ended status')
  | panicked : Halt.Alike .panicked .panicked
  | aborted (violation : Violation) :
    Halt.Alike (.aborted violation) (.aborted (violation.rename v))
  | fault (fault : Fault) : Halt.Alike (.fault fault) (.fault (fault.rename v))

end Alike

/-! ### Larger pairings -/

section Mono

variable {v : Variation} {w u : Pairing} {α : Type}

theorem rel_mono {R S : α → α → Prop} {a a' : Option α} (h : Option.Rel R a a')
    (hRS : ∀ b b', R b b' → S b b') : Option.Rel S a a' := by
  cases h with
  | some h => exact .some (hRS _ _ h)
  | none => exact .none

theorem rel_isNone {R : α → α → Prop} {a a' : Option α} (h : Option.Rel R a a') :
    a'.isNone = a.isNone := by
  cases h <;> rfl

theorem Memory.Stack.Alike.mono {stack stack' : Memory.Stack} (h : stack.Alike w stack')
    (hu : w ⊆ u) : stack.Alike u stack' :=
  ⟨hu h.block, h.size, h.allocator⟩

theorem Fiber.Alike.mono {x x' : Fiber} (h : x.Alike v w x') (hu : w ⊆ u) : x.Alike v u x' :=
  {h with stack := rel_mono h.stack fun _ _ hs => hs.mono hu}

theorem Fiber.View.Alike.mono {x x' : Fiber.View} (h : x.Alike v w x') (hu : w ⊆ u) :
    x.Alike v u x' :=
  {h with stack := rel_mono h.stack fun _ _ hs => hs.mono hu}

theorem Record.Alike.mono {record record' : Record} (h : record.Alike v w record') (hu : w ⊆ u) :
    record.Alike v u record' := by
  cases h with
  | renamed h => exact .renamed h
  | releasedStack size h => exact .releasedStack size (hu h)

theorem Answer.Alike.mono {a a' : Answer} (h : a.Alike v w a') (hu : w ⊆ u) : a.Alike v u a' := by
  cases h with
  | same h => exact .same h
  | created => exact .created ..
  | found => exact .found ..
  | view h => exact .view (h.mono hu)
  | inspection h => exact .inspection (h.mono hu)
  | id h => exact .id h
  | hub => exact .hub _
  | stack h => exact .stack (h.mono hu)

theorem Event.Alike.mono {event event' : Event} (h : event.Alike v w event') (hu : w ⊆ u) :
    event.Alike v u event' := by
  cases h with
  | logged h => exact .logged (h.mono hu)
  | began h => exact .began h
  | ended h => exact .ended h
  | done h ha => exact .done h (ha.mono hu)

theorem Thread.Alike.mono {t t' : Thread} (h : t.Alike v w t') (hu : w ⊆ u) : t.Alike v u t' :=
  {h with
    fibers := fun f => rel_mono (h.fibers f) fun _ _ hx => hx.mono hu
    kept := fun name => rel_mono (h.kept name) fun _ _ hs => hs.mono hu}

theorem Joiner.Alike.mono {joiner joiner' : Joiner} (h : joiner.Alike v w joiner') (hu : w ⊆ u) :
    joiner.Alike v u joiner' :=
  ⟨h.thread.mono hu, h.label⟩

/-- Records that are alike have the same level. -/
theorem Record.Alike.level {record record' : Record} (h : record.Alike v w record') :
    record'.level = record.level := by
  cases h with
  | @renamed record => cases record <;> rfl
  | releasedStack => rfl

end Mono
end Fibers
