import Fibers.Proofs.Act

/-! The parts of longer actions.

What is shown of an action is shown of its parts first, for each predicate over actions anew and
for two processes at a time. Some parts are no actions of their own: what comes after a
condition, or what several operations have in common. They have names here, and the equations
(`resume_eq`, `yieldFiber_eq`, `leave_eq` and so on) put the actions together from them. -/
namespace Fibers.Act

variable {op : Op} {s : String} {f : Nat} {p : Process}

/-! ### Memory -/

/-- Settles the default stack size. -/
def settle (n : Nat) : Act Nat := do
  modify fun p => {p with stackSize := some n}
  return n

/-- The source of a stack, if it is known, takes the block back, and that is logged. -/
def giveBack (stack : Memory.Stack) (source? : Option Memory.Source) : Act Unit := do
  if let some source := source? then
    modify fun p => {p with memory := p.memory.deallocate source stack.block stack.size}
  log (.releasedStack stack.size stack.block)

theorem releaseStack_source {stack : Memory.Stack} {source : Memory.Source}
    (h : stack.allocator = .source source) : releaseStack stack = giveBack stack (some source) := by
  unfold releaseStack
  rw [h]
  rfl

theorem releaseStack_tally {stack : Memory.Stack} {serial : Nat}
    (h : stack.allocator = .tally serial) : releaseStack stack = (do
      modifyTally serial (·.recordReleased stack.size)
      giveBack stack ((← thread).tallies[serial]?.map (·.source))) := by
  unfold releaseStack
  rw [h]
  rfl

/-! ### Making a fiber -/

/-- Makes a task fiber on a stack of that size. -/
def createOn (callback : List Op) (size : Nat) (scheduled : Bool)
    (allocator : Memory.Allocator) : Act Nat := do
  match ← allocateStack allocator size with
  | .error error => violate (.noStack error)
  | .ok stack =>
    let f ← register
    setFiber f (.task stack (← startContext f) callback scheduled)
    log (.created f size)
    return f

/-- Makes a task fiber once it is known what size was asked for. -/
def createSized (callback : List Op) (requested : Nat) (scheduled : Bool)
    (allocator : Memory.Allocator) : Act Nat := do
  let size := Memory.stackSizeFor requested
  if size ≠ requested then log (.raised requested size)
  createOn callback size scheduled allocator

theorem createFiber_eq (callback : List Op) (size : Nat) (scheduled : Bool)
    (allocator : Memory.Allocator) : createFiber callback size scheduled allocator =
      (if size = 0 then defaultStackSize else pure size) >>=
        (createSized callback · scheduled allocator) := by
  unfold createFiber
  split <;> rfl

/-! ### Switches -/

/-- Answers the anchor, which is not the fiber itself. -/
def anchorTo (f anchor : Nat) : Act Nat := do
  ensure (anchor ≠ f) (.anchorsItself f)
  return anchor

/-- The hub is the anchor if there is one, and otherwise the root. -/
def chooseAnchor (f root : Nat) (hub : Option Nat) : Act Nat := do
  match hub with
  | some hub =>
    release root
    anchorTo f hub
  | none => anchorTo f root

/-- Finds the anchor with a handle of the root in hand. -/
def anchorOn (f root : Nat) (scheduled : Bool) : Act Nat := do
  chooseAnchor f root (← if scheduled then hubFiber else pure none)

theorem anchor_eq (f : Nat) (scheduled : Bool) : anchor f scheduled = (do
    match (← thread).root with
    | some root =>
      retain root
      anchorOn f root scheduled
    | none => anchorOn f (← currentFiber) scheduled) := rfl

/-- The last part of `resume`: the fiber becomes current and goes on, and the executing code
rests in the caller. -/
def switchInto (f caller : Nat) : Act Unit := do
  let target ← takeContext f
  setCurrent f
  modifyFiber f ({· with state := .running})
  log (.resuming f)
  switchTo target caller

/-- Gives back the handles that led to a switch. -/
def handBack (caller anchor : Nat) (next : Act Unit) : Act Unit := do
  release caller
  release anchor
  next

/-- The middle part of `resume`, and what comes after it. -/
def approach (f caller : Nat) (scheduled : Bool) (next : Act Unit) : Act Unit := do
  let anchor ← anchor f scheduled
  if caller ≠ anchor then log (.foreignAnchor f caller anchor)
  handBack caller anchor next

theorem resume_eq (f : Nat) : resume f = (do
    let x ← fiber f
    ensure (x.state = .ready) (.resumedWhile f x.state)
    let caller ← currentFiber
    approach f caller x.scheduled (switchInto f caller)) := rfl

/-- The last part of `yieldFiber`: the root goes on, and the executing code rests in the
fiber. -/
def switchBack (f root : Nat) : Act Unit := do
  let target ← takeContext root
  log (.yielding f)
  switchTo target f

/-- The part of `yieldFiber` that needs a root. -/
def yieldTo (f root : Nat) (state : State) : Act Unit := do
  setCurrent root
  if state ≠ .term then modifyFiber f ({· with state := .ready})
  switchBack f root

theorem yieldFiber_eq (f : Nat) : yieldFiber f = (do
    let x ← fiber f
    ensure (x.state ≠ .ready) (.yieldedWhile f x.state)
    ensure (!x.isRoot) (.rootYielded f)
    match (← thread).root with
    | none => violate (.yieldedWithoutRoot f)
    | some root => yieldTo f root x.state) := rfl

/-! ### Ends -/

/-- The last part of `leave`: the handles go, and then a panic is reported. -/
def returnFrom (origin : Origin) (held : List Nat) (outcome : Outcome) : Act Unit := do
  modifyThread (·.become (.returned origin outcome))
  releaseAll held
  match origin, outcome with
  | .callback f, .panicked payload => log (.panicked f payload.report)
  | _, _ => return

theorem leave_eq (origin : Origin) (held : List Nat) (outcome : Outcome) :
    leave origin held outcome = if outcome = .finished then do
        emit (.ended (← status))
        returnFrom origin held outcome
      else returnFrom origin held outcome := rfl

/-! ### Operations -/

/-- Acts on the fiber in a slot, or answers that there is none. -/
def throughSlot (s : String) (label : Label) (act : Nat → Act Unit) : Act Unit := do
  match ← slot? s with
  | none => answer label .absent
  | some f => act f

theorem leads_throughSlot {label : Label} {act : Nat → Act Unit} {Q : Unit → Process → Prop}
    {E : Halt → Process → Prop} (h : p.thread.slots.get? s = some f) :
    (throughSlot s label act).Leads p Q E ↔ (act f).Leads p Q E := by
  unfold throughSlot
  rw [leads_bind, leads_slot?, h]

theorem leads_throughSlot_none {label : Label} {act : Nat → Act Unit}
    {Q : Unit → Process → Prop} {E : Halt → Process → Prop} (h : p.thread.slots.get? s = none) :
    (throughSlot s label act).Leads p Q E ↔ (answer label .absent).Leads p Q E := by
  unfold throughSlot
  rw [leads_bind, leads_slot?, h]

/-- Keeps a handle of a fiber for what is to be done once control is back. -/
def holding (f : Nat) (task : Task) (next : Act Unit) : Act Unit := do
  retain f
  defer [task]
  next

/-- Yields the current fiber. -/
def yieldCurrent (label : Label) : Act Unit := do
  defer [.yielded label none]
  let f ← currentFiber
  release f
  yieldFiber f

/-- What is done once control is back from a switch that named its fiber. -/
def answerState (label : Label) (f : Nat) : Act Unit := do
  let x ← fiber f
  release f
  answer label (.state x.state)

/-- Resets a fiber and answers what it was before and after. -/
def renewal (f : Nat) (callback : List Op) : Act (Fiber × Fiber) := do
  let before ← fiber f
  resetFiber f callback
  return (before, ← fiber f)

theorem reset_eq (s : String) (script : Script) (answerOf : Fiber → Fiber → Answer) :
    reset s script answerOf = onSlot s fun f => do
      let some callback ← resolve script | return .absent
      let (before, after) ← renewal f callback
      return answerOf before after := by
  unfold reset
  refine congrArg _ (funext fun f => congrArg _ (funext fun callback? => ?_))
  cases callback? with
  | none => rfl
  | some callback => simp only [renewal, bind_assoc, pure_bind]

theorem perform_resume (h : op.action = .resume s) : perform op =
    throughSlot s op.label fun f => holding f (.resumed op.label f) (resume f) := by
  unfold perform
  rw [h]
  rfl

theorem perform_yieldOf (h : op.action = .yieldOf s) : perform op =
    throughSlot s op.label fun f => holding f (.yielded op.label f) (yieldFiber f) := by
  unfold perform
  rw [h]
  rfl

theorem perform_yield (h : op.action = .yield) : perform op = yieldCurrent op.label := by
  unfold perform
  rw [h]
  rfl

end Fibers.Act
