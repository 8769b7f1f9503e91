import Fibers.Proofs.Operations

/-! Edits: what actions change, field by field.

Until an operation records what it answered, all it does to a process is a sequence of single
edits: a record logged, a part of the thread replaced, a fiber changed, made or destroyed. A fiber
comes and goes together with the record that says so, memory is granted and taken back only with a
stack that comes or goes, and the tally of a stack records it then. `act.Edits kind p` says so of
an action, also of what it leaves where it halts. So what no edit touches no operation touches, and
the books are right after every operation if they are after every edit. -/
namespace Fibers

/-- Not a log record. -/
def Event.isReport : Event → Bool
  | .logged _ => false
  | _ => true

/-- The fiber that a record says was made. -/
def Record.born? : Record → Option Nat
  | .created f _ | .createdRoot f => some f
  | _ => none

/-- The fiber that a record says goes. -/
def Record.gone? : Record → Option Nat
  | .destroying f => some f
  | _ => none

/-- The record tells that a fiber comes or goes. -/
def Record.vital (record : Record) : Bool := record.born?.isSome || record.gone?.isSome

/-- The source behind an allocator, which a tally passes requests on to. -/
def Memory.Allocator.source? (tallies : List Tally) : Allocator → Option Source
  | .source origin => some origin
  | .tally serial => tallies[serial]?.map (·.source)

namespace Thread

/-- The thread once the tally that a stack belongs to, if it is one, has recorded its size. -/
def book (record : Memory.Tally → Nat → Memory.Tally) (t : Thread) (stack : Memory.Stack) :
    Thread :=
  match stack.allocator with
  | .source _ => t
  | .tally serial => {t with tallies := t.tallies.modify serial (record · stack.size)}

/-- Fibers, tallies and kept stacks are the same. -/
structure Beside (t u : Thread) : Prop where
  fibers : u.fibers = t.fibers
  kept : u.kept = t.kept
  tallies : u.tallies = t.tallies

/-- Nothing but the tallies is changed by what they record. -/
theorem book_eq (record : Memory.Tally → Nat → Memory.Tally) (t : Thread) (stack : Memory.Stack) :
    ∃ tallies, t.book record stack = {t with tallies} := by
  unfold book
  split <;> exact ⟨_, rfl⟩

end Thread

namespace Process

/-- What was recorded besides the log, latest first. -/
def reports (p : Process) : List Event := p.trace.filter Event.isReport

/-- The memory of a process once a stack has gone back to where it came from. -/
def reclaim (p : Process) (stack : Memory.Stack) : Memory.System :=
  match stack.allocator.source? p.thread.tallies with
  | some source => p.memory.deallocate source stack.block stack.size
  | none => p.memory

/-- A stack has come from its allocator. -/
inductive Allocates (p : Process) (stack : Memory.Stack) : Process → Prop
  | intro {source : Memory.Source} {memory : Memory.System}
    (hsource : stack.allocator.source? p.thread.tallies = some source)
    (hmemory : p.memory.allocate source stack.size = .ok (stack.block, memory)) :
    Allocates p stack {p with memory, thread := p.thread.book Memory.Tally.recordAllocated stack}

/-- The process once a stack has gone back to its allocator. -/
def recover (p : Process) (stack : Memory.Stack) : Process :=
  {p with memory := p.reclaim stack, thread := p.thread.book Memory.Tally.recordReleased stack}

/-- A fiber is counted out, which is the first thing that happens when it goes. -/
def countOut (p : Process) (f : Nat) : Process :=
  {p with live := p.live - 1, trace := Act.logged p (.destroying f)}

/-- The process with a new task fiber on a stack that was just allocated. -/
def addTask (p : Process) (stack : Memory.Stack) (callback : List Op) (scheduled : Bool) :
    Process :=
  {p with
    nextId := p.nextId + 1
    live := p.live + 1
    nextSerial := p.nextSerial + 1
    trace := Act.logged p (.created p.nextId stack.size)
    thread := p.thread.setFiber p.nextId
      (.task stack ⟨p.nextSerial, .entry p.nextId⟩ callback scheduled)}

/-- What sort of actions make an edit, by what they may bring about besides. -/
inductive Kind
  /-- Nothing comes. -/
  | plain
  /-- The root of the thread may come. -/
  | usual
  /-- A stack of the scripts' own comes. -/
  | keeping
  /-- A stack of the scripts' own goes. -/
  | freeing
  /-- A task fiber comes. -/
  | making
  deriving DecidableEq

inductive Edit (kind : Kind) (p : Process) : Process → Prop
  | log {record : Record} (h : record.vital = false) :
    Edit kind p {p with trace := .logged record :: p.trace}
  | environment (environment : Config.Environment) : Edit kind p {p with environment}
  | stackSize (stackSize : Option Nat) : Edit kind p {p with stackSize}
  | serial : Edit kind p {p with nextSerial := p.nextSerial + 1}
  /-- The root and the hub stay, and some fiber is current if one was. -/
  | thread {t : Thread} (ht : p.thread.Beside t) (hroot : t.root = p.thread.root)
    (hhub : t.hub = p.thread.hub) (hcurrent : p.thread.current ≠ none → t.current ≠ none) :
    Edit kind p {p with thread := t}
  /-- A fiber of the thread becomes the hub, or none is it any more. -/
  | hub {hub : Option Nat} (hhub : ∀ h, hub = some h → ∃ x, p.thread.fibers.get? h = some x) :
    Edit kind p {p with thread := {p.thread with hub}}
  | tally (name : String) (source : Memory.Source) (limit : Option Nat) :
    Edit kind p {p with thread := {p.thread with
      tallies := p.thread.tallies ++ [{source, limit}]
      tallyNames := p.thread.tallyNames.set name p.thread.tallies.length}}
  | fiber {f : Nat} {x y : Fiber} (hx : p.thread.fibers.get? f = some x)
    (hstack : y.stack = x.stack) : Edit kind p {p with thread := p.thread.setFiber f y}
  /-- The root comes, with a handle for the thread and one for whoever asked for it. -/
  | root (hk : kind = .usual) (hcurrent : p.thread.current = none) : Edit kind p {p with
      nextId := p.nextId + 1
      live := p.live + 1
      trace := Act.logged p (.createdRoot p.nextId)
      thread := (p.thread.addRoot p.nextId).setFiber p.nextId {Fiber.root with handles := 2}}
  | task {q : Process} {stack : Memory.Stack} (callback : List Op) (scheduled : Bool)
    (hk : kind = .making) (hsize : Memory.minStackSize ≤ stack.size) (hq : p.Allocates stack q) :
    Edit kind p (q.addTask stack callback scheduled)
  | destroyRoot {f : Nat} {x : Fiber} (hx : p.thread.fibers.get? f = some x)
    (hstack : x.stack = none) : Edit kind p {p.countOut f with thread := p.thread.bury f x}
  | destroyTask {f : Nat} {x : Fiber} {stack : Memory.Stack}
    (hx : p.thread.fibers.get? f = some x) (hstack : x.stack = some stack)
    (hterm : x.state = .term) :
    Edit kind p (recover {p.countOut f with thread := p.thread.bury f x} stack)
  /-- A stack of its own for the scripts. -/
  | keep {q : Process} {name : String} {stack : Memory.Stack} (hk : kind = .keeping)
    (hq : p.Allocates stack q) (hname : q.thread.kept.get? name = none) :
    Edit kind p {q with thread := {q.thread with kept := q.thread.kept.set name stack}}
  | replace {q : Process} {name : String} {stack other : Memory.Stack} (hk : kind = .keeping)
    (hq : p.Allocates stack q) (hname : q.thread.kept.get? name = some other) :
    Edit kind p (recover
      {q with thread := {q.thread with kept := q.thread.kept.set name stack}} other)
  | free {name : String} {stack : Memory.Stack} (hk : kind = .freeing)
    (hname : p.thread.kept.get? name = some stack) :
    Edit kind p (recover {p with thread := {p.thread with kept := p.thread.kept.erase name}} stack)

/-- Edits lead from the one process to the other. -/
def Edited (kind : Kind) (p q : Process) : Prop := Relation.ReflTransGen (Edit kind) p q

/-- A fiber was counted out that may not go, which is logged. -/
inductive Stuck (p : Process) : Process → Prop
  | intro {f : Nat} {x : Fiber} (v : Violation) (hx : p.thread.fibers.get? f = some x) :
    Stuck p {p.countOut f with trace := Act.logged (p.countOut f) (.violated v)}

/-- What an action leaves where it halts: edits were made, and after them perhaps a fiber was
counted out that may not go. Only the making of a task fiber halts over a missing stack. -/
structure Breaks (kind : Kind) (p : Process) (halt : Halt) (q : Process) : Prop where
  left : p.Edited kind q ∨ ∃ r, p.Edited kind r ∧ r.Stuck q
  starved : ∀ error, halt = .aborted (.noStack error) → kind = .making

/-- Nothing but the default stack size and the log has changed. -/
structure Sizes (p q : Process) : Prop where
  same : ∃ stackSize trace, q = {p with stackSize, trace}
  edited : ∀ kind, p.Edited kind q

/-- The default stack size, as it is or would be resolved. -/
def defaultSize (p : Process) : Nat :=
  match p.stackSize with
  | some n => n
  | none =>
    match Config.ofEnvironment p.environment with
    | .ok config => config.stackSize
    | .error _ => Config.default.stackSize

/-- The size that a request for a stack is for. -/
def requested (p : Process) (size : Nat) : Nat := if size = 0 then p.defaultSize else size

/-- A task fiber has been made, on one stack of the size requested or of the least one. -/
inductive Makes (p : Process) (callback : List Op) (size : Nat) (scheduled : Bool)
    (allocator : Memory.Allocator) (stack : Memory.Stack) : Process → Prop
  | intro {p₀ q : Process} (hp : p.Sizes p₀) (hq : p₀.Allocates stack q)
    (hallocator : stack.allocator = allocator)
    (hsize : stack.size = Memory.stackSizeFor (p.requested size)) :
    Makes p callback size scheduled allocator stack (q.addTask stack callback scheduled)

/-- There was no stack for a task fiber, and nothing has come of it. -/
inductive Starves (p : Process) : Halt → Process → Prop
  | intro {p₀ : Process} {error : Error} (hp : p.Sizes p₀) :
    Starves p (.aborted (.noStack error))
      {p₀ with trace := Act.logged p₀ (.violated (.noStack error))}

/-- What becomes of an allocation: a stack for the request, or an error and no change. -/
def Allocated (p : Process) (allocator : Memory.Allocator) (size : Nat) :
    Except Error Memory.Stack → Process → Prop
  | .ok stack, q => p.Allocates stack q ∧ stack.allocator = allocator ∧ stack.size = size
  | .error _, q => q = p

variable {p q r : Process} {kind : Kind} {halt : Halt}

theorem Edited.refl (p : Process) : p.Edited kind p := Relation.ReflTransGen.refl

theorem Edited.trans (h : p.Edited kind q) (h' : q.Edited kind r) : p.Edited kind r :=
  Relation.ReflTransGen.trans h h'

theorem Edit.edited (h : p.Edit kind q) : p.Edited kind q := .single h

theorem Breaks.after (h : q.Breaks kind halt r) (hq : p.Edited kind q) : p.Breaks kind halt r where
  left := h.left.imp hq.trans fun ⟨r', hr, h⟩ => ⟨r', hq.trans hr, h⟩
  starved := h.starved

theorem edited_logged {record : Record} (h : record.vital = false) :
    p.Edited kind {p with trace := Act.logged p record} := by
  unfold Act.logged
  split
  · exact (Edit.log h).edited
  · exact .refl p

theorem Sizes.refl (p : Process) : p.Sizes p := ⟨⟨_, _, rfl⟩, fun _ => .refl p⟩

theorem Sizes.logged {q : Process} {record : Record} (h : p.Sizes q) (hr : record.vital = false) :
    p.Sizes {q with trace := Act.logged q record} := by
  obtain ⟨⟨stackSize, trace, rfl⟩, hedited⟩ := h
  exact ⟨⟨_, _, rfl⟩, fun kind => (hedited kind).trans (edited_logged hr)⟩

/-- What operations answered so far, latest first. -/
def answers (p : Process) : List (Label × Answer) :=
  p.trace.filterMap fun
    | .done label _ a => some (label, a)
    | _ => none

/-! ### What no edit touches -/

/-- The process but for its thread and its numbers. -/
structure Spares (p q : Process) : Prop where
  level : q.level = p.level
  joining : q.joining = p.joining
  ended : q.ended = p.ended
  scripts : q.scripts = p.scripts
  /-- Records were logged. -/
  trace : ∃ records, q.trace = List.map .logged records ++ p.trace

theorem Spares.trans (h : p.Spares q) (h' : q.Spares r) : p.Spares r where
  level := h'.level.trans h.level
  joining := h'.joining.trans h.joining
  ended := h'.ended.trans h.ended
  scripts := h'.scripts.trans h.scripts
  trace := by
    obtain ⟨records, hq⟩ := h.trace
    obtain ⟨records', hr⟩ := h'.trace
    exact ⟨records' ++ records, by rw [hr, hq, List.map_append, List.append_assoc]⟩

theorem spares_of_same (hlevel : q.level = p.level) (hjoining : q.joining = p.joining)
    (hended : q.ended = p.ended) (hscripts : q.scripts = p.scripts) (htrace : q.trace = p.trace) :
    p.Spares q :=
  ⟨hlevel, hjoining, hended, hscripts, [], htrace⟩

theorem spares_logged (record : Record) (hlevel : q.level = p.level)
    (hjoining : q.joining = p.joining) (hended : q.ended = p.ended)
    (hscripts : q.scripts = p.scripts) (htrace : q.trace = Act.logged p record) : p.Spares q := by
  refine ⟨hlevel, hjoining, hended, hscripts, ?_⟩
  rw [htrace, Act.logged]
  split
  · exact ⟨[record], rfl⟩
  · exact ⟨[], rfl⟩

/-- Records are no reports. -/
theorem Spares.reports (h : p.Spares q) : q.reports = p.reports := by
  obtain ⟨records, htrace⟩ := h.trace
  have hnone : (records.map Event.logged).filter Event.isReport = [] := by
    simp [List.filter_eq_nil_iff, Event.isReport]
  rw [Process.reports, htrace, List.filter_append, hnone, List.nil_append, Process.reports]

/-- Nor are they answers. -/
theorem Spares.answers (h : p.Spares q) : q.answers = p.answers := by
  obtain ⟨records, htrace⟩ := h.trace
  rw [Process.answers, htrace, List.filterMap_append, List.filterMap_map, Process.answers]
  conv_rhs => rw [← List.nil_append (List.filterMap _ _)]
  congr 1
  exact List.filterMap_eq_nil_iff.mpr fun _ _ => rfl

theorem Allocates.spares {stack : Memory.Stack} (h : p.Allocates stack q) : p.Spares q := by
  obtain ⟨-, -⟩ := h
  exact spares_of_same rfl rfl rfl rfl rfl

theorem countOut_spares (p : Process) (f : Nat) : p.Spares (p.countOut f) :=
  spares_logged _ rfl rfl rfl rfl rfl

theorem Edit.spares (h : p.Edit kind q) : p.Spares q := by
  cases h with
  | log => exact ⟨rfl, rfl, rfl, rfl, [_], rfl⟩
  | root => exact spares_logged _ rfl rfl rfl rfl rfl
  | task _ _ _ _ hq => exact hq.spares.trans (spares_logged _ rfl rfl rfl rfl rfl)
  | @destroyRoot f => exact (countOut_spares p f).trans (spares_of_same rfl rfl rfl rfl rfl)
  | @destroyTask f => exact (countOut_spares p f).trans (spares_of_same rfl rfl rfl rfl rfl)
  | keep _ hq => exact hq.spares.trans (spares_of_same rfl rfl rfl rfl rfl)
  | replace _ hq => exact hq.spares.trans (spares_of_same rfl rfl rfl rfl rfl)
  | _ => exact spares_of_same rfl rfl rfl rfl rfl

theorem Edited.spares (h : p.Edited kind q) : p.Spares q := by
  induction h with
  | refl => exact spares_of_same rfl rfl rfl rfl rfl
  | tail _ h ih => exact ih.trans h.spares

theorem Stuck.spares (h : p.Stuck q) : p.Spares q := by
  obtain @⟨f, -, v, -⟩ := h
  have hlogged : (p.countOut f).Spares
      {p.countOut f with trace := Act.logged (p.countOut f) (.violated v)} :=
    spares_logged (.violated v) rfl rfl rfl rfl rfl
  exact (countOut_spares p f).trans hlogged

theorem Breaks.spares (h : p.Breaks kind halt q) : p.Spares q := by
  rcases h.left with h | ⟨r, h, h'⟩
  · exact h.spares
  · exact h.spares.trans h'.spares

theorem Edited.answers (h : p.Edited kind q) : q.answers = p.answers := h.spares.answers

end Process

namespace Act
open Process

variable {α β : Type} {p : Process} {kind : Kind}

/-- The action only edits, also where it halts. -/
def Edits (kind : Kind) (act : Act α) (p : Process) : Prop :=
  act.Leads p (fun _ q => p.Edited kind q) (p.Breaks kind)

/-! ### Rules -/

theorem Edits.pure (a : α) : (Pure.pure a : Act α).Edits kind p := Edited.refl p

theorem Edits.after {act : Act α} {q : Process} (h : act.Edits kind q) (hq : p.Edited kind q) :
    act.Leads q (fun _ r => p.Edited kind r) (p.Breaks kind) :=
  h.mono (fun _ _ hr => hq.trans hr) fun _ _ hr => hr.after hq

theorem Edits.bind {act : Act α} {k : α → Act β} (h : act.Edits kind p)
    (hk : ∀ a q, p.Edited kind q → (k a).Edits kind q) : (act >>= k).Edits kind p :=
  Leads.bind h fun a q hq => (hk a q hq).after hq

/-- What only looks something up. -/
theorem Edits.read {act : Act α} {a : α} {k : α → Act β} (h : act p = .ok a p)
    (hk : (k a).Edits kind p) : (act >>= k).Edits kind p :=
  (leads_bind_ok h).mpr hk

theorem Edits.ite_then {rule : Prop} [Decidable rule] {act : Act Unit} {k : Unit → Act β}
    (h : act.Edits kind p) (hk : ∀ q, (k ()).Edits kind q) :
    (if rule then act >>= k else k ()).Edits kind p := by
  split
  · exact h.bind fun _ q _ => hk q
  · exact hk p

theorem edits_modify {f : Process → Process} (h : p.Edit kind (f p)) :
    (modify f : Act Unit).Edits kind p :=
  leads_modify.mpr h.edited

theorem edits_modifyThread {f : Thread → Thread} (hfibers : (f p.thread).fibers = p.thread.fibers)
    (hkept : (f p.thread).kept = p.thread.kept)
    (htallies : (f p.thread).tallies = p.thread.tallies)
    (hroot : (f p.thread).root = p.thread.root) (hhub : (f p.thread).hub = p.thread.hub)
    (hcurrent : p.thread.current ≠ none → (f p.thread).current ≠ none) :
    (modifyThread f).Edits kind p :=
  leads_modifyThread.mpr (Edit.thread ⟨hfibers, hkept, htallies⟩ hroot hhub hcurrent).edited

theorem edits_log {record : Record} (h : record.vital = false) : (log record).Edits kind p :=
  leads_log.mpr (edited_logged h)

theorem breaks_violated {q : Process} {v : Violation} (hq : p.Edited kind q)
    (hv : ∀ error, v = .noStack error → kind = .making) :
    p.Breaks kind (.aborted v) {q with trace := logged q (.violated v)} where
  left := .inl (hq.trans (edited_logged rfl))
  starved error h := by
    cases h
    exact hv error rfl

theorem edits_violate {v : Violation} (hv : ∀ error, v = .noStack error → kind = .making) :
    (violate v : Act α).Edits kind p :=
  leads_violate.mpr (breaks_violated (.refl p) hv)

theorem edits_ensure (rule : Prop) [Decidable rule] {v : Violation}
    (hv : ∀ error, v = .noStack error → kind = .making) : (ensure rule v).Edits kind p :=
  leads_ensure.mpr ⟨fun _ => .refl p, fun _ => breaks_violated (.refl p) hv⟩

theorem edits_fiber {f : Nat} {k : Fiber → Act β}
    (hk : ∀ x, p.thread.fibers.get? f = some x → (k x).Edits kind p) :
    (fiber f >>= k).Edits kind p :=
  leads_bind.mpr (leads_fiber_of hk ⟨.inl (.refl p), fun _ h => nomatch h⟩)

theorem edits_setFiber {f : Nat} {x y : Fiber} (hx : p.thread.fibers.get? f = some x)
    (hstack : y.stack = x.stack) : (setFiber f y).Edits kind p :=
  leads_setFiber.mpr (Edit.fiber hx hstack).edited

theorem edits_modifyFiber (f : Nat) {g : Fiber → Fiber} (hstack : ∀ x, (g x).stack = x.stack) :
    (modifyFiber f g).Edits kind p :=
  edits_fiber fun x hx => edits_setFiber hx (hstack x)

theorem edits_retain (f : Nat) : (retain f).Edits kind p := edits_modifyFiber f fun _ => rfl

theorem edits_freshSerial : freshSerial.Edits kind p := by
  simp only [Edits, freshSerial, leads_bind, leads_get, leads_modify, leads_pure]
  exact Edit.serial.edited

theorem edits_status : status.Edits kind p := by
  refine Edits.read rfl ?_
  cases p.thread.current with
  | none => exact Edits.read rfl (Edits.read rfl (.pure _))
  | some f => exact edits_fiber fun _ _ => Edits.read rfl (Edits.read rfl (.pure _))

theorem edits_setCurrent (f : Nat) : (setCurrent (some f)).Edits kind p :=
  edits_modifyThread rfl rfl rfl rfl rfl fun _ => Option.some_ne_none f

theorem edited_lost (lost : List Context) :
    p.Edited kind {p with thread := {p.thread with lost := lost}} :=
  (Edit.thread (p := p) (t := {p.thread with lost := lost}) ⟨rfl, rfl, rfl⟩ rfl rfl id).edited

/-! ### Handles -/

/-- The source of a stack, if there is one, takes the block back, and that is logged. -/
theorem giveBack_recovers (p : Process) (stack : Memory.Stack) {t : Thread}
    (source? : Option Memory.Source) (ht : p.thread.book Memory.Tally.recordReleased stack = t)
    (hsource : stack.allocator.source? p.thread.tallies = source?) {E : Halt → Process → Prop} :
    (giveBack stack source?).Leads {p with thread := t}
      (fun _ q => (p.recover stack).Edited kind q) E := by
  unfold recover reclaim
  rw [ht, hsource]
  cases source? with
  | none => exact leads_log.mpr (edited_logged rfl)
  | some source => exact leads_bind.mpr (leads_modify.mpr (leads_log.mpr (edited_logged rfl)))

/-- A stack goes back. -/
theorem releaseStack_recovers (kind : Kind) (stack : Memory.Stack) {E : Halt → Process → Prop} :
    (releaseStack stack).Leads p (fun _ q => (p.recover stack).Edited kind q) E := by
  cases hallocator : stack.allocator with
  | source source =>
    rw [releaseStack_source hallocator]
    refine giveBack_recovers p stack (some source) ?_ ?_
    · rw [Thread.book, hallocator]
    · rw [hallocator]
      rfl
  | tally serial =>
    rw [releaseStack_tally hallocator]
    refine leads_bind.mpr (leads_modifyThread.mpr ((leads_bind_ok rfl).mpr ?_))
    refine giveBack_recovers p stack _ (by rw [Thread.book, hallocator]) ?_
    rw [hallocator]
    simp only [Memory.Allocator.source?, List.getElem?_modify]
    cases p.thread.tallies[serial]? <;> simp [Memory.Tally.recordReleased]

theorem edits_destroy {f : Nat} {x : Fiber} (hx : p.thread.fibers.get? f = some x) :
    (destroy f x).Edits kind p := by
  have hstuck (v : Violation) (hv : ∀ error, v ≠ .noStack error) : p.Breaks kind (.aborted v)
      {p.countOut f with trace := logged (p.countOut f) (.violated v)} :=
    ⟨.inr ⟨p, .refl p, .intro v hx⟩, fun error h => (hv error (Halt.aborted.inj h)).elim⟩
  unfold destroy bury lose
  refine leads_bind.mpr (leads_log.mpr (leads_bind.mpr (leads_modify.mpr ?_)))
  -- The fiber is counted out before it is known whether it may go.
  split
  · next stack hstack =>
    refine leads_bind.mpr (leads_ensure.mpr ⟨fun hterm => ?_, fun _ => hstuck _ (by simp)⟩)
    simp only [leads_bind, leads_modifyThread]
    refine Leads.mono (releaseStack_recovers kind stack) (fun _ r hr => ?_) fun _ _ h => h
    exact leads_log.mpr ((Edit.destroyTask hx hstack hterm).edited.trans
      (hr.trans (edited_logged rfl)))
  · next hstack =>
    refine leads_bind.mpr (leads_ensure.mpr ⟨fun _ => ?_, fun _ => hstuck _ (by simp)⟩)
    refine leads_bind.mpr (leads_ensure.mpr ⟨fun _ => ?_, fun _ => hstuck _ (by simp)⟩)
    exact leads_bind.mpr (leads_modifyThread.mpr (leads_modifyThread.mpr
      (Edit.destroyRoot hx hstack).edited))

theorem edits_release (f : Nat) : (release f).Edits kind p := by
  apply edits_fiber
  intro x hx
  split
  · exact edits_destroy hx
  · exact edits_setFiber hx rfl

theorem edits_releaseAll (fs : List Nat) : (releaseAll fs).Edits kind p := by
  induction fs generalizing p with
  | nil => exact .pure _
  | cons f rest ih => exact (edits_release f).bind fun _ _ _ => ih

/-! ### Fibers come -/

theorem edits_createRoot (hcurrent : p.thread.current = none) : createRoot.Edits .usual p := by
  have hregister : register p = .ok p.nextId {p with
      nextId := p.nextId + 1, live := p.live + 1} := rfl
  unfold createRoot retain setCurrent
  refine (leads_bind_ok hregister).mpr (leads_bind.mpr (leads_setFiber.mpr ?_))
  refine leads_bind.mpr (leads_log.mpr (leads_bind.mpr (leads_modifyThread.mpr ?_)))
  refine leads_bind.mpr ((leads_modifyFiber (x := .root) ?_).mpr ?_)
  · simp only [Table.get?_set, if_true]
  · exact leads_bind.mpr (leads_modifyThread.mpr (Edit.root rfl hcurrent).edited)

theorem edits_currentFiber : currentFiber.Edits .usual p := by
  unfold currentFiber
  refine Edits.read rfl ?_
  split
  · exact (edits_retain _).bind fun _ _ _ => .pure _
  · next hcurrent => exact edits_createRoot hcurrent

theorem edits_hubFiber : hubFiber.Edits kind p := by
  unfold hubFiber
  refine Edits.read rfl ?_
  split
  · exact (edits_retain _).bind fun _ _ _ => .pure _
  · exact .pure _

theorem settle_leads (n : Nat) {q : Process} (hq : p.Sizes q) {E : Halt → Process → Prop} :
    (settle n).Leads q (fun m q => m = n ∧ p.Sizes q) E := by
  obtain ⟨⟨stackSize, trace, rfl⟩, hedited⟩ := hq
  exact leads_bind.mpr (leads_modify.mpr ⟨rfl, ⟨_, _, rfl⟩, fun kind =>
    (hedited kind).trans (Edit.stackSize _).edited⟩)

theorem defaultStackSize_leads {E : Halt → Process → Prop} :
    defaultStackSize.Leads p (fun n q => n = p.defaultSize ∧ p.Sizes q) E := by
  unfold defaultStackSize
  refine (leads_bind_ok rfl).mpr ?_
  cases hs : p.stackSize with
  | some n => exact ⟨by rw [defaultSize, hs], .refl p⟩
  | none =>
    refine (leads_bind_ok rfl).mpr ?_
    dsimp only
    cases he : Config.ofEnvironment p.environment with
    | ok config =>
      have hn : p.defaultSize = config.stackSize := by simp only [defaultSize, hs, he]
      rw [hn]
      exact (leads_bind_ok rfl).mpr (settle_leads _ (.refl p))
    | error error =>
      have hn : p.defaultSize = Config.default.stackSize := by simp only [defaultSize, hs, he]
      rw [hn]
      exact leads_bind.mpr (leads_log.mpr
        ((leads_bind_ok rfl).mpr (settle_leads _ ((Sizes.refl p).logged rfl))))

theorem edits_defaultStackSize : defaultStackSize.Edits kind p :=
  defaultStackSize_leads.mono (fun _ _ h => h.2.edited kind) fun _ _ h => h

theorem allocateFrom_leads {source : Memory.Source} {allocator : Memory.Allocator} (size : Nat)
    {E : Halt → Process → Prop} : (allocateFrom source size allocator).Leads p (fun
      | .ok stack, q => ∃ memory, p.memory.allocate source size = .ok (stack.block, memory) ∧
          stack.allocator = allocator ∧ stack.size = size ∧ q = {p with memory}
      | .error _, q => q = p) E := by
  unfold allocateFrom
  refine (leads_bind_ok rfl).mpr ?_
  split
  · next block memory hmemory =>
    exact leads_bind.mpr (leads_modify.mpr ⟨memory, hmemory, rfl, rfl, rfl⟩)
  · exact (rfl : p = p)

theorem allocateStack_leads (allocator : Memory.Allocator) (size : Nat)
    {E : Halt → Process → Prop} :
    (allocateStack allocator size).Leads p (Allocated p allocator size) E := by
  unfold allocateStack
  cases allocator with
  | source source =>
    refine (allocateFrom_leads size).mono (fun result q hq => ?_) fun _ _ h => h
    cases result with
    | error error => exact hq
    | ok stack =>
      obtain ⟨block, size', allocator⟩ := stack
      obtain ⟨memory, hmemory, rfl, rfl, rfl⟩ := hq
      exact ⟨.intro rfl hmemory, rfl, rfl⟩
  | tally serial =>
    refine (leads_bind_ok rfl).mpr ?_
    split
    · exact (rfl : p = p)
    · next tally htally =>
      split
      · exact (rfl : p = p)
      · apply Leads.bind (allocateFrom_leads size)
        intro result q hq
        cases result with
        | error error => exact hq
        | ok stack =>
          obtain ⟨block, size', allocator⟩ := stack
          obtain ⟨memory, hmemory, rfl, rfl, rfl⟩ := hq
          refine leads_bind.mpr (leads_modifyThread.mpr ⟨.intro ?_ hmemory, rfl, rfl⟩)
          simp [Memory.Allocator.source?, htally]

theorem createFiber_leads (callback : List Op) (size : Nat) (scheduled : Bool)
    (allocator : Memory.Allocator) : (createFiber callback size scheduled allocator).Leads p
      (fun f q => f = p.nextId ∧ ∃ stack, p.Makes callback size scheduled allocator stack q)
      p.Starves := by
  have hrequest : (if size = 0 then defaultStackSize else pure size).Leads p
      (fun n q => n = p.requested size ∧ p.Sizes q) p.Starves := by
    unfold requested
    split
    · exact defaultStackSize_leads
    · exact ⟨rfl, .refl p⟩
  rw [createFiber_eq]
  refine Leads.bind hrequest fun n q hn => ?_
  obtain ⟨rfl, hq⟩ := hn
  unfold createSized
  refine leads_ite_then (leads_log.mpr (hq.logged rfl)) hq fun p₀ hp => ?_
  apply Leads.bind (allocateStack_leads allocator _)
  intro result q hq
  cases result with
  | error error =>
    obtain rfl : q = p₀ := hq
    exact leads_violate.mpr (.intro hp)
  | ok stack =>
    obtain ⟨hq, hallocator, hsize⟩ := hq
    have hid : q.nextId = p.nextId := by
      obtain ⟨stackSize, trace, rfl⟩ := hp.same
      obtain ⟨-, -⟩ := hq
      rfl
    simp only [register, startContext, freshSerial, leads_bind, leads_get, leads_modify,
      leads_pure, leads_setFiber, leads_log]
    rw [hid, ← hsize]
    have hmakes : p.Makes callback size scheduled allocator stack
        (q.addTask stack callback scheduled) := .intro hp hq hallocator hsize
    rw [addTask, hid] at hmakes
    exact ⟨rfl, stack, hmakes⟩

theorem edits_createFiber (callback : List Op) (size : Nat) (scheduled : Bool)
    (allocator : Memory.Allocator) :
    (createFiber callback size scheduled allocator).Edits .making p := by
  refine (createFiber_leads callback size scheduled allocator).mono (fun f q hq => ?_)
    fun halt q hq => ?_
  · obtain ⟨-, stack, hp, hq, -, hsize⟩ := hq
    have hleast : Memory.minStackSize ≤ stack.size := hsize ▸ Nat.le_max_right ..
    exact (hp.edited _).trans (Edit.task callback scheduled rfl hleast hq).edited
  · obtain ⟨hp⟩ := hq
    exact breaks_violated (hp.edited _) fun _ _ => rfl

/-! ### Slots -/

theorem edits_putSlot (s : String) (f : Nat) : (putSlot s f).Edits kind p := by
  unfold putSlot
  refine Edits.read rfl ((edits_modifyThread rfl rfl rfl rfl rfl id).bind fun _ q _ => ?_)
  cases p.thread.slots.get? s with
  | none => exact .pure _
  | some g => exact edits_release g

theorem edits_keepOrRelease (s : Option String) (f : Nat) : (keepOrRelease s f).Edits kind p := by
  cases s with
  | some s => exact edits_putSlot s f
  | none => exact edits_release f

theorem edits_onSlot (s : String) {act : Nat → Act Answer}
    (h : ∀ f, p.thread.slots.get? s = some f → (act f).Edits kind p) :
    (onSlot s act).Edits kind p := by
  unfold onSlot
  refine Edits.read rfl ?_
  split
  · next f hf => exact h f hf
  · exact .pure _

theorem edits_create (s : String) (callback : Script) (size : Nat) (scheduled : Bool)
    (supply : Option Supply) : (create s callback size scheduled supply).Edits .making p := by
  obtain ⟨ops, hops⟩ := resolve_read (p := p) callback
  obtain ⟨allocator, hallocator⟩ := allocator?_read (p := p) (supply.getD (.source .heap))
  unfold create
  refine Edits.read hops ?_
  split
  · refine Edits.read hallocator ?_
    split
    · refine (edits_createFiber ..).bind fun f _ _ => edits_fiber fun x _ => ?_
      exact (edits_putSlot s f).bind fun _ _ _ => .pure _
    · exact .pure _
  · exact .pure _

theorem edits_findCurrent (s : Option String) : (findCurrent s).Edits .usual p :=
  edits_currentFiber.bind fun f _ _ => edits_fiber fun _ _ =>
    (edits_keepOrRelease s f).bind fun _ _ _ => .pure _

theorem edits_findHub (s : Option String) : (findHub s).Edits kind p :=
  edits_hubFiber.bind fun hub _ _ => by
    cases hub with
    | none => exact .pure _
    | some h => exact (edits_keepOrRelease s h).bind fun _ _ _ => .pure _

theorem edits_clone (s target : String) : (clone s target).Edits kind p :=
  edits_onSlot s fun f _ => (edits_retain f).bind fun _ _ _ =>
    (edits_putSlot target f).bind fun _ _ _ => .pure _

theorem edits_drop (s : String) : (drop s).Edits kind p :=
  edits_onSlot s fun f _ => (edits_modifyThread rfl rfl rfl rfl rfl id).bind fun _ _ _ =>
    (edits_release f).bind fun _ _ _ => .pure _

theorem edits_hold (s : String) : (hold s).Edits kind p :=
  edits_onSlot s fun _ _ => (edits_modifyThread rfl rfl rfl rfl rfl id).bind fun _ _ _ =>
    (edits_modifyThread rfl rfl rfl rfl rfl id).bind fun _ _ _ => .pure _

theorem edits_look (s : String) {k : Nat → Fiber → Answer} :
    (onSlot s fun f => return k f (← fiber f)).Edits kind p :=
  edits_onSlot s fun _ _ => edits_fiber fun _ _ => .pure _

theorem edits_resetFiber (f : Nat) (callback : List Op) : (resetFiber f callback).Edits kind p := by
  refine edits_fiber fun x hx => ?_
  have hfail {v : Violation} (hv : ∀ error, v ≠ .noStack error) :
      p.Breaks kind (.aborted v) {p with trace := logged p (.violated v)} :=
    breaks_violated (.refl p) fun error h => (hv error h).elim
  refine leads_bind.mpr (leads_ensure.mpr ⟨fun _ => ?_, fun _ => hfail fun _ h => nomatch h⟩)
  refine leads_bind.mpr (leads_ensure.mpr ⟨fun _ => ?_, fun _ => hfail fun _ h => nomatch h⟩)
  refine leads_bind.mpr (leads_modifyThread.mpr (Edits.after ?_ (edited_lost _)))
  refine (leads_bind_ok rfl).mpr (Edits.after ?_ Edit.serial.edited)
  exact (edits_setFiber (x := x) (by exact hx) (by rfl)).bind fun _ _ _ => edits_log rfl

theorem edits_reset (s : String) (callback : Script) (answerOf : Fiber → Fiber → Answer) :
    (reset s callback answerOf).Edits kind p := by
  obtain ⟨ops, hops⟩ := resolve_read (p := p) callback
  refine edits_onSlot s fun f _ => Edits.read hops ?_
  split
  · exact edits_fiber fun _ _ => (edits_resetFiber f _).bind fun _ _ _ =>
      edits_fiber fun _ _ => .pure _
  · exact .pure _

/-! ### Memory of the scripts' own -/

theorem edits_install (config : Config) : (install config).Edits kind p := by
  unfold install
  split
  · exact .pure _
  · exact (edits_modify (.stackSize _)).bind fun _ _ _ => (edits_log rfl).bind fun _ _ _ => .pure _

theorem edits_add (counter : String) (amount : Int) : (add counter amount).Edits kind p :=
  Edits.read rfl ((edits_modifyThread rfl rfl rfl rfl rfl id).bind fun _ _ _ => .pure _)

theorem edits_setHub {hub : Option Nat}
    (h : ∀ f, hub = some f → ∃ x, p.thread.fibers.get? f = some x) : (setHub hub).Edits kind p :=
  Edits.bind (leads_modifyThread.mpr (Edit.hub h).edited) fun _ _ _ => .pure _

theorem edits_makeTally (name : String) (source : Memory.Source) (limit : Option Nat) :
    (makeTally name source limit).Edits kind p :=
  Edits.bind (leads_modifyThread.mpr (Edit.tally name source limit).edited) fun _ _ _ => .pure _

theorem edits_readTally (name : String) : (readTally name).Edits kind p := by
  unfold readTally
  refine Edits.read rfl ?_
  split <;> exact .pure _

theorem edits_makeStack (name : String) (size : Nat) (supply : Supply) :
    (makeStack name size supply).Edits .keeping p := by
  obtain ⟨allocator, hallocator⟩ := allocator?_read (p := p) supply
  unfold makeStack
  refine Edits.read hallocator ?_
  split
  · next allocator =>
    apply Leads.bind (allocateStack_leads allocator size)
    intro result q hq
    cases result with
    | error error =>
      obtain rfl : q = p := hq
      exact Edited.refl q
    | ok stack =>
      refine (leads_bind_ok rfl).mpr (leads_bind.mpr (leads_modifyThread.mpr ?_))
      cases hname : q.thread.kept.get? name with
      | none => exact (Edit.keep rfl hq.1 hname).edited
      | some other =>
        apply Leads.bind (releaseStack_recovers .keeping other)
        exact fun _ r hr => (Edit.replace rfl hq.1 hname).edited.trans hr
  · exact .pure _

theorem edits_freeStack (name : String) : (freeStack name).Edits .freeing p := by
  unfold freeStack
  refine Edits.read rfl ?_
  cases hname : p.thread.kept.get? name with
  | none => exact .pure _
  | some stack =>
    refine leads_bind.mpr (leads_modifyThread.mpr ?_)
    apply Leads.bind (releaseStack_recovers .freeing stack)
    exact fun _ r hr => (Edit.free rfl hname).edited.trans hr

/-! ### Switches -/

theorem edits_defer (tasks : List Task) : (defer tasks).Edits kind p :=
  edits_modifyThread rfl rfl rfl rfl rfl id

theorem edits_anchorTo (f a : Nat) : (anchorTo f a).Edits kind p :=
  (edits_ensure _ (by exact fun _ h => nomatch h)).bind fun _ _ _ => .pure _

theorem edits_chooseAnchor (f root : Nat) (hub : Option Nat) :
    (chooseAnchor f root hub).Edits kind p := by
  cases hub with
  | none => exact edits_anchorTo f root
  | some hub => exact (edits_release root).bind fun _ _ _ => edits_anchorTo f hub

theorem edits_anchorOn (f root : Nat) (scheduled : Bool) :
    (anchorOn f root scheduled).Edits kind p := by
  cases scheduled with
  | false => exact edits_chooseAnchor f root none
  | true => exact edits_hubFiber.bind fun hub _ _ => edits_chooseAnchor f root hub

theorem edits_anchor (f : Nat) (scheduled : Bool) : (anchor f scheduled).Edits .usual p := by
  rw [anchor_eq]
  refine Edits.read rfl ?_
  cases p.thread.root with
  | none => exact edits_currentFiber.bind fun root _ _ => edits_anchorOn f root scheduled
  | some root => exact (edits_retain root).bind fun _ _ _ => edits_anchorOn f root scheduled

theorem edits_fileContext (f : Nat) (context : Context) : (fileContext f context).Edits kind p := by
  refine edits_fiber fun x hx => ?_
  refine leads_bind.mpr (leads_modifyThread.mpr (Edits.after ?_ (edited_lost _)))
  exact edits_setFiber (x := x) (by exact hx) (by rfl)

theorem edits_switchTo (target : Context) (home : Nat) : (switchTo target home).Edits kind p :=
  edits_freshSerial.bind fun _ _ _ => Edits.read rfl
    ((edits_modifyThread rfl rfl rfl rfl rfl id).bind fun _ _ _ => edits_fileContext home _)

theorem edits_takeContext (f : Nat) : (takeContext f).Edits kind p := by
  refine edits_fiber fun x hx => ?_
  split
  · exact edits_violate fun _ h => nomatch h
  · exact (edits_setFiber hx (by rfl)).bind fun _ _ _ => .pure _

theorem edits_switchInto (f caller : Nat) : (switchInto f caller).Edits kind p :=
  (edits_takeContext f).bind fun target _ _ => (edits_setCurrent _).bind fun _ _ _ =>
    (edits_modifyFiber _ (by exact fun _ => rfl)).bind fun _ _ _ =>
      (edits_log rfl).bind fun _ _ _ => edits_switchTo target caller

theorem edits_handBack (f caller anchor : Nat) :
    (handBack caller anchor (switchInto f caller)).Edits kind p :=
  (edits_release caller).bind fun _ _ _ => (edits_release anchor).bind fun _ _ _ =>
    edits_switchInto f caller

theorem edits_approach (f caller : Nat) (scheduled : Bool) :
    (approach f caller scheduled (switchInto f caller)).Edits .usual p := by
  refine (edits_anchor f scheduled).bind fun anchor _ _ => ?_
  exact Edits.ite_then (edits_log rfl) fun _ => edits_handBack f caller anchor

theorem edits_resume (f : Nat) : (resume f).Edits .usual p := by
  rw [resume_eq]
  exact edits_fiber fun x _ => (edits_ensure _ (by exact fun _ h => nomatch h)).bind fun _ _ _ =>
    edits_currentFiber.bind fun caller _ _ => edits_approach f caller x.scheduled

theorem edits_switchBack (f root : Nat) : (switchBack f root).Edits kind p :=
  (edits_takeContext root).bind fun _ _ _ => (edits_log rfl).bind fun _ _ _ => edits_switchTo _ _

theorem edits_yieldTo (f root : Nat) (state : State) : (yieldTo f root state).Edits kind p := by
  refine (edits_setCurrent _).bind fun _ _ _ => ?_
  exact Edits.ite_then (edits_modifyFiber _ (by exact fun _ => rfl))
    fun _ => edits_switchBack f root

theorem edits_yieldFiber (f : Nat) : (yieldFiber f).Edits kind p := by
  rw [yieldFiber_eq]
  refine edits_fiber fun x _ => (edits_ensure _ (by exact fun _ h => nomatch h)).bind fun _ _ _ =>
    (edits_ensure _ (by exact fun _ h => nomatch h)).bind fun _ q _ => Edits.read rfl ?_
  cases q.thread.root with
  | none => exact edits_violate fun _ h => nomatch h
  | some root => exact edits_yieldTo f root x.state

theorem edits_holding (f : Nat) (task : Task) {next : Act Unit} (h : ∀ q, next.Edits kind q) :
    (holding f task next).Edits kind p :=
  (edits_retain f).bind fun _ _ _ => (edits_defer _).bind fun _ q _ => h q

theorem edits_yieldCurrent (label : Label) : (yieldCurrent label).Edits .usual p :=
  (edits_defer _).bind fun _ _ _ => edits_currentFiber.bind fun f _ _ =>
    (edits_release f).bind fun _ _ _ => edits_yieldFiber f

theorem edits_finish (f : Nat) : (finish f).Edits kind p := by
  refine (edits_modifyFiber _ (by exact fun _ => rfl)).bind fun _ _ _ => ?_
  refine (edits_modifyThread rfl rfl rfl rfl rfl id).bind fun _ _ _ => ?_
  refine (edits_release f).bind fun _ _ _ => Edits.read rfl ?_
  exact (edits_ensure _ (by exact fun _ h => nomatch h)).bind fun _ _ _ => edits_yieldFiber f

end Act
end Fibers
