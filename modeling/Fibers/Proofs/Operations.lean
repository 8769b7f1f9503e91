import Fibers.Proofs.Local

/-! Operations are moves.

`act.Moves hand hand' p` says that an action, begun in `p` with some handles in hand, is a
sequence of moves which leaves other handles in hand, or halts in an ordinary way: not over
a missing context and not past the end of code. The halts that say more are over a fiber
which would go too early; then moves have led to where its last handle is given back. Here that
is shown for every action that does not switch. -/
namespace Fibers

/-- A halt that no switch brings about, and no handle given back. -/
def Halt.Ordinary : Halt → Prop
  | .aborted (.noContext _) | .aborted (.destroyedWhile ..) | .aborted (.rootHoldsCallback _)
  | .aborted (.rootDestroyedWhile ..) | .fault (.spent _) => False
  | _ => True

/-- The process with a report recorded, which tells the current fiber and how many are alive. -/
def Process.report (p : Process) (event : Status → Event) : Process :=
  {p with trace := event ⟨p.thread.current.getD 0, p.live⟩ :: p.trace}

/-- With some handles in hand, moves lead to where the last handle of a fiber is given back,
which is then as `P` says. -/
def Process.Strands (hand : List Nat) (p : Process) (f : Nat) (P : Fiber → Prop) : Prop :=
  ∃ rest q x, Move hand p (f :: rest) q ∧ q.thread.fibers.get? f = some x ∧ x.handles ≤ 1 ∧ P x

/-- The fiber is a task in a certain state. -/
def Fiber.TaskIn (state : State) (x : Fiber) : Prop := x.stack ≠ none ∧ x.state = state

/-- How what only moves may halt. -/
inductive Process.Stops (hand : List Nat) (p : Process) : Halt → Prop
  | ordinary {halt : Halt} (h : halt.Ordinary) : Stops hand p halt
  /-- A task fiber would go before it has terminated. -/
  | early {f : Nat} {state : State} (hterm : state ≠ .term)
    (h : p.Strands hand f (Fiber.TaskIn state)) : Stops hand p (.aborted (.destroyedWhile f state))
  /-- The last handle of a root is given back. -/
  | root {f : Nat} {halt : Halt} (h : p.Strands hand f (·.stack = none)) : Stops hand p halt

theorem Process.Strands.after {hand hand' : List Nat} {p q : Process} {f : Nat} {P : Fiber → Prop}
    (h : q.Strands hand' f P) (hm : Move hand p hand' q) : p.Strands hand f P := by
  obtain ⟨rest, r, x, hr, h⟩ := h
  exact ⟨rest, r, x, hm.trans hr, h⟩

theorem Process.Stops.after {hand hand' : List Nat} {p q : Process} {halt : Halt}
    (h : q.Stops hand' halt) (hm : Move hand p hand' q) : p.Stops hand halt := by
  cases h with
  | ordinary h => exact .ordinary h
  | early hterm h => exact .early hterm (h.after hm)
  | root h => exact .root (h.after hm)

/-- Operations that neither switch nor reset a fiber nor start a thread. -/
def Action.Still : Action → Prop
  | .reset .. | .resetInPlace .. | .resume _ | .yield | .yieldOf _ | .runThread _ => False
  | _ => True

namespace Act
open Process (Move Onward onward_of_names)

variable {α β : Type} {p : Process} {hand : List Nat}

def Moves (act : Act α) (hand : List Nat) (hand' : α → List Nat) (p : Process) : Prop :=
  act.Leads p (fun a q => Move hand p (hand' a) q) (fun halt _ => p.Stops hand halt)

/-! ### Rules -/

theorem Moves.pure {hand' : α → List Nat} {a : α} (h : hand = hand' a) :
    (Pure.pure a : Act α).Moves hand hand' p := by
  subst h
  exact Move.refl _ _

theorem Moves.after {act : Act α} {hand' : List Nat} {hand'' : α → List Nat} {q : Process}
    (h : act.Moves hand' hand'' q) (hm : Move hand p hand' q) :
    act.Leads q (fun a r => Move hand p (hand'' a) r) (fun halt _ => p.Stops hand halt) :=
  h.mono (fun _ _ h' => hm.trans h') fun _ _ he => he.after hm

theorem Moves.bind {act : Act α} {k : α → Act β} {hand' : α → List Nat} {hand'' : β → List Nat}
    (h : act.Moves hand hand' p)
    (hk : ∀ a q, Move hand p (hand' a) q → (k a).Moves (hand' a) hand'' q) :
    (act >>= k).Moves hand hand'' p :=
  Leads.bind h fun a q hm => (hk a q hm).after hm

/-- What only looks something up. -/
theorem Moves.read {act : Act α} {a : α} {k : α → Act β} {hand' : β → List Nat}
    (h : act p = .ok a p) (hk : (k a).Moves hand hand' p) : (act >>= k).Moves hand hand' p :=
  (leads_bind_ok h).mpr hk

/-- What leaves the thread alone, so that what was found there still holds. -/
theorem Moves.beside {act : Act α} {k : α → Act β} {hand' : β → List Nat}
    (h : act.Leads p (fun _ q => q.thread = p.thread ∧ p.Onward q) fun halt _ => halt.Ordinary)
    (hk : ∀ a q, q.thread = p.thread → (k a).Moves hand hand' q) :
    (act >>= k).Moves hand hand' p :=
  Leads.bind (h.mono (fun _ _ h => h) fun _ _ he => .ordinary he) fun a q hq =>
    (hk a q hq.1).after (.quiet (by rw [hq.1]; exact .refl _) hq.2)

theorem Moves.ensure {rule : Prop} [Decidable rule] {v : Violation} {k : Unit → Act β}
    {hand' : β → List Nat} (hv : ¬rule → p.Stops hand (.aborted v))
    (hk : rule → (k ()).Moves hand hand' p) : (Act.ensure rule v >>= k).Moves hand hand' p :=
  leads_bind.mpr (leads_ensure.mpr ⟨hk, hv⟩)

theorem Moves.ite_then {rule : Prop} [Decidable rule] {act : Act Unit} {k : Unit → Act β}
    {hand' : β → List Nat} (h : act.Moves hand (fun _ => hand) p)
    (hk : ∀ q, (k ()).Moves hand hand' q) :
    (if rule then act >>= k else k ()).Moves hand hand' p := by
  split
  · exact h.bind fun _ q _ => hk q
  · exact hk p

/-- What happens beside the fibers. -/
theorem Asides.moves {act : Act α} (h : act.Asides p) : act.Moves hand (fun _ => hand) p :=
  h.mono (fun _ _ h => .quiet h.like h.onward) fun _ _ h => h.elim

theorem moves_log (record : Record) : (log record).Moves hand (fun _ => hand) p :=
  (asides_log record).moves

theorem moves_emit (event : Event) : (emit event).Moves hand (fun _ => hand) p :=
  (asides_emit event).moves

theorem moves_violate {v : Violation} (hv : (Halt.aborted v).Ordinary) {hand' : α → List Nat} :
    (violate v : Act α).Moves hand hand' p :=
  leads_violate.mpr (.ordinary hv)

theorem moves_fiber {f : Nat} {k : Fiber → Act β} {hand' : β → List Nat}
    (hk : ∀ x, p.thread.fibers.get? f = some x → (k x).Moves hand hand' p) :
    (fiber f >>= k).Moves hand hand' p :=
  leads_bind.mpr (leads_fiber_of hk (.ordinary trivial))

theorem moves_status : status.Moves hand (fun _ => hand) p := by
  unfold status
  refine Moves.read rfl ?_
  cases p.thread.current with
  | none => exact Moves.read rfl (Moves.read rfl (.pure rfl))
  | some f =>
    exact moves_fiber fun _ _ => Moves.read rfl (Moves.read rfl (.pure rfl))

theorem moves_answer (label : Label) (a : Answer) : (answer label a).Moves hand (fun _ => hand) p :=
  moves_status.bind fun _ _ _ => moves_emit _

/-! ### Handles -/

theorem moves_retain (f : Nat) : (retain f).Moves hand (fun _ => f :: hand) p := by
  unfold retain modifyFiber
  exact moves_fiber fun x hx =>
    leads_setFiber.mpr (.retain hx (.refl _) (onward_of_names rfl rfl rfl rfl))

theorem log_beside (record : Record) : (log record).Leads p
    (fun _ q => q.thread = p.thread ∧ p.Onward q) fun halt _ => halt.Ordinary :=
  leads_log.mpr ⟨rfl, onward_of_names rfl rfl rfl rfl⟩

theorem moves_bury {f : Nat} {x : Fiber} (hx : p.thread.fibers.get? f = some x)
    (hn : x.handles ≤ 1) (hs : x.stack ≠ none → x.state = .term) :
    (bury f x).Moves (f :: hand) (fun _ => hand) p := by
  unfold bury lose
  refine leads_bind.mpr (leads_modifyThread.mpr (leads_modifyThread.mpr ?_))
  exact .destroy hx hn hs (.refl _) (onward_of_names rfl rfl rfl rfl)

theorem moves_destroy {f : Nat} {x : Fiber} (hx : p.thread.fibers.get? f = some x)
    (hn : x.handles ≤ 1) : (destroy f x).Moves (f :: hand) (fun _ => hand) p := by
  unfold destroy
  apply Moves.beside (log_beside _)
  intro _ q hq
  apply Moves.beside (leads_modify.mpr ⟨rfl, onward_of_names rfl rfl rfl rfl⟩)
  intro _ r hr
  rw [← hq, ← hr] at hx
  split
  · next hstack =>
    have hearly (hterm : x.state ≠ .term) :
        r.Stops (f :: hand) (.aborted (.destroyedWhile f x.state)) :=
      .early hterm ⟨hand, r, x, .refl _ _, hx, hn, by simp [hstack], rfl⟩
    refine Moves.ensure hearly fun hterm => ?_
    refine (moves_bury hx hn fun _ => hterm).bind fun _ _ _ => ?_
    exact (asides_releaseStack _).moves.bind fun _ _ _ => moves_log _
  · next hstack =>
    have hroot {halt : Halt} : r.Stops (f :: hand) halt :=
      .root ⟨hand, r, x, .refl _ _, hx, hn, hstack⟩
    refine Moves.ensure (fun _ => hroot) fun _ => Moves.ensure (fun _ => hroot) fun _ => ?_
    exact moves_bury hx hn fun h => (h hstack).elim

theorem moves_release (f : Nat) : (release f).Moves (f :: hand) (fun _ => hand) p := by
  unfold release
  apply moves_fiber
  intro x hx
  split
  · next hn => exact moves_destroy hx hn
  · next hn =>
    exact leads_setFiber.mpr
      (.release hx (by omega) (.refl _) (onward_of_names rfl rfl rfl rfl))

theorem moves_releaseAll (fs : List Nat) :
    (releaseAll fs).Moves (fs ++ hand) (fun _ => hand) p := by
  induction fs generalizing p with
  | nil => exact .pure rfl
  | cons f rest ih =>
    unfold releaseAll
    exact (moves_release f).bind fun _ _ _ => ih

/-! ### Fibers come -/

theorem moves_createRoot (hc : p.thread.current = none) :
    createRoot.Moves hand (fun r => r :: hand) p := by
  let q : Process := {p with nextId := p.nextId + 1, thread := p.thread.addRoot p.nextId}
  have hroot : Move hand p hand q :=
    .root hc (Nat.lt_succ_self _) (.refl _) ⟨Nat.le_succ _, Nat.le_refl _, rfl, rfl⟩
  have hx : q.thread.fibers.get? p.nextId = some .root := by
    rw [Thread.get?_addRoot, if_pos rfl]
  unfold createRoot register retain
  simp only [leads_bind, leads_get, leads_modify, leads_pure, leads_setFiber, leads_log, setCurrent,
    leads_modifyThread, Moves]
  rw [leads_modifyFiber (by rw [Table.get?_set, if_pos rfl])]
  refine hroot.trans (.retain hx ⟨fun g => ?_, rfl, rfl, rfl, rfl, rfl⟩
    (onward_of_names rfl rfl rfl rfl))
  rfl

theorem moves_currentFiber : currentFiber.Moves hand (fun c => c :: hand) p := by
  unfold currentFiber
  refine Moves.read rfl ?_
  split
  · exact (moves_retain _).bind fun _ _ _ => .pure rfl
  · next hc => exact moves_createRoot hc

theorem moves_hubFiber : hubFiber.Moves hand (fun hub => hub.toList ++ hand) p := by
  unfold hubFiber
  refine Moves.read rfl ?_
  split
  · exact (moves_retain _).bind fun _ _ _ => .pure rfl
  · exact .pure rfl

theorem moves_createOn (callback : List Op) (size : Nat) (scheduled : Bool)
    (allocator : Memory.Allocator) :
    (createOn callback size scheduled allocator).Moves hand (fun f => f :: hand) p := by
  apply (asides_allocateStack ..).moves.bind
  intro result _ _
  cases result with
  | error error => exact moves_violate (v := .noStack error) trivial
  | ok stack =>
    simp only [Moves, register, startContext, freshSerial, leads_bind, leads_get, leads_modify,
      leads_pure, leads_setFiber, leads_log]
    exact .create stack callback scheduled (Nat.lt_succ_self _) (Nat.le_refl _)
      (Nat.lt_succ_self _) (.refl _) ⟨Nat.le_succ _, Nat.le_succ _, rfl, rfl⟩

theorem moves_createFiber (callback : List Op) (size : Nat) (scheduled : Bool)
    (allocator : Memory.Allocator) :
    (createFiber callback size scheduled allocator).Moves hand (fun f => f :: hand) p := by
  rw [createFiber_eq]
  have hrequest :
      (if size = 0 then defaultStackSize else pure size).Moves hand (fun _ => hand) p := by
    split
    · exact asides_defaultStackSize.moves
    · exact .pure rfl
  refine hrequest.bind fun requested _ _ => ?_
  unfold createSized
  refine Moves.ite_then (moves_log _) fun _ => ?_
  exact moves_createOn ..

/-! ### Slots -/

theorem moves_putSlot (s : String) (f : Nat) :
    (putSlot s f).Moves (f :: hand) (fun _ => hand) p := by
  unfold putSlot
  refine Moves.read rfl ?_
  have hput : (modifyThread fun t => {t with slots := t.slots.set s f}).Moves (f :: hand)
      (fun _ => (p.thread.slots.get? s).toList ++ hand) p :=
    leads_modifyThread.mpr (.put s (.refl _) (onward_of_names rfl rfl rfl rfl))
  apply hput.bind
  intro _ q _
  cases p.thread.slots.get? s with
  | none => exact .pure rfl
  | some g => exact moves_release g

theorem moves_keepOrRelease (s : Option String) (f : Nat) :
    (keepOrRelease s f).Moves (f :: hand) (fun _ => hand) p := by
  cases s with
  | some s => exact moves_putSlot s f
  | none => exact moves_release f

theorem moves_emptySlot {s : String} {f : Nat} (hs : p.thread.slots.get? s = some f) :
    (emptySlot s).Moves hand (fun _ => f :: hand) p :=
  leads_modifyThread.mpr (.take hs (.refl _) (onward_of_names rfl rfl rfl rfl))

theorem moves_onSlot (s : String) {act : Nat → Act Answer}
    (h : ∀ f, p.thread.slots.get? s = some f → (act f).Moves hand (fun _ => hand) p) :
    (onSlot s act).Moves hand (fun _ => hand) p := by
  unfold onSlot
  refine Moves.read rfl ?_
  split
  · next f hs => exact h f hs
  · exact .pure rfl

theorem moves_setHub (hub : Option Nat) : (setHub hub).Moves hand (fun _ => hand) p :=
  leads_bind.mpr (leads_modifyThread.mpr
    (.quiet ⟨fun _ => rfl, rfl, rfl, rfl, rfl, rfl⟩ (onward_of_names rfl rfl rfl rfl)))

theorem moves_create (s : String) (callback : Script) (size : Nat) (scheduled : Bool)
    (supply : Option Supply) :
    (create s callback size scheduled supply).Moves hand (fun _ => hand) p := by
  obtain ⟨ops, hops⟩ := resolve_read (p := p) callback
  obtain ⟨allocator, hallocator⟩ := allocator?_read (p := p) (supply.getD (.source .heap))
  unfold create
  refine Moves.read hops ?_
  split
  · refine Moves.read hallocator ?_
    split
    · refine (moves_createFiber ..).bind fun f _ _ => moves_fiber fun x _ => ?_
      exact (moves_putSlot s f).bind fun _ _ _ => .pure rfl
    · exact .pure rfl
  · exact .pure rfl

theorem moves_findCurrent (s : Option String) : (findCurrent s).Moves hand (fun _ => hand) p :=
  moves_currentFiber.bind fun f _ _ => moves_fiber fun _ _ =>
    (moves_keepOrRelease s f).bind fun _ _ _ => .pure rfl

theorem moves_findHub (s : Option String) : (findHub s).Moves hand (fun _ => hand) p :=
  moves_hubFiber.bind fun hub _ _ => by
    cases hub with
    | none => exact .pure rfl
    | some h => exact (moves_keepOrRelease s h).bind fun _ _ _ => .pure rfl

theorem moves_clone (s target : String) : (clone s target).Moves hand (fun _ => hand) p :=
  moves_onSlot s fun f _ => (moves_retain f).bind fun _ _ _ =>
    (moves_putSlot target f).bind fun _ _ _ => .pure rfl

theorem moves_drop (s : String) : (drop s).Moves hand (fun _ => hand) p :=
  moves_onSlot s fun f hs => (moves_emptySlot hs).bind fun _ _ _ =>
    (moves_release f).bind fun _ _ _ => .pure rfl

/-! ### The executing code goes on -/

theorem moves_become {code : Thread → Code} {rest : List Nat}
    (h : Code.Follows hand p.thread.running.code rest (code p.thread)) :
    (modifyThread fun t => t.become (code t)).Moves hand (fun _ => rest) p :=
  leads_modifyThread.mpr (.go h (.refl _) (onward_of_names rfl rfl rfl rfl))

theorem moves_hold (s : String) (hp : p.thread.running.code.Scripted) :
    (hold s).Moves hand (fun _ => hand) p := by
  refine moves_onSlot s fun f hs => leads_bind.mpr (leads_modifyThread.mpr ?_)
  refine Moves.after ?_ (.take hs (.refl _) (onward_of_names rfl rfl rfl rfl))
  exact (moves_become (hp.follows_hold f)).bind fun _ _ _ => .pure rfl

theorem moves_defer {tasks : List Task} (hp : p.thread.running.code.Scripted)
    (h : ∀ task ∈ tasks, task.Plain) : (defer tasks).Moves hand (fun _ => hand) p :=
  moves_become (hp.follows_before h)

theorem moves_deferBody {script : Script} (tasks : List Op → List Task)
    (hp : p.thread.running.code.Scripted) (h : ∀ ops, ∀ task ∈ tasks ops, task.Plain) :
    (do defer (tasks (← bodyOf script)) : Act Unit).Moves hand (fun _ => hand) p := by
  obtain ⟨ops, hops⟩ := bodyOf_read (p := p) script
  exact Moves.read hops (moves_defer hp (h ops))

theorem slotState?_beside (s : String) : (slotState? s).Leads p
    (fun _ q => q.thread = p.thread ∧ p.Onward q) fun halt _ => halt.Ordinary := by
  unfold slotState?
  rw [leads_bind, leads_slot?]
  cases p.thread.slots.get? s with
  | none => exact ⟨rfl, .refl p⟩
  | some f =>
    exact leads_bind.mpr (leads_fiber_of (fun _ _ => ⟨rfl, .refl p⟩) trivial)

/-! ### All operations that do not switch -/

theorem Moves.answer {act : Act Answer} (h : act.Moves hand (fun _ => hand) p) (label : Label) :
    (do Act.answer label (← act) : Act Unit).Moves hand (fun _ => hand) p :=
  h.bind fun a _ _ => moves_answer label a

theorem moves_look (s : String) {k : Nat → Fiber → Answer} :
    (onSlot s fun f => return k f (← fiber f)).Moves hand (fun _ => hand) p :=
  moves_onSlot s fun _ _ => moves_fiber fun _ _ => .pure rfl

theorem moves_perform (op : Op) (hp : p.thread.running.code.Scripted) (hstill : op.action.Still) :
    (perform op).Moves hand (fun _ => hand) p := by
  unfold perform
  cases ha : op.action with
  | reset | resetInPlace | resume | yield | yieldOf | runThread => rw [ha] at hstill; cases hstill
  | nothing => exact moves_answer ..
  | note => exact moves_answer ..
  | create => exact (moves_create ..).answer _
  | current => exact (moves_findCurrent _).answer _
  | clone => exact (moves_clone ..).answer _
  | drop => exact (moves_drop _).answer _
  | hold s => exact (moves_hold s hp).answer _
  | state s => exact (moves_look s (k := fun _ x => .state x.state)).answer _
  | view s => exact (moves_look s (k := fun f x => .view (x.view f))).answer _
  | inspect s => exact (moves_look s (k := fun f x => .inspection (x.view f))).answer _
  | same s other =>
    exact (moves_onSlot s fun f _ => moves_onSlot other fun g _ => .pure rfl).answer _
  | setHub s => exact (moves_onSlot s fun f _ => moves_setHub _).answer _
  | clearHub => exact (moves_setHub none).answer _
  | hub s => exact (moves_findHub s).answer _
  | currentId => exact moves_status.bind fun _ _ _ => moves_answer ..
  | panic payload => exact moves_become (hp.follows_leave _)
  | add => exact (asides_add ..).moves.answer _
  | install => exact (asides_install _).moves.answer _
  | readEnvironment =>
    refine Moves.read rfl ?_
    split <;> exact moves_answer ..
  | stackSize => exact asides_defaultStackSize.moves.bind fun _ _ _ => moves_answer ..
  | setEnvironment =>
    exact (asides_modify rfl (onward_of_names rfl rfl rfl rfl)).moves.bind
      fun _ _ _ => moves_answer ..
  | makeTally => exact (asides_makeTally ..).moves.answer _
  | readTally => exact (asides_readTally _).moves.answer _
  | makeStack => exact (asides_makeStack ..).moves.answer _
  | freeStack => exact (asides_freeStack _).moves.answer _
  | times count =>
    exact moves_deferBody (fun ops => [.again count ops]) hp fun _ _ h =>
      List.mem_singleton.mp h ▸ trivial
  | untilTerm s =>
    exact moves_deferBody (fun ops => [.untilTerm maxRounds s ops]) hp fun _ _ h =>
      List.mem_singleton.mp h ▸ trivial
  | whenState s =>
    refine Moves.beside (slotState?_beside s) fun found q hq => ?_
    exact moves_deferBody Task.ofOps (by rwa [hq]) Task.plain_ofOps

/-! ### Ways through a script -/

theorem moves_carryOut (task : Task) (hp : p.thread.running.code.Scripted)
    (hstill : ∀ op, task = .perform op → op.action.Still) :
    (carryOut task).Moves (task.handles ++ hand) (fun _ => hand) p := by
  cases task with
  | perform op => exact moves_perform op hp (hstill op rfl)
  | again count body =>
    cases count with
    | zero => exact .pure rfl
    | succ n =>
      apply moves_defer hp
      intro task h
      rcases List.mem_append.mp h with h | h
      · exact Task.plain_ofOps body task h
      · exact List.mem_singleton.mp h ▸ trivial
  | untilTerm rounds s body =>
    cases rounds with
    | zero => exact .pure rfl
    | succ n =>
      unfold carryOut
      refine Moves.beside (slotState?_beside s) fun found q hq => ?_
      split
      · exact .pure rfl
      · exact .pure rfl
      · apply moves_defer (by rwa [hq])
        intro task h
        rcases List.mem_append.mp h with h | h
        · exact Task.plain_ofOps body task h
        · exact List.mem_singleton.mp h ▸ trivial
  | resumed label f =>
    exact moves_fiber fun x _ => (moves_release f).bind fun _ _ _ => moves_answer ..
  | yielded label f =>
    cases f with
    | none => exact moves_answer ..
    | some f => exact moves_fiber fun x _ => (moves_release f).bind fun _ _ _ => moves_answer ..

theorem moves_enter {f : Nat} (hcode : p.thread.running.code = .entry f)
    (hc : p.thread.current = some f) : enter.Moves hand (fun _ => hand) p := by
  unfold enter currentFiber retain
  refine leads_bind.mpr (leads_bind.mpr (leads_thread.mpr ?_))
  simp only [hc, leads_bind, leads_pure]
  cases hx : p.thread.fibers.get? f with
  | none =>
    unfold modifyFiber
    exact leads_bind.mpr ((leads_fiber_none hx).mpr (.ordinary trivial))
  | some x =>
    let y : Fiber := {x with handles := x.handles + 1}
    let q : Process := {p with thread := p.thread.setFiber f y}
    have hy : q.thread.fibers.get? f = some y := by rw [Thread.get?_setFiber, if_pos rfl]
    refine (leads_modifyFiber hx).mpr ((leads_fiber (p := q) hy).mpr ?_)
    split
    · exact leads_violate.mpr (.ordinary trivial)
    · next callback hcallback =>
      have hretain : Move hand p (f :: hand) q :=
        .retain hx (.refl _) (onward_of_names rfl rfl rfl rfl)
      have hbegan {r : Process} : (do emit (.began (← status)) : Act Unit).Moves hand
          (fun _ => hand) r := moves_status.bind fun _ _ _ => moves_emit _
      refine leads_bind.mpr (leads_setFiber.mpr (leads_bind.mpr (leads_modifyThread.mpr ?_)))
      refine hbegan.after (hretain.trans ?_)
      exact .begin (p := q) hcode hy hcallback (.refl _) (onward_of_names rfl rfl rfl rfl)

theorem status_leads : status.Leads p
    (fun a q => a = ⟨p.thread.current.getD 0, p.live⟩ ∧ q = p)
    fun halt q => halt.Ordinary ∧ q = p := by
  unfold status
  rw [leads_bind, leads_thread]
  cases p.thread.current with
  | none => exact ⟨rfl, rfl⟩
  | some f =>
    exact leads_bind.mpr (leads_fiber_of (fun _ _ => ⟨rfl, rfl⟩) ⟨trivial, rfl⟩)

theorem status_beside : status.Leads p (fun _ q => q.thread = p.thread ∧ p.Onward q)
    fun halt _ => halt.Ordinary :=
  status_leads.mono (fun _ _ ⟨_, h⟩ => by subst h; exact ⟨rfl, .refl _⟩) fun _ _ h => h.1

/-- What an operation answers is the last thing on record. -/
theorem answer_leads (label : Label) (a : Answer) : (answer label a).Leads p
    (fun _ q => q = p.report (.done label · a)) fun halt q => halt.Ordinary ∧ q = p := by
  apply Leads.bind status_leads
  intro status q h
  obtain ⟨rfl, rfl⟩ := h
  exact leads_emit.mpr rfl

/-- On a thread in order nothing keeps an operation from answering. -/
theorem answer_reports {n : Nat} (hp : p.thread.Steady n hand) (label : Label) (a : Answer) :
    (answer label a).Leads p (fun _ q => q = p.report (.done label · a)) fun _ _ => False :=
  ((answer_leads label a).and (asides_answer hp label a)).mono (fun _ _ h => h.1) fun _ _ h => h.2

/-- What it answers heads the trace. -/
theorem answer_heads {n : Nat} (hp : p.thread.Steady n hand) (label : Label) (a : Answer) :
    (answer label a).Leads p
      (fun _ q => ∃ status, q.trace.head? = some (.done label status a)) fun _ _ => False := by
  refine (answer_reports hp label a).mono (fun _ q hq => ?_) fun _ _ h => h
  subst hq
  exact ⟨_, rfl⟩

/-- What leaving does once the frame answered: its handles go, and a panic is reported. -/
theorem moves_returnFrom {origin : Origin} {held : List Nat} {outcome : Outcome}
    (hcode : p.thread.running.code = .leaving origin held outcome) :
    (returnFrom origin held outcome).Moves hand (fun _ => hand) p := by
  have hbecome : (modifyThread (·.become (.returned origin outcome))).Moves hand
      (fun _ => held ++ hand) p := by
    refine moves_become ?_
    rw [hcode]
    exact Code.follows_returned
  refine hbecome.bind fun _ _ _ => (moves_releaseAll held).bind fun _ _ _ => ?_
  split
  · exact moves_log _
  · exact .pure rfl

theorem moves_leave {origin : Origin} {held : List Nat} {outcome : Outcome}
    (hcode : p.thread.running.code = .leaving origin held outcome) :
    (leave origin held outcome).Moves hand (fun _ => hand) p := by
  rw [leave_eq]
  by_cases hfin : outcome = .finished
  · rw [if_pos hfin]
    refine Moves.beside status_beside fun _ q hq =>
      Moves.beside ?_ fun _ r hr => moves_returnFrom ?_
    · exact leads_emit.mpr ⟨rfl, onward_of_names rfl rfl rfl rfl⟩
    · rw [hr.trans hq]
      exact hcode
  · rw [if_neg hfin]
    exact moves_returnFrom hcode

end Act
end Fibers
