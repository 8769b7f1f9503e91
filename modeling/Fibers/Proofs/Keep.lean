import Fibers.Proofs.Edit
import Fibers.Proofs.Step

/-! What operations keep.

A property of processes is lasting if nothing that an operation does by the way can end it: changes
to fibers, slots, belongings and counts, what is logged and what is reported. So it is kept by every
operation but those that do something else besides: the ones that switch, start a thread or leave a
script, which change the code that executes, and the ones that settle the default stack size. A
property that does not depend on the code lasts over switches too, and one that does not depend on
the configuration lasts over changes of it. -/
namespace Fibers

/-- The record tells that the default stack size was resolved for want of a valid one. -/
def Record.settles : Record → Bool
  | .fallback .. => true
  | _ => false

/-- The process has failed: it was not its program that ended. -/
def Halt.Failed : Halt → Prop
  | .aborted _ | .fault _ => True
  | .ended _ | .panicked => False

/-- Nothing ends the property but other code that executes, unless it lasts over switches, another
default stack size or another environment, unless it lasts over those, and another hub, unless it
lasts over that. -/
structure Process.Lasting (switching configuring registering : Prop) (P : Process → Prop) :
    Prop where
  rest : ∀ {p q : Process}, P p → q.level = p.level → q.trace = p.trace →
    q.stackSize = p.stackSize ∧ q.environment = p.environment ∨ configuring →
    q.thread.running = p.thread.running ∧ q.joining = p.joining ∨ switching →
    q.thread.hub = p.thread.hub ∨ registering → P q
  /-- The executing code has more to do. -/
  before : ∀ {p : Process} (tasks : List Task), P p → P {p with thread := p.thread.defer tasks}
  /-- The executing code holds another handle. -/
  hold : ∀ {p : Process} (f : Nat), P p →
    P {p with thread := p.thread.become (p.thread.running.code.hold f)}
  logged : ∀ {p : Process} (record : Record), record.settles = false ∨ configuring → P p →
    P {p with trace := .logged record :: p.trace}
  reported : ∀ {p : Process} (event : Event), event.isReport = true → P p →
    P {p with trace := event :: p.trace}

/-- Operations that change the executing code otherwise than by putting something before it. -/
def Action.Turns : Action → Prop
  | .resume _ | .yield | .yieldOf _ | .runThread _ | .panic _ => True
  | _ => False

/-- Operations after which another hub may be that of the thread that executes. -/
def Action.Registers : Action → Prop
  | .setHub _ | .clearHub | .runThread _ => True
  | _ => False

/-- Operations about the default stack size. -/
def Action.Configures : Action → Prop
  | .install _ | .stackSize | .setEnvironment _ => True
  | .create _ _ size _ _ => size = 0
  | _ => False

namespace Act
open Process

variable {α β : Type} {switching configuring registering : Prop} {P : Process → Prop}

/-- Whatever the action comes to, the property stays; and where it halts, the process has failed. -/
def Keeps (P : Process → Prop) (act : Act α) : Prop :=
  ∀ p, P p → act.Leads p (fun _ q => P q) fun halt q => P q ∧ halt.Failed

/-! ### Rules -/

theorem keeps_pure (a : α) : (pure a : Act α).Keeps P := fun _ hp => hp

theorem keeps_throw {halt : Halt} (h : halt.Failed) : (throw halt : Act α).Keeps P :=
  fun _ hp => ⟨hp, h⟩

theorem keeps_get : (get : Act Process).Keeps P := fun _ hp => hp

theorem Keeps.bind {act : Act α} {k : α → Act β} (h : act.Keeps P) (hk : ∀ a, (k a).Keeps P) :
    (act >>= k).Keeps P :=
  fun p hp => (h p hp).bind fun a q hq => hk a q hq

theorem Keeps.ite {rule : Prop} [Decidable rule] {act other : Act α} (h : act.Keeps P)
    (hother : other.Keeps P) : (if rule then act else other).Keeps P := by
  split
  · exact h
  · exact hother

theorem keeps_modify {g : Process → Process} (h : ∀ p, P p → P (g p)) :
    (modify g : Act Unit).Keeps P := fun p hp => h p hp

theorem keeps_thread : thread.Keeps P := fun _ hp => hp

theorem keeps_resolve (script : Script) : (resolve script).Keeps P := by
  cases script <;> exact fun _ hp => hp

theorem keeps_bodyOf (script : Script) : (bodyOf script).Keeps P :=
  (keeps_resolve script).bind fun _ => keeps_pure _

theorem keeps_slot? (s : String) : (slot? s).Keeps P := fun _ hp => hp

theorem keeps_allocator? (supply : Supply) : (allocator? supply).Keeps P := by
  cases supply <;> exact fun _ hp => hp

theorem keeps_fiber (f : Nat) : (fiber f).Keeps P :=
  fun _ hp => leads_fiber_of (fun _ _ => hp) ⟨hp, trivial⟩

theorem keeps_status : status.Keeps P := by
  refine keeps_thread.bind fun t => ?_
  cases t.current with
  | none => exact (keeps_pure _).bind fun _ => keeps_get.bind fun _ => keeps_pure _
  | some f =>
    exact (keeps_fiber f).bind fun _ => (keeps_pure f).bind fun _ =>
      keeps_get.bind fun _ => keeps_pure _

section Lasting

variable (hP : Lasting switching configuring registering P)

include hP

theorem keeps_modifyThread {g : Thread → Thread} (h : ∀ t, (g t).running = t.running ∨ switching)
    (hhub : ∀ t, (g t).hub = t.hub ∨ registering) : (modifyThread g).Keeps P :=
  keeps_modify fun p hp =>
    hP.rest hp rfl rfl (.inl ⟨rfl, rfl⟩) ((h p.thread).imp_left fun h => ⟨h, rfl⟩) (hhub p.thread)

/-- Neither the code that executes nor the hub is touched. -/
theorem keeps_rest {g : Thread → Thread}
    (h : ∀ t, (g t).running = t.running ∧ (g t).hub = t.hub) : (modifyThread g).Keeps P :=
  keeps_modifyThread hP (fun t => .inl (h t).1) fun t => .inl (h t).2

theorem keeps_counts {g : Process → Process} (h : ∀ p : Process, ∃ nextId live nextSerial memory,
      g p = {p with nextId, live, nextSerial, memory}) : (modify g : Act Unit).Keeps P :=
  keeps_modify fun p hp => by
    obtain ⟨_, _, _, _, h⟩ := h p
    rw [h]
    exact hP.rest hp rfl rfl (.inl ⟨rfl, rfl⟩) (.inl ⟨rfl, rfl⟩) (.inl rfl)

theorem keeps_emit {event : Event} (h : event.isReport = true) :
    (emit event).Keeps P :=
  keeps_modify fun _ hp => hP.reported event h hp

theorem keeps_log {record : Record} (h : record.settles = false) : (log record).Keeps P := by
  refine keeps_get.bind fun p => Keeps.ite ?_ (keeps_pure ())
  exact keeps_modify fun _ hp => hP.logged record (.inl h) hp

theorem keeps_violate (violation : Violation) : (violate violation : Act α).Keeps P :=
  (keeps_log hP rfl).bind fun _ => keeps_throw trivial

theorem keeps_ensure {rule : Prop} [Decidable rule] (violation : Violation) :
    (ensure rule violation).Keeps P :=
  Keeps.ite (keeps_pure ()) (keeps_violate hP violation)

theorem keeps_freshSerial : freshSerial.Keeps P :=
  keeps_get.bind fun _ => Keeps.bind (keeps_counts hP fun _ => ⟨_, _, _, _, rfl⟩)
    fun _ => keeps_pure _

theorem keeps_setFiber (f : Nat) (x : Fiber) : (setFiber f x).Keeps P :=
  keeps_rest hP fun _ => ⟨rfl, rfl⟩

theorem keeps_modifyFiber (f : Nat) (g : Fiber → Fiber) : (modifyFiber f g).Keeps P :=
  (keeps_fiber f).bind fun _ => keeps_setFiber hP f _

theorem keeps_setCurrent (f : Option Nat) : (setCurrent f).Keeps P :=
  keeps_rest hP fun _ => ⟨rfl, rfl⟩

theorem keeps_lose (k : Option Context) : (lose k).Keeps P :=
  keeps_rest hP fun _ => ⟨rfl, rfl⟩

theorem keeps_answer (label : Label) (a : Answer) : (answer label a).Keeps P :=
  keeps_status.bind fun _ => keeps_emit hP rfl

theorem Keeps.answer {act : Act Answer} (h : act.Keeps P) (label : Label) :
    (do Act.answer label (← act) : Act Unit).Keeps P :=
  h.bind fun a => keeps_answer hP label a

theorem keeps_defer (tasks : List Task) : (defer tasks).Keeps P :=
  keeps_modify fun _ hp => hP.before tasks hp

/-! ### Memory -/

theorem keeps_settle (hc : configuring) (n : Nat) : (settle n).Keeps P :=
  Keeps.bind (keeps_modify fun _ hp => hP.rest hp rfl rfl (.inr hc) (.inl ⟨rfl, rfl⟩) (.inl rfl))
    fun _ => keeps_pure n

theorem keeps_defaultStackSize (hc : configuring) : defaultStackSize.Keeps P := by
  refine keeps_get.bind fun p => ?_
  cases p.stackSize with
  | some n => exact keeps_pure n
  | none =>
    refine keeps_get.bind fun p => ?_
    cases Config.ofEnvironment p.environment with
    | ok config => exact (keeps_pure _).bind (keeps_settle hP hc)
    | error error =>
      refine Keeps.bind (keeps_get.bind fun p => Keeps.ite ?_ (keeps_pure ())) fun _ =>
        (keeps_pure _).bind (keeps_settle hP hc)
      exact keeps_modify fun _ hp => hP.logged _ (.inr hc) hp

theorem keeps_install (hc : configuring) (config : Config) : (install config).Keeps P := by
  unfold install
  cases config.refused? with
  | some error => exact keeps_pure _
  | none =>
    exact Keeps.bind
      (keeps_modify fun p hp => hP.rest hp rfl rfl (.inr hc) (.inl ⟨rfl, rfl⟩) (.inl rfl))
      fun _ => (keeps_log hP rfl).bind fun _ => keeps_pure _

theorem keeps_modifyTally (serial : Nat) (g : Memory.Tally → Memory.Tally) :
    (modifyTally serial g).Keeps P :=
  keeps_rest hP fun _ => ⟨rfl, rfl⟩

theorem keeps_allocateFrom (source : Memory.Source) (size : Nat) (allocator : Memory.Allocator) :
    (allocateFrom source size allocator).Keeps P := by
  refine keeps_get.bind fun p => ?_
  split
  · exact Keeps.bind (keeps_counts hP fun _ => ⟨_, _, _, _, rfl⟩) fun _ => keeps_pure _
  · exact keeps_pure _

theorem keeps_allocateStack (allocator : Memory.Allocator) (size : Nat) :
    (allocateStack allocator size).Keeps P := by
  unfold allocateStack
  cases allocator with
  | source source => exact keeps_allocateFrom hP _ _ _
  | tally serial =>
    refine keeps_thread.bind fun t => ?_
    cases t.tallies[serial]? with
    | none => exact keeps_pure _
    | some tally =>
      refine Keeps.ite (keeps_pure _) ((keeps_allocateFrom hP _ _ _).bind fun result => ?_)
      cases result with
      | error error => exact keeps_pure _
      | ok stack => exact (keeps_modifyTally hP _ _).bind fun _ => keeps_pure _

theorem keeps_giveBack (stack : Memory.Stack) (source? : Option Memory.Source) :
    (giveBack stack source?).Keeps P := by
  have hlog : (log (.releasedStack stack.size stack.block)).Keeps P :=
    keeps_log hP rfl
  cases source? with
  | none => exact hlog
  | some source =>
    exact Keeps.bind (keeps_counts hP fun _ => ⟨_, _, _, _, rfl⟩) fun _ => hlog

theorem keeps_releaseStack (stack : Memory.Stack) : (releaseStack stack).Keeps P := by
  cases hallocator : stack.allocator with
  | source source =>
    rw [releaseStack_source hallocator]
    exact keeps_giveBack hP stack (some source)
  | tally serial =>
    rw [releaseStack_tally hallocator]
    exact (keeps_modifyTally hP _ _).bind fun _ => keeps_thread.bind fun _ =>
      keeps_giveBack hP stack _

/-! ### Handles -/

theorem keeps_register : register.Keeps P :=
  keeps_get.bind fun _ => Keeps.bind (keeps_counts hP fun _ => ⟨_, _, _, _, rfl⟩)
    fun _ => keeps_pure _

theorem keeps_retain (f : Nat) : (retain f).Keeps P := keeps_modifyFiber hP f _

theorem keeps_bury (f : Nat) (x : Fiber) : (bury f x).Keeps P :=
  Keeps.bind (keeps_rest hP fun _ => ⟨rfl, rfl⟩) fun _ => keeps_lose hP _

theorem keeps_destroy (f : Nat) (x : Fiber) : (destroy f x).Keeps P := by
  refine (keeps_log hP rfl).bind fun _ => ?_
  refine Keeps.bind (keeps_counts hP fun _ => ⟨_, _, _, _, rfl⟩) fun _ => ?_
  cases x.stack with
  | none =>
    exact (keeps_ensure hP _).bind fun _ => (keeps_ensure hP _).bind fun _ => keeps_bury hP f x
  | some stack =>
    exact (keeps_ensure hP _).bind fun _ => (keeps_bury hP f x).bind fun _ =>
      (keeps_releaseStack hP stack).bind fun _ => keeps_log hP rfl

theorem keeps_release (f : Nat) : (release f).Keeps P :=
  (keeps_fiber f).bind fun x => Keeps.ite (keeps_destroy hP f x) (keeps_setFiber hP f _)

theorem keeps_releaseAll (fs : List Nat) : (releaseAll fs).Keeps P := by
  induction fs with
  | nil => exact keeps_pure _
  | cons f rest ih => exact (keeps_release hP f).bind fun _ => ih

theorem keeps_createRoot : createRoot.Keeps P :=
  (keeps_register hP).bind fun root => (keeps_setFiber hP _ _).bind fun _ =>
    (keeps_log hP rfl).bind fun _ => (keeps_setCurrent hP _).bind fun _ =>
      (keeps_retain hP root).bind fun _ => Keeps.bind (keeps_rest hP fun _ => ⟨rfl, rfl⟩)
        fun _ => keeps_pure _

theorem keeps_currentFiber : currentFiber.Keeps P := by
  refine keeps_thread.bind fun t => ?_
  cases t.current with
  | none => exact keeps_createRoot hP
  | some f => exact (keeps_retain hP f).bind fun _ => keeps_pure _

theorem keeps_hubFiber : hubFiber.Keeps P := by
  refine keeps_thread.bind fun t => ?_
  cases t.livingHub with
  | none => exact keeps_pure _
  | some h => exact (keeps_retain hP h).bind fun _ => keeps_pure _

theorem keeps_startContext (f : Nat) : (startContext f).Keeps P :=
  (keeps_freshSerial hP).bind fun _ => keeps_pure _

theorem keeps_createOn (callback : List Op) (size : Nat) (scheduled : Bool)
    (allocator : Memory.Allocator) : (createOn callback size scheduled allocator).Keeps P := by
  refine (keeps_allocateStack hP allocator size).bind fun result => ?_
  cases result with
  | error error => exact keeps_violate hP _
  | ok stack =>
    exact (keeps_register hP).bind fun f => (keeps_startContext hP f).bind fun _ =>
      (keeps_setFiber hP f _).bind fun _ => (keeps_log hP rfl).bind
        fun _ => keeps_pure _

theorem keeps_createFiber (callback : List Op) {size : Nat} (scheduled : Bool)
    (allocator : Memory.Allocator) (hsize : size = 0 → defaultStackSize.Keeps P) :
    (createFiber callback size scheduled allocator).Keeps P := by
  have hmake (requested : Nat) : (createSized callback requested scheduled allocator).Keeps P :=
    have hon := keeps_createOn hP callback (Memory.stackSizeFor requested) scheduled allocator
    Keeps.ite ((keeps_log hP rfl).bind fun _ => hon) hon
  rw [createFiber_eq]
  split
  · next h => exact (hsize h).bind hmake
  · exact (keeps_pure size).bind hmake

theorem keeps_resetFiber (f : Nat) (callback : List Op) : (resetFiber f callback).Keeps P :=
  (keeps_fiber f).bind fun _ => (keeps_ensure hP _).bind fun _ => (keeps_ensure hP _).bind fun _ =>
    (keeps_lose hP _).bind fun _ => (keeps_startContext hP f).bind fun _ =>
      (keeps_setFiber hP f _).bind fun _ => keeps_log hP rfl

/-! ### Slots -/

theorem keeps_putSlot (s : String) (f : Nat) : (putSlot s f).Keeps P := by
  refine (keeps_slot? s).bind fun replaced => Keeps.bind (keeps_rest hP fun _ => ⟨rfl, rfl⟩)
    fun _ => ?_
  cases replaced with
  | none => exact keeps_pure _
  | some g => exact keeps_release hP g

theorem keeps_keepOrRelease (s : Option String) (f : Nat) : (keepOrRelease s f).Keeps P := by
  cases s with
  | none => exact keeps_release hP f
  | some s => exact keeps_putSlot hP s f

omit hP in
theorem keeps_onSlot (s : String) {act : Nat → Act Answer} (h : ∀ f, (act f).Keeps P) :
    (onSlot s act).Keeps P := by
  refine (keeps_slot? s).bind fun f => ?_
  cases f with
  | none => exact keeps_pure _
  | some f => exact h f

theorem keeps_create (s : String) (callback : Script) {size : Nat} (scheduled : Bool)
    (supply : Option Supply) (hsize : size = 0 → defaultStackSize.Keeps P) :
    (create s callback size scheduled supply).Keeps P := by
  refine (keeps_resolve callback).bind fun callback => ?_
  cases callback with
  | none => exact keeps_pure _
  | some callback =>
    refine (keeps_allocator? _).bind fun allocator => ?_
    cases allocator with
    | none => exact keeps_pure _
    | some allocator =>
      exact (keeps_createFiber hP callback scheduled allocator hsize).bind fun f =>
        (keeps_fiber f).bind fun _ => (keeps_putSlot hP s f).bind fun _ => keeps_pure _

theorem keeps_reset (s : String) (callback : Script) (answerOf : Fiber → Fiber → Answer) :
    (reset s callback answerOf).Keeps P := by
  refine keeps_onSlot s fun f => (keeps_resolve callback).bind fun callback => ?_
  cases callback with
  | none => exact keeps_pure _
  | some callback =>
    exact (keeps_fiber f).bind fun _ => (keeps_resetFiber hP f callback).bind fun _ =>
      (keeps_fiber f).bind fun _ => keeps_pure _

theorem keeps_findCurrent (s : Option String) : (findCurrent s).Keeps P :=
  (keeps_currentFiber hP).bind fun f => (keeps_fiber f).bind fun _ =>
    (keeps_keepOrRelease hP s f).bind fun _ => keeps_pure _

theorem keeps_findHub (s : Option String) : (findHub s).Keeps P := by
  refine (keeps_hubFiber hP).bind fun hub => ?_
  cases hub with
  | none => exact (keeps_pure _).bind fun _ => keeps_pure _
  | some h => exact (keeps_keepOrRelease hP s h).bind fun _ => keeps_pure _

theorem keeps_setHub (hr : registering) (hub : Option Nat) : (setHub hub).Keeps P :=
  Keeps.bind (keeps_modifyThread hP (fun _ => .inl rfl) fun _ => .inr hr) fun _ => keeps_pure _

theorem keeps_clone (s target : String) : (clone s target).Keeps P :=
  keeps_onSlot s fun f => (keeps_retain hP f).bind fun _ => (keeps_putSlot hP target f).bind
    fun _ => keeps_pure _

theorem keeps_drop (s : String) : (drop s).Keeps P :=
  keeps_onSlot s fun f => Keeps.bind (keeps_rest hP fun _ => ⟨rfl, rfl⟩) fun _ =>
    (keeps_release hP f).bind fun _ => keeps_pure _

theorem keeps_hold (s : String) : (hold s).Keeps P :=
  keeps_onSlot s fun f => Keeps.bind (keeps_rest hP fun _ => ⟨rfl, rfl⟩) fun _ =>
    Keeps.bind (keeps_modify fun _ hp => hP.hold f hp) fun _ => keeps_pure _

omit hP in
theorem keeps_look (s : String) {k : Nat → Fiber → Answer} :
    (onSlot s fun f => return k f (← fiber f)).Keeps P :=
  keeps_onSlot s fun f => (keeps_fiber f).bind fun _ => keeps_pure _

omit hP in
theorem keeps_slotState? (s : String) : (slotState? s).Keeps P := by
  refine (keeps_slot? s).bind fun f => ?_
  cases f with
  | none => exact keeps_pure _
  | some f => exact (keeps_fiber f).bind fun _ => keeps_pure _

/-! ### Belongings -/

theorem keeps_add (counter : String) (amount : Int) : (add counter amount).Keeps P :=
  keeps_thread.bind fun _ => Keeps.bind (keeps_rest hP fun _ => ⟨rfl, rfl⟩)
    fun _ => keeps_pure _

theorem keeps_makeTally (name : String) (source : Memory.Source) (limit : Option Nat) :
    (makeTally name source limit).Keeps P :=
  Keeps.bind (keeps_rest hP fun _ => ⟨rfl, rfl⟩) fun _ => keeps_pure _

omit hP in
theorem keeps_readTally (name : String) : (readTally name).Keeps P := by
  refine keeps_thread.bind fun t => ?_
  cases t.tally? name <;> exact keeps_pure _

theorem keeps_makeStack (name : String) (size : Nat) (supply : Supply) :
    (makeStack name size supply).Keeps P := by
  refine (keeps_allocator? supply).bind fun allocator => ?_
  cases allocator with
  | none => exact keeps_pure _
  | some allocator =>
    refine (keeps_allocateStack hP allocator size).bind fun result => ?_
    cases result with
    | error error => exact keeps_pure _
    | ok stack =>
      refine keeps_thread.bind fun t => Keeps.bind (keeps_rest hP fun _ => ⟨rfl, rfl⟩)
        fun _ => ?_
      dsimp only
      cases t.kept.get? name with
      | none => exact (keeps_pure _).bind fun _ => keeps_pure _
      | some other => exact (keeps_releaseStack hP other).bind fun _ => keeps_pure _

theorem keeps_freeStack (name : String) : (freeStack name).Keeps P := by
  refine keeps_thread.bind fun t => ?_
  cases t.kept.get? name with
  | none => exact keeps_pure _
  | some stack =>
    exact Keeps.bind (keeps_rest hP fun _ => ⟨rfl, rfl⟩) fun _ =>
      (keeps_releaseStack hP stack).bind fun _ => keeps_pure _

/-! ### Switches and other code -/

theorem keeps_releaseRoot : releaseRoot.Keeps P := by
  refine keeps_thread.bind fun t => ?_
  cases t.root with
  | none => exact keeps_pure _
  | some root =>
    exact Keeps.bind (keeps_rest hP fun _ => ⟨rfl, rfl⟩) fun _ => keeps_release hP root

theorem keeps_takeContext (f : Nat) : (takeContext f).Keeps P := by
  refine (keeps_fiber f).bind fun x => ?_
  cases x.context with
  | none => exact keeps_violate hP _
  | some k => exact (keeps_setFiber hP f _).bind fun _ => keeps_pure _

theorem keeps_anchorTo (f a : Nat) : (anchorTo f a).Keeps P :=
  (keeps_ensure hP _).bind fun _ => keeps_pure a

theorem keeps_chooseAnchor (f root : Nat) (hub : Option Nat) :
    (chooseAnchor f root hub).Keeps P := by
  cases hub with
  | none => exact keeps_anchorTo hP f root
  | some hub => exact (keeps_release hP root).bind fun _ => keeps_anchorTo hP f hub

theorem keeps_anchorOn (f root : Nat) (scheduled : Bool) : (anchorOn f root scheduled).Keeps P := by
  cases scheduled with
  | false => exact keeps_chooseAnchor hP f root none
  | true => exact (keeps_hubFiber hP).bind fun hub => keeps_chooseAnchor hP f root hub

theorem keeps_anchor (f : Nat) (scheduled : Bool) : (anchor f scheduled).Keeps P := by
  rw [anchor_eq]
  refine keeps_thread.bind fun t => ?_
  cases t.root with
  | none => exact (keeps_currentFiber hP).bind fun root => keeps_anchorOn hP f root scheduled
  | some root => exact (keeps_retain hP root).bind fun _ => keeps_anchorOn hP f root scheduled

section Switching

variable (hs : switching)

include hs

theorem keeps_become (code : Code) : (modifyThread (·.become code)).Keeps P :=
  keeps_modifyThread hP (fun _ => .inr hs) fun _ => .inl rfl

theorem keeps_switchTo (target : Context) (home : Nat) : (switchTo target home).Keeps P :=
  (keeps_freshSerial hP).bind fun _ => keeps_thread.bind fun _ =>
    Keeps.bind (keeps_modifyThread hP (fun _ => .inr hs) fun _ => .inl rfl) fun _ =>
      (keeps_fiber home).bind fun _ => (keeps_lose hP _).bind fun _ => keeps_setFiber hP home _

theorem keeps_switchInto (f caller : Nat) : (switchInto f caller).Keeps P :=
  (keeps_takeContext hP f).bind fun target => (keeps_setCurrent hP _).bind fun _ =>
    (keeps_modifyFiber hP f _).bind fun _ => (keeps_log hP rfl).bind
      fun _ => keeps_switchTo hP hs target caller

theorem keeps_handBack (f caller anchor : Nat) :
    (handBack caller anchor (switchInto f caller)).Keeps P :=
  (keeps_release hP caller).bind fun _ => (keeps_release hP anchor).bind
    fun _ => keeps_switchInto hP hs f caller

theorem keeps_resume (f : Nat) : (resume f).Keeps P := by
  rw [resume_eq]
  refine (keeps_fiber f).bind fun x => (keeps_ensure hP _).bind fun _ =>
    (keeps_currentFiber hP).bind fun caller => (keeps_anchor hP f _).bind fun anchor => ?_
  have hback := keeps_handBack hP hs f caller anchor
  exact Keeps.ite ((keeps_log hP rfl).bind fun _ => hback) hback

theorem keeps_switchBack (f root : Nat) : (switchBack f root).Keeps P :=
  (keeps_takeContext hP root).bind fun target => (keeps_log hP rfl).bind
    fun _ => keeps_switchTo hP hs target f

theorem keeps_yieldFiber (f : Nat) : (yieldFiber f).Keeps P := by
  rw [yieldFiber_eq]
  refine (keeps_fiber f).bind fun x => (keeps_ensure hP _).bind fun _ =>
    (keeps_ensure hP _).bind fun _ => keeps_thread.bind fun t => ?_
  cases t.root with
  | none => exact keeps_violate hP _
  | some root =>
    have hback := keeps_switchBack hP hs f root
    exact (keeps_setCurrent hP _).bind fun _ =>
      Keeps.ite ((keeps_modifyFiber hP f _).bind fun _ => hback) hback

theorem keeps_launch (hr : registering) (label : Label) (program : List Op) :
    (launch label program).Keeps P :=
  (keeps_freshSerial hP).bind fun _ =>
    keeps_modify fun _ hp => hP.rest hp rfl rfl (.inl ⟨rfl, rfl⟩) (.inr hs) (.inr hr)

end Switching

/-! ### Operations and tasks -/

theorem keeps_throughSlot (s : String) (label : Label) {act : Nat → Act Unit}
    (h : ∀ f, (act f).Keeps P) : (throughSlot s label act).Keeps P := by
  refine (keeps_slot? s).bind fun f => ?_
  cases f with
  | none => exact keeps_answer hP _ _
  | some f => exact h f

theorem keeps_yieldCurrent (hs : switching) (label : Label) : (yieldCurrent label).Keeps P :=
  (keeps_defer hP _).bind fun _ => (keeps_currentFiber hP).bind fun f =>
    (keeps_release hP f).bind fun _ => keeps_yieldFiber hP hs f

theorem keeps_holding (f : Nat) (task : Task) {next : Act Unit} (h : next.Keeps P) :
    (holding f task next).Keeps P :=
  (keeps_retain hP f).bind fun _ => (keeps_defer hP _).bind fun _ => h

theorem keeps_answerState (label : Label) (f : Nat) : (answerState label f).Keeps P :=
  (keeps_fiber f).bind fun _ => (keeps_release hP f).bind fun _ => keeps_answer hP _ _

theorem keeps_perform (op : Op) (hturns : op.action.Turns → switching)
    (hconfigures : op.action.Configures → configuring)
    (hregisters : op.action.Registers → registering) : (perform op).Keeps P := by
  unfold perform
  cases ha : op.action with
  | resume s =>
    have hs : switching := hturns (ha ▸ trivial)
    exact keeps_throughSlot hP s op.label fun f => keeps_holding hP f _ (keeps_resume hP hs f)
  | yield =>
    have hs : switching := hturns (ha ▸ trivial)
    exact keeps_yieldCurrent hP hs op.label
  | yieldOf s =>
    have hs : switching := hturns (ha ▸ trivial)
    exact keeps_throughSlot hP s op.label fun f =>
      keeps_holding hP f _ (keeps_yieldFiber hP hs f)
  | panic payload =>
    exact keeps_modifyThread hP (fun _ => .inr (hturns (ha ▸ trivial))) fun _ => .inl rfl
  | runThread program =>
    have hs : switching := hturns (ha ▸ trivial)
    refine (keeps_resolve program).bind fun ops => ?_
    cases ops with
    | none => exact keeps_answer hP _ _
    | some ops => exact keeps_launch hP hs (hregisters (ha ▸ trivial)) op.label ops
  | install config =>
    have hc : configuring := hconfigures (ha ▸ trivial)
    exact (keeps_install hP hc config).answer hP _
  | stackSize =>
    have hc : configuring := hconfigures (ha ▸ trivial)
    exact (keeps_defaultStackSize hP hc).bind fun _ => keeps_answer hP _ _
  | setEnvironment environment =>
    have hc : configuring := hconfigures (ha ▸ trivial)
    refine Keeps.bind (keeps_modify fun p hp => ?_) fun _ => keeps_answer hP _ _
    exact hP.rest hp rfl rfl (.inr hc) (.inl ⟨rfl, rfl⟩) (.inl rfl)
  | create s callback size scheduled supply =>
    refine (keeps_create hP s callback scheduled supply fun h => ?_).answer hP _
    exact keeps_defaultStackSize hP (hconfigures (ha ▸ h))
  | nothing | note => exact keeps_answer hP _ _
  | reset | resetInPlace => exact (keeps_reset hP _ _ _).answer hP _
  | current s => exact (keeps_findCurrent hP s).answer hP _
  | clone s target => exact (keeps_clone hP s target).answer hP _
  | drop s => exact (keeps_drop hP s).answer hP _
  | hold s => exact (keeps_hold hP s).answer hP _
  | state s => exact (keeps_look s (k := fun _ x => .state x.state)).answer hP _
  | view s => exact (keeps_look s (k := fun f x => .view (x.view f))).answer hP _
  | inspect s => exact (keeps_look s (k := fun f x => .inspection (x.view f))).answer hP _
  | same s other =>
    exact (keeps_onSlot s fun f => keeps_onSlot other fun g => keeps_pure _).answer hP _
  | setHub s =>
    have hr : registering := hregisters (ha ▸ trivial)
    exact (keeps_onSlot s fun f => keeps_setHub hP hr (some f)).answer hP _
  | clearHub => exact (keeps_setHub hP (hregisters (ha ▸ trivial)) none).answer hP _
  | hub s => exact (keeps_findHub hP s).answer hP _
  | currentId => exact keeps_status.bind fun _ => keeps_answer hP _ _
  | add counter amount => exact (keeps_add hP counter amount).answer hP _
  | readEnvironment =>
    refine keeps_get.bind fun p => ?_
    cases Config.ofEnvironment p.environment <;> exact keeps_answer hP _ _
  | makeTally name source limit => exact (keeps_makeTally hP name source limit).answer hP _
  | readTally name => exact (keeps_readTally name).answer hP _
  | makeStack name size supply => exact (keeps_makeStack hP name size supply).answer hP _
  | freeStack name => exact (keeps_freeStack hP name).answer hP _
  | times count body => exact (keeps_bodyOf body).bind fun _ => keeps_defer hP _
  | untilTerm s body => exact (keeps_bodyOf body).bind fun _ => keeps_defer hP _
  | whenState s state body otherwise =>
    exact (keeps_slotState? s).bind fun _ => (keeps_bodyOf _).bind fun _ => keeps_defer hP _

/-- What is done on the return from a switch, or to go through a body again. -/
theorem keeps_carryOut (task : Task) (h : ∀ op, task ≠ .perform op) : (carryOut task).Keeps P := by
  cases task with
  | perform op => exact (h op rfl).elim
  | again count body =>
    cases count with
    | zero => exact keeps_pure _
    | succ n => exact keeps_defer hP _
  | untilTerm rounds s body =>
    cases rounds with
    | zero => exact keeps_pure _
    | succ n =>
      refine (keeps_slotState? s).bind fun state => ?_
      split
      · exact keeps_pure _
      · exact keeps_pure _
      · exact keeps_defer hP _
  | resumed label f => exact keeps_answerState hP label f
  | yielded label f =>
    cases f with
    | none => exact keeps_answer hP _ _
    | some f => exact keeps_answerState hP label f

/-! ### Steps -/

section Switching

variable (hs : switching)

include hs

theorem keeps_enter : enter.Keeps P := by
  refine (keeps_currentFiber hP).bind fun f => (keeps_fiber f).bind fun x => ?_
  cases x.callback with
  | none => exact keeps_violate hP _
  | some callback =>
    exact (keeps_setFiber hP f _).bind fun _ => (keeps_become hP hs _).bind fun _ =>
      keeps_status.bind fun _ => keeps_emit hP rfl

theorem keeps_returnFrom (origin : Origin) (held : List Nat) (outcome : Outcome) :
    (returnFrom origin held outcome).Keeps P := by
  refine (keeps_become hP hs _).bind fun _ => (keeps_releaseAll hP held).bind fun _ => ?_
  split
  · exact keeps_log hP rfl
  · exact keeps_pure _

theorem keeps_leave (origin : Origin) (held : List Nat) (outcome : Outcome) :
    (leave origin held outcome).Keeps P := by
  have hgo := keeps_returnFrom hP hs origin held outcome
  rw [leave_eq]
  exact Keeps.ite (keeps_status.bind fun _ => (keeps_emit hP rfl).bind fun _ => hgo) hgo

theorem keeps_finish (f : Nat) : (finish f).Keeps P :=
  (keeps_modifyFiber hP f _).bind fun _ => (keeps_become hP hs _).bind fun _ =>
    (keeps_release hP f).bind fun _ => keeps_thread.bind fun _ => (keeps_ensure hP _).bind fun _ =>
      keeps_yieldFiber hP hs f

/-- The end of the first thread is no failure. -/
theorem keeps_endThread (hr : registering) {p : Process} (hp : P p) (outcome : Outcome) :
    (endThread outcome).Leads p (fun _ q => P q)
      fun halt q => P q ∧ (halt.Failed ∨ p.joining = []) := by
  refine (leads_bind_ok (rfl : (get : Act Process) p = .ok p p)).mpr ?_
  cases hj : p.joining with
  | nil =>
    have hstatus : status.Keeps P := keeps_status
    cases outcome with
    | finished =>
      dsimp only
      refine Leads.bind ((hstatus p hp).mono (fun _ _ h => h) fun _ _ h => ?_) fun _ _ hq => ?_
      · exact ⟨h.1, .inr rfl⟩
      · exact ⟨hq, .inr rfl⟩
    | panicked payload => exact ⟨hp, .inr rfl⟩
  | cons joiner rest =>
    have hjoin : (do
        releaseRoot
        modify fun p => {p with
          thread := joiner.thread
          joining := rest
          ended := p.thread :: p.ended}
        answer joiner.label (.joined outcome) : Act Unit).Keeps P := by
      refine (keeps_releaseRoot hP).bind fun _ => Keeps.bind ?_ fun _ => keeps_answer hP _ _
      exact keeps_modify fun _ hp => hP.rest hp rfl rfl (.inl ⟨rfl, rfl⟩) (.inr hs) (.inr hr)
    exact (hjoin p hp).mono (fun _ _ h => h) fun _ _ h => ⟨h.1, .inl h.2⟩

/-- **Steps**: what lasts over switches is kept by every step, but for those that perform an
operation about the default stack size, and those after which another hub may be that of the thread
that executes. A step that halts has failed, unless the program of the first thread is over. -/
theorem keeps_step {p : Process} (hp : P p)
    (h : ∀ op frame rest, p.thread.Performs op frame rest → op.action.Configures → configuring)
    (hregisters : ∀ op frame rest, p.thread.Performs op frame rest → op.action.Registers →
      registering)
    (hends : ∀ outcome, p.thread.running.code = .returned .program outcome → registering) :
    step.Leads p (fun _ q => P q) fun halt q =>
      P q ∧ (halt.Failed ∨ p.joining = [] ∧ ∃ outcome,
        p.thread.running.code = .returned .program outcome) := by
  have hbecome (code : Code) : P {p with thread := p.thread.become code} :=
    hP.rest hp rfl rfl (.inl ⟨rfl, rfl⟩) (.inr hs) (.inl rfl)
  have hrest {act : Act Unit} {q : Process} (hact : act.Keeps P) (hq : P q) :
      act.Leads q (fun _ q => P q) fun halt q =>
        P q ∧ (halt.Failed ∨ p.joining = [] ∧ ∃ outcome,
          p.thread.running.code = .returned .program outcome) :=
    (hact q hq).mono (fun _ _ h => h) fun _ _ h => ⟨h.1, .inl h.2⟩
  cases hcode : p.thread.running.code with
  | active frame =>
    rw [hcode] at hrest
    cases htodo : frame.todo with
    | nil =>
      unfold step
      rw [leads_bind, leads_thread, hcode]
      dsimp only
      rw [htodo]
      exact hbecome _
    | cons task rest =>
      refine (leads_task hcode htodo).mpr ?_
      cases task with
      | perform op =>
        have hop : p.thread.Performs op frame rest := ⟨hcode, htodo⟩
        exact hrest (keeps_perform hP op (fun _ => hs) (h op frame rest hop)
          (hregisters op frame rest hop)) (hbecome _)
      | _ =>
        refine hrest (keeps_carryOut hP _ ?_) (hbecome _)
        exact fun _ h => nomatch h
  | opening program =>
    rw [hcode] at hrest
    unfold step
    rw [leads_bind, leads_thread, hcode]
    exact hrest ((keeps_become hP hs _).bind fun _ => keeps_status.bind fun _ =>
      keeps_emit hP rfl) hp
  | entry f =>
    rw [hcode] at hrest
    unfold step
    rw [leads_bind, leads_thread, hcode]
    exact hrest (keeps_enter hP hs) hp
  | leaving origin held outcome =>
    rw [hcode] at hrest
    unfold step
    rw [leads_bind, leads_thread, hcode]
    exact hrest (keeps_leave hP hs origin held outcome) hp
  | returned origin outcome =>
    unfold step
    rw [leads_bind, leads_thread, hcode]
    cases origin with
    | program =>
      exact (keeps_endThread hP hs (hends outcome hcode) hp outcome).mono (fun _ _ h => h)
        fun _ _ h => ⟨h.1, h.2.imp_right fun hj => ⟨hj, outcome, rfl⟩⟩
    | callback f =>
      rw [hcode] at hrest
      exact hrest (keeps_finish hP hs f) hp
  | spent f =>
    rw [hcode] at hrest
    unfold step
    rw [leads_bind, leads_thread, hcode]
    exact hrest (keeps_throw trivial) hp

end Switching

end Lasting
end Act
end Fibers
