import Fibers.Proofs.Move
import Fibers.Proofs.Phases

/-! What happens beside the fibers.

Counters, tallies, stacks that belong to no fiber, the environment and the configuration are
worked on without any fiber, slot or code being touched. `act.Asides p` says that of an action
begun in `p`, and that it answers. The operations which do nothing else are the local ones. -/
namespace Fibers

/-- Nothing but belongings, memory and records has changed. -/
structure Process.Aside (p q : Process) : Prop where
  like : p.thread.Like q.thread
  hub : q.thread.hub = p.thread.hub
  onward : p.Onward q

/-- Operations that neither concern fibers nor change what is to be done next. -/
def Action.Local : Action → Prop
  | .nothing | .currentId | .note | .add .. | .install _ | .readEnvironment | .stackSize
  | .setEnvironment _ | .makeTally .. | .readTally _ | .makeStack .. | .freeStack _ => True
  | _ => False

namespace Process

variable {p q r : Process}

theorem Aside.refl (p : Process) : p.Aside p := ⟨.refl _, rfl, .refl p⟩

theorem Aside.trans (h : p.Aside q) (h' : q.Aside r) : p.Aside r where
  like := h.like.trans h'.like
  hub := h'.hub.trans h.hub
  onward := h.onward.trans h'.onward

end Process

namespace Act
open Process

variable {α β : Type} {p : Process} {hand : List Nat} {n : Nat}

def Asides (act : Act α) (p : Process) : Prop :=
  act.Leads p (fun _ q => p.Aside q) fun _ _ => False

/-! ### Rules -/

theorem Asides.pure (a : α) : (Pure.pure a : Act α).Asides p := Aside.refl p

theorem Asides.bind {act : Act α} {k : α → Act β} (h : act.Asides p)
    (hk : ∀ a q, p.Aside q → (k a).Asides q) : (act >>= k).Asides p :=
  Leads.bind h fun a q hq => (hk a q hq).mono (fun _ _ h => hq.trans h) fun _ _ h => h

/-- What only looks something up. -/
theorem Asides.read {act : Act α} {a : α} {k : α → Act β} (h : act p = .ok a p)
    (hk : (k a).Asides p) : (act >>= k).Asides p :=
  (leads_bind_ok h).mpr hk

theorem asides_modify {f : Process → Process} (ht : (f p).thread = p.thread)
    (hq : p.Onward (f p)) : (modify f : Act Unit).Asides p :=
  leads_modify.mpr ⟨ht ▸ .refl _, congrArg Thread.hub ht, hq⟩

theorem asides_modifyThread {g : Thread → Thread} (ht : p.thread.Like (g p.thread))
    (hhub : (g p.thread).hub = p.thread.hub) : (modifyThread g).Asides p :=
  leads_modifyThread.mpr ⟨ht, hhub, onward_of_names rfl rfl rfl rfl⟩

theorem asides_log (record : Record) : (log record).Asides p :=
  leads_log.mpr ⟨.refl _, rfl, onward_of_names rfl rfl rfl rfl⟩

theorem asides_emit (event : Event) : (emit event).Asides p :=
  asides_modify rfl (onward_of_names rfl rfl rfl rfl)

/-! ### Memory -/

theorem asides_settle (n : Nat) : (settle n).Asides p :=
  (asides_modify rfl (onward_of_names rfl rfl rfl rfl)).bind fun _ _ _ => .pure _

theorem asides_defaultStackSize : defaultStackSize.Asides p := by
  unfold defaultStackSize
  apply Asides.read rfl
  split
  · exact .pure _
  · apply Asides.read rfl
    dsimp only
    split
    · exact Asides.read rfl (asides_settle _)
    · exact (asides_log _).bind fun _ _ _ => Asides.read rfl (asides_settle _)

theorem asides_modifyTally (serial : Nat) (f : Memory.Tally → Memory.Tally) :
    (modifyTally serial f).Asides p :=
  asides_modifyThread ⟨fun _ => rfl, rfl, rfl, rfl, rfl, rfl⟩ rfl

theorem asides_allocateFrom (source : Memory.Source) (size : Nat) (allocator : Memory.Allocator) :
    (allocateFrom source size allocator).Asides p := by
  unfold allocateFrom
  apply Asides.read rfl
  split
  · exact (asides_modify rfl (onward_of_names rfl rfl rfl rfl)).bind fun _ _ _ => .pure _
  · exact .pure _

theorem asides_allocateStack (allocator : Memory.Allocator) (size : Nat) :
    (allocateStack allocator size).Asides p := by
  unfold allocateStack
  cases allocator with
  | source source => exact asides_allocateFrom ..
  | tally serial =>
    apply Asides.read rfl
    split
    · exact .pure _
    · split
      · exact .pure _
      · apply (asides_allocateFrom ..).bind
        intro result _ _
        split
        · exact (asides_modifyTally ..).bind fun _ _ _ => .pure _
        · exact .pure _

theorem asides_giveBack (stack : Memory.Stack) (source? : Option Memory.Source) :
    (giveBack stack source?).Asides p := by
  cases source? with
  | none => exact asides_log _
  | some source =>
    exact (asides_modify rfl (onward_of_names rfl rfl rfl rfl)).bind fun _ _ _ => asides_log _

theorem asides_releaseStack (stack : Memory.Stack) : (releaseStack stack).Asides p := by
  cases hallocator : stack.allocator with
  | source source =>
    rw [releaseStack_source hallocator]
    exact asides_giveBack ..
  | tally serial =>
    rw [releaseStack_tally hallocator]
    exact (asides_modifyTally ..).bind fun _ _ _ => Asides.read rfl (asides_giveBack ..)

/-! ### Belongings of the scripts -/

theorem asides_install (config : Config) : (install config).Asides p := by
  unfold install
  split
  · exact .pure _
  · apply (asides_modify rfl (onward_of_names rfl rfl rfl rfl)).bind
    intro _ _ _
    exact (asides_log _).bind fun _ _ _ => .pure _

theorem asides_add (counter : String) (amount : Int) : (add counter amount).Asides p :=
  Asides.read rfl <| (asides_modifyThread ⟨fun _ => rfl, rfl, rfl, rfl, rfl, rfl⟩ rfl).bind
    fun _ _ _ => .pure _

theorem asides_makeTally (name : String) (source : Memory.Source) (limit : Option Nat) :
    (makeTally name source limit).Asides p :=
  (asides_modifyThread ⟨fun _ => rfl, rfl, rfl, rfl, rfl, rfl⟩ rfl).bind fun _ _ _ => .pure _

theorem asides_readTally (name : String) : (readTally name).Asides p := by
  unfold readTally
  apply Asides.read rfl
  split <;> exact .pure _

theorem asides_makeStack (name : String) (size : Nat) (supply : Supply) :
    (makeStack name size supply).Asides p := by
  obtain ⟨allocator, hallocator⟩ := allocator?_read (p := p) supply
  unfold makeStack
  apply Asides.read hallocator
  split
  · apply (asides_allocateStack ..).bind
    intro result q _
    cases result with
    | error error => exact .pure _
    | ok stack =>
      apply Asides.read rfl
      apply (asides_modifyThread ⟨fun _ => rfl, rfl, rfl, rfl, rfl, rfl⟩ rfl).bind
      intro _ _ _
      dsimp only
      split
      · exact (asides_releaseStack _).bind fun _ _ _ => .pure _
      · exact .pure _
  · exact .pure _

theorem asides_freeStack (name : String) : (freeStack name).Asides p := by
  unfold freeStack
  apply Asides.read rfl
  split
  · exact .pure _
  · apply (asides_modifyThread ⟨fun _ => rfl, rfl, rfl, rfl, rfl, rfl⟩ rfl).bind
    intro _ _ _
    exact (asides_releaseStack _).bind fun _ _ _ => .pure _

/-! ### Answers

A report tells the current fiber, which is alive on a thread in order. -/

theorem status_answers (hp : p.thread.Steady n hand) :
    status.Leads p (fun a q => a = ⟨p.thread.current.getD 0, p.live⟩ ∧ q = p)
      fun _ _ => False := by
  unfold status
  rw [leads_bind, leads_thread]
  cases hc : p.thread.current with
  | none => exact ⟨rfl, rfl⟩
  | some c =>
    obtain ⟨-, x, hx, -⟩ := hp.current_running hc
    exact leads_bind.mpr ((leads_bind.mpr ((leads_fiber hx).mpr ⟨rfl, rfl⟩)))

theorem asides_status (hp : p.thread.Steady n hand) : status.Asides p :=
  (status_answers hp).mono (fun _ _ ⟨_, h⟩ => h ▸ .refl _) fun _ _ h => h

theorem asides_answer (hp : p.thread.Steady n hand) (label : Label) (a : Answer) :
    (answer label a).Asides p :=
  (asides_status hp).bind fun _ _ _ => asides_emit _

theorem Asides.answer {act : Act Answer} (h : act.Asides p) (hp : p.thread.Steady p.nextId hand)
    (label : Label) : (do Act.answer label (← act) : Act Unit).Asides p :=
  h.bind fun a _ hq => asides_answer (steady_of_like hq.like hp hq.onward.nextId) label a

theorem asides_perform (op : Op) (hp : p.thread.Steady p.nextId hand) (hlocal : op.action.Local) :
    (perform op).Asides p := by
  unfold perform
  cases ha : op.action with
  | nothing => exact asides_answer hp ..
  | currentId => exact (asides_status hp).bind fun a _ hq =>
      asides_answer (steady_of_like hq.like hp hq.onward.nextId) ..
  | note => exact asides_answer hp ..
  | add counter amount => exact (asides_add ..).answer hp _
  | install config => exact (asides_install _).answer hp _
  | readEnvironment =>
    apply Asides.read rfl
    split <;> exact asides_answer hp ..
  | stackSize =>
    apply asides_defaultStackSize.bind
    intro _ _ hq
    exact asides_answer (steady_of_like hq.like hp hq.onward.nextId) ..
  | setEnvironment environment =>
    apply (asides_modify rfl (onward_of_names rfl rfl rfl rfl)).bind
    intro _ _ hq
    exact asides_answer (steady_of_like hq.like hp hq.onward.nextId) ..
  | makeTally name source limit => exact (asides_makeTally ..).answer hp _
  | readTally name => exact (asides_readTally _).answer hp _
  | makeStack name size supply => exact (asides_makeStack ..).answer hp _
  | freeStack name => exact (asides_freeStack _).answer hp _
  | _ => simp [ha, Action.Local] at hlocal

end Act
end Fibers
