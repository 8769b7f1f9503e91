import Fibers.Proofs.Cycle
import Fibers.Proofs.Still

/-! Turns: what one step does to a process.

Most steps are calm: fibers come and go, but none changes its state and no context is
continued. The others do one thing besides: they switch into a fiber or out of one, end a
fiber's code, reset a fiber, or pass to another thread. `Turn` is that list, and `Change` the
same taken apart; what keeps a process orderly stands beside them. -/
namespace Fibers

/-- The slot whose fiber an action resumes. -/
def Action.resumes? : Action → Option String
  | .resume s => some s
  | _ => none

theorem Action.of_resumes? {action : Action} {s : String} (h : action.resumes? = some s) :
    action = .resume s := by
  unfold Action.resumes? at h
  split at h
  · cases h
    rfl
  · cases h

namespace Thread

/-- The operation that the executing code performs next, and what it does after that. -/
structure Performs (t : Thread) (op : Op) (frame : Frame) (rest : List Task) : Prop where
  code : t.running.code = .active frame
  todo : frame.todo = .perform op :: rest

/-- What the executing code is about to perform, if it is. -/
def performs? (t : Thread) : Option (Op × Frame × List Task) :=
  match t.running.code with
  | .active frame =>
    match frame.todo with
    | .perform op :: rest => some (op, frame, rest)
    | _ => none
  | _ => none

theorem performs_of {t : Thread} {op : Op} {frame : Frame} {rest : List Task}
    (h : t.performs? = some (op, frame, rest)) : t.Performs op frame rest := by
  unfold performs? at h
  split at h
  · next hcode =>
    split at h
    · next htodo =>
      cases h
      exact ⟨hcode, htodo⟩
    · cases h
  · cases h

theorem Performs.performs?_eq {t : Thread} {op : Op} {frame : Frame} {rest : List Task}
    (h : t.Performs op frame rest) : t.performs? = some (op, frame, rest) := by
  rw [performs?, h.code]
  dsimp only
  rw [h.todo]

/-- A thread in order between steps. -/
structure Orderly (n : Nat) (t : Thread) : Prop extends Steady n [] t, Alert t

/-- A thread about to run a program. -/
theorem orderly_start (n serial : Nat) (program : List Op) :
    (start serial program).Orderly n where
  handles _ := rfl
  positive _ _ h := nomatch h
  root_iff _ _ h := nomatch h
  running _ _ h := nomatch h
  away _ _ h := nomatch h
  unrooted _ := ⟨rfl, fun _ _ h => nomatch h⟩
  program_iff := ⟨fun _ => rfl, fun _ => rfl⟩
  ready _ _ h := nomatch h
  program _ _ _ h := nomatch h
  callback _ _ _ h := nomatch h
  entry _ _ _ _ h := nomatch h
  unfinished _ := rfl
  current _ h := nomatch h
  awaited _ h := nomatch h
  starting _ h := nomatch h
  below _ _ h := nomatch h
  awake := Code.Clear.awake trivial
  clear _ := trivial

end Thread

namespace Process

/-- All threads that may go on: the one that executes and those that wait. -/
def threads (p : Process) : List Thread := p.thread :: p.joining.map Joiner.thread

/-- The process between steps. -/
def Ordered (p : Process) : Prop := ∀ t ∈ p.threads, t.Orderly p.nextId

/-- Moves have led from the one process to the other, with no handle left in hand. -/
structure Moved (p q : Process) : Prop extends Still p q where
  steady : q.thread.Steady q.nextId []

/-- The code that resumes `f` comes to rest in the current fiber, which stays running. -/
inductive Resumed (p : Process) (op : Op) (frame : Frame) (rest : List Task) (f : Nat)
    (q : Process) : Prop
  | intro {c : Nat} {x y : Fiber} {p₁ : Process} (hp : p.Moved p₁)
    (hcode : p₁.thread.running.code = .active {frame with todo := .resumed op.label f :: rest})
    (hx : p₁.thread.fibers.get? f = some x) (hready : x.state = .ready)
    (hc : p₁.thread.current = some c) (hy : p₁.thread.fibers.get? c = some y)
    (hrunning : y.state = .running) (hprogram : y.stack = none ↔ frame.origin = .program)
    (h : p₁.Switch f c .running q)

/-- The code that yields `f` comes to rest in that fiber, and the root goes on. -/
inductive Yielded (p : Process) (op : Op) (frame : Frame) (rest : List Task) (named : Option Nat)
    (f : Nat) (q : Process) : Prop
  | intro {r : Nat} {x z : Fiber} {p₁ : Process} (hp : p.Moved p₁)
    (hcode : p₁.thread.running.code = .active {frame with todo := .yielded op.label named :: rest})
    (ho : frame.origin ≠ .program) (hx : p₁.thread.fibers.get? f = some x) (hstack : x.stack ≠ none)
    (hready : x.state ≠ .ready)
    (hz : p₁.thread.fibers.get? r = some z) (hroot : z.stack = none) (hrunning : z.state = .running)
    (h : p₁.Switch r f x.state.yielded q)

/-- The code of `f` comes to rest for good, and the root goes on. -/
inductive Finished (p : Process) (f : Nat) (q : Process) : Prop
  | intro {r : Nat} {x z : Fiber} {p₁ : Process} (hx : p.thread.fibers.get? f = some x)
    (hstack : x.stack ≠ none) (hterm : x.state ≠ .term) (hp : p.Onward p₁)
    (ht : (p.thread.terminate f x).Like p₁.thread)
    (hz : p₁.thread.fibers.get? r = some z) (hroot : z.stack = none) (hrunning : z.state = .running)
    (h : p₁.Switch r f .term q)

/-- A fiber that has terminated is made ready again. -/
inductive Renewed (p : Process) (f : Nat) (q : Process) : Prop
  | intro {x : Fiber} {callback : List Op} {p₁ p₂ : Process} (hp : p.Moved p₁)
    (hx : p₁.thread.fibers.get? f = some x) (hstack : x.stack ≠ none) (hterm : x.state = .term)
    (ht : (p₁.thread.renew f x p₁.nextSerial callback).Like p₂.thread)
    (hserial : p₂.nextSerial = p₁.nextSerial + 1) (honward : p₁.Onward p₂) (hq : p₂.Moved q)
    (hsame : q.thread = p₂.thread)

/-- The program is over, and the root of the thread is given up; task fibers stay as they are. -/
structure Closed (p q : Process) : Prop extends Calm p q where
  program : p.thread.running.code.origin = .program
  counted : q.thread.Counted []
  root : q.thread.root = none
  running : q.thread.running = p.thread.running
  tasks : ∀ f x, p.thread.fibers.get? f = some x → x.stack ≠ none →
    q.thread.fibers.get? f = some x
  /-- What is left was there, up to the handles of the root. -/
  left : ∀ f y, q.thread.fibers.get? f = some y →
    ∃ n, p.thread.fibers.get? f = some {y with handles := n}
  lost : q.thread.lost = p.thread.lost

inductive Turn (p q : Process) : Prop
  | calm (h : p.Moved q)
  | resume {op : Op} {frame : Frame} {rest : List Task} {s : String} {f : Nat}
    (hop : p.thread.Performs op frame rest) (ha : op.action = .resume s)
    (hs : p.thread.slots.get? s = some f) (h : p.Resumed op frame rest f q)
  | yield {op : Op} {frame : Frame} {rest : List Task} {named : Option Nat} {f : Nat}
    (hop : p.thread.Performs op frame rest)
    (ha : op.action = .yield ∧ named = none ∧ p.thread.current = some f ∨
      ∃ s, op.action = .yieldOf s ∧ named = some f ∧ p.thread.slots.get? s = some f)
    (h : p.Yielded op frame rest named f q)
  /-- The callback of a fiber has completed. -/
  | finish {outcome : Outcome} {f : Nat}
    (hcode : p.thread.running.code = .returned (.callback f) outcome) (h : p.Finished f q)
  | reset {op : Op} {frame : Frame} {rest : List Task} {s : String} {script : Script} {f : Nat}
    (hop : p.thread.Performs op frame rest)
    (ha : op.action = .reset s script ∨ op.action = .resetInPlace s script)
    (hs : p.thread.slots.get? s = some f) (h : p.Renewed f q)
  | launch {label : Label} {program : List Op} {p₁ : Process} (hp : p.Moved p₁)
    (ht : q.thread = .start p₁.nextSerial program) (hserial : q.nextSerial = p₁.nextSerial + 1)
    (hid : q.nextId = p₁.nextId) (hj : q.joining = ⟨p₁.thread, label⟩ :: p₁.joining)
    (he : q.ended = p₁.ended)
  | join {joiner : Joiner} {rest : List Joiner} {p₁ p₂ : Process} (hp : p.Closed p₁)
    (hj : p₁.joining = joiner :: rest) (ht : p₂.thread = joiner.thread) (hj' : p₂.joining = rest)
    (he : p₂.ended = p₁.thread :: p₁.ended) (hid : p₂.nextId = p₁.nextId)
    (hserial : p₂.nextSerial = p₁.nextSerial) (hq : p₂.Moved q) (hsame : q.thread = p₂.thread)

variable {p q : Process} {source home f : Nat} {state : State} {x : Fiber}

theorem Move.moved (h : Move [] p [] q) (hp : p.thread.Steady p.nextId []) : p.Moved q :=
  ⟨h.still hp, h.steady hp⟩

/-- A fiber that was there before is current only if it was. -/
theorem Moved.current_of {n : Nat} (h : p.Moved q) (hp : p.thread.Steady n []) (hn : n ≤ p.nextId)
    (hx : p.thread.fibers.get? f = some x) (hc : q.thread.current = some f) :
    p.thread.current = some f := by
  cases hcurrent : p.thread.current with
  | some c =>
    rw [h.current c hcurrent] at hc
    exact hc
  | none =>
    -- Before there was a current fiber the program executed; it has made the root, which is new.
    have hroot := hp.toAttended.root_none hcurrent
    have horigin : p.thread.running.code.origin = .program := by
      rw [hp.program_iff, hcurrent, hroot]
    have hr : q.thread.root = some f :=
      (h.steady.program_iff.mp (h.origin.trans horigin)).symm.trans hc
    obtain ⟨y, hy⟩ := h.steady.toCounted.root_alive hr
    obtain ⟨x', hx', -, hstack, -⟩ := h.between (Nat.lt_of_lt_of_le (hp.below f x hx) hn) hy
    rw [hx] at hx'
    cases hx'
    rw [(h.steady.root_iff f y hy).mpr hr, eq_comm, hp.root_iff f x hx, hroot] at hstack
    cases hstack

theorem Switch.onward (h : p.Switch source home state q) : p.Onward q := by
  obtain ⟨-, -, -, -, -, -, onward⟩ := h
  exact onward

/-- The fiber that a switch leaves, with the executing code at rest in it. -/
theorem Switch.left {y : Fiber} (h : p.Switch source home state q)
    (hy : p.thread.fibers.get? home = some y) :
    q.thread.fibers.get? home =
      some {y with state, context := some ⟨p.nextSerial, p.thread.running.code⟩} := by
  obtain ⟨-, hy', -, -, like, -, -⟩ := h
  rw [hy] at hy'
  cases hy'
  rw [like.fibers]
  exact (Table.get?_set ..).trans (if_pos rfl)

/-- The fiber that a switch enters. -/
theorem Switch.entered (h : p.Switch source home state q)
    (hx : p.thread.fibers.get? source = some x) :
    q.thread.fibers.get? source = some {x with state := .running, context := none} := by
  obtain ⟨hx', -, hne, -, like, -, -⟩ := h
  rw [hx] at hx'
  cases hx'
  rw [like.fibers]
  exact (Table.get?_set ..).trans ((if_neg (Ne.symm hne)).trans
    ((Table.get?_set ..).trans (if_pos rfl)))

/-- A switch leaves all other fibers alone. -/
theorem Switch.others (h : p.Switch source home state q) (hs : f ≠ source) (hh : f ≠ home) :
    q.thread.fibers.get? f = p.thread.fibers.get? f := by
  obtain ⟨-, -, -, -, like, -, -⟩ := h
  rw [like.fibers]
  exact (Table.get?_set ..).trans ((if_neg hh).trans ((Table.get?_set ..).trans (if_neg hs)))

theorem Resumed.onward {op : Op} {frame : Frame} {rest : List Task}
    (h : p.Resumed op frame rest f q) : p.Onward q := by
  obtain ⟨hp, -, -, -, -, -, -, -, h⟩ := h
  exact hp.onward.trans h.onward

theorem Yielded.onward {op : Op} {frame : Frame} {rest : List Task} {named : Option Nat}
    (h : p.Yielded op frame rest named f q) : p.Onward q := by
  obtain ⟨hp, -, -, -, -, -, -, -, -, h⟩ := h
  exact hp.onward.trans h.onward

theorem Finished.onward (h : p.Finished f q) : p.Onward q := by
  obtain ⟨-, -, -, hp, -, -, -, -, h⟩ := h
  exact hp.trans h.onward

/-- A fiber that has finished is there, terminated and on its stack. -/
theorem Finished.left (h : p.Finished f q) (hx : p.thread.fibers.get? f = some x) :
    ∃ y, q.thread.fibers.get? f = some y ∧ y.state = .term ∧ y.stack = x.stack ∧
      y.handles = x.handles - 1 := by
  obtain ⟨hx', -, -, -, ht, -, -, -, h⟩ := h
  rw [hx] at hx'
  cases hx'
  exact ⟨_, h.left ((ht.fibers f).trans (Thread.get?_terminate.trans (if_pos rfl))), rfl, rfl, rfl⟩

theorem Renewed.onward (h : p.Renewed f q) : p.Onward q := by
  obtain ⟨hp, -, -, -, -, -, honward, hq⟩ := h
  exact (hp.onward.trans honward).trans hq.onward

/-- The threads after something was done on the one that executes. -/
theorem Onward.threads {P : Thread → Prop} (h : p.Onward q) (hp : ∀ t ∈ p.threads, P t)
    (hq : P q.thread) : ∀ t ∈ q.threads, P t := by
  intro t ht
  rcases List.mem_cons.mp ht with rfl | ht
  · exact hq
  · rw [h.joining] at ht
    exact hp t (List.mem_cons_of_mem _ ht)

/-- What each thread has on its own is kept by a turn if the thread that executes keeps it. -/
theorem Turn.threads {P : Thread → Prop} (h : p.Turn q) (hp : ∀ t ∈ p.threads, P t)
    (start : ∀ serial program, P (.start serial program))
    (moved : ∀ p₁ p₂ : Process, p₁.thread ∈ p.threads → p.nextId ≤ p₁.nextId → p₁.Moved p₂ →
      P p₂.thread)
    (resume : ∀ op frame rest s f, p.thread.Performs op frame rest → op.action = .resume s →
      p.thread.slots.get? s = some f → p.Resumed op frame rest f q → P q.thread)
    (yield : ∀ op frame rest named f, p.thread.Performs op frame rest →
      (op.action = .yield ∧ p.thread.current = some f ∨
        ∃ s, op.action = .yieldOf s ∧ p.thread.slots.get? s = some f) →
      p.Yielded op frame rest named f q → P q.thread)
    (finish : ∀ f outcome, p.thread.running.code = .returned (.callback f) outcome →
      p.Finished f q → P q.thread)
    (reset : ∀ op frame rest s script f, p.thread.Performs op frame rest →
      (op.action = .reset s script ∨ op.action = .resetInPlace s script) →
      p.thread.slots.get? s = some f → p.Renewed f q → P q.thread) : ∀ t ∈ q.threads, P t := by
  have here : p.thread ∈ p.threads := List.mem_cons_self ..
  cases h with
  | calm h => exact h.onward.threads hp (moved p q here (Nat.le_refl _) h)
  | resume hop ha hs h => exact h.onward.threads hp (resume _ _ _ _ _ hop ha hs h)
  | yield hop ha h =>
    refine h.onward.threads hp (yield _ _ _ _ _ hop ?_ h)
    exact ha.imp (fun ha => ⟨ha.1, ha.2.2⟩) fun ⟨s, ha, _, hs⟩ => ⟨s, ha, hs⟩
  | finish hcode h => exact h.onward.threads hp (finish _ _ hcode h)
  | reset hop ha hs h => exact h.onward.threads hp (reset _ _ _ _ _ _ hop ha hs h)
  | @launch label program p₁ hmoved ht _ _ hj =>
    intro t hmem
    rw [Process.threads, ht, hj] at hmem
    rcases List.mem_cons.mp hmem with rfl | hmem
    · exact start _ _
    · exact hmoved.onward.threads hp (moved p p₁ here (Nat.le_refl _) hmoved) t hmem
  | @join joiner rest p₁ p₂ hclosed hj ht hj' _ hid _ hq =>
    have hwaits {t : Thread} (hmem : t ∈ p₂.threads) : t ∈ p.threads := by
      rw [Process.threads, ht, hj'] at hmem
      rw [Process.threads, ← hclosed.onward.joining, hj]
      exact List.mem_cons_of_mem _ hmem
    refine hq.onward.threads (fun t hmem => hp t (hwaits hmem)) (moved p₂ q ?_ ?_ hq)
    · exact hwaits (List.mem_cons_self ..)
    · rw [hid]
      exact hclosed.onward.nextId

/-! ### Changes

The same, taken apart: what a turn changes, without who brought it about. A fact that is kept
by each change and passes on is kept by every turn. -/

inductive Change : Process → Process → Prop
  | calm {p q : Process} (h : p.Calm q) : Change p q
  /-- What continues rested in a ready fiber or in the root. -/
  | switch {p q : Process} {source home : Nat} {state : State} {x : Fiber}
    (hx : p.thread.fibers.get? source = some x) (hopen : x.state = .ready ∨ x.stack = none)
    (h : p.Switch source home state q) : Change p q
  | terminate {p q : Process} {f : Nat} {x : Fiber} (hx : p.thread.fibers.get? f = some x)
    (ht : (p.thread.terminate f x).Like q.thread) (hq : p.Onward q) : Change p q
  | renew {p q : Process} {f : Nat} {x : Fiber} {callback : List Op}
    (hx : p.thread.fibers.get? f = some x)
    (ht : (p.thread.renew f x p.nextSerial callback).Like q.thread)
    (hserial : q.nextSerial = p.nextSerial + 1) (hq : p.Onward q) : Change p q
  | launch {p q : Process} {label : Label} {program : List Op}
    (ht : q.thread = .start p.nextSerial program) (hserial : q.nextSerial = p.nextSerial + 1)
    (hid : q.nextId = p.nextId) (hj : q.joining = ⟨p.thread, label⟩ :: p.joining)
    (he : q.ended = p.ended) : Change p q
  | join {p q : Process} {joiner : Joiner} {rest : List Joiner} (hj : p.joining = joiner :: rest)
    (ht : q.thread = joiner.thread) (hj' : q.joining = rest) (he : q.ended = p.thread :: p.ended)
    (hid : q.nextId = p.nextId) (hserial : q.nextSerial = p.nextSerial) : Change p q
  | trans {p q r : Process} (h : Change p q) (h' : Change q r) : Change p r

theorem Turn.change (h : p.Turn q) : p.Change q := by
  cases h with
  | calm h => exact .calm h.toCalm
  | resume _ _ _ h =>
    obtain ⟨hp, -, hx, hready, -, -, -, -, h⟩ := h
    exact .trans (.calm hp.toCalm) (.switch hx (.inl hready) h)
  | yield _ _ h =>
    obtain ⟨hp, -, -, -, -, -, hz, hroot, -, h⟩ := h
    exact .trans (.calm hp.toCalm) (.switch hz (.inr hroot) h)
  | finish _ h =>
    obtain ⟨hx, -, -, hp, ht, hz, hroot, -, h⟩ := h
    exact .trans (.terminate hx ht hp) (.switch hz (.inr hroot) h)
  | reset _ _ _ h =>
    obtain ⟨hp, hx, -, -, ht, hserial, honward, hq⟩ := h
    exact .trans (.trans (.calm hp.toCalm) (.renew hx ht hserial honward)) (.calm hq.toCalm)
  | launch hp ht hserial hid hj he => exact .trans (.calm hp.toCalm) (.launch ht hserial hid hj he)
  | join hp hj ht hj' he hid hserial hq =>
    exact .trans (.trans (.calm hp.toCalm) (.join hj ht hj' he hid hserial)) (.calm hq.toCalm)

/-! ### Order is kept -/

theorem Ordered.thread (h : p.Ordered) : p.thread.Orderly p.nextId := h _ (List.mem_cons_self ..)

/-- The fiber in a slot is alive. -/
theorem Ordered.slot_alive {s : String} (h : p.Ordered) (hs : p.thread.slots.get? s = some f) :
    ∃ x, p.thread.fibers.get? f = some x := by
  have := Thread.slot_handle hs
  exact h.thread.toCounted.alive (by omega)

theorem Ordered.onward (h : p.Ordered) (hq : p.Onward q) (ht : q.thread.Orderly q.nextId) :
    q.Ordered := by
  intro t hmem
  rcases List.mem_cons.mp hmem with rfl | hmem
  · exact ht
  · rw [hq.joining] at hmem
    have := h t (List.mem_cons_of_mem _ hmem)
    exact { this with below := fun f x hx => Nat.lt_of_lt_of_le (this.below f x hx) hq.nextId }

theorem Ordered.move (h : p.Ordered) (hm : Move [] p [] q) : q.Ordered :=
  have ht := h.thread
  h.onward (hm.calm ht.below).onward ⟨hm.steady ht.toSteady, hm.alert ht.toAlert⟩

/-- A switch leaves the thread in order, whatever the code was about that switched. -/
theorem Switch.orderly (h : p.Switch source home state q) (hp : p.thread.Sound [])
    (hbelow : ∀ f x, p.thread.fibers.get? f = some x → f < p.nextId)
    (hfits : ∀ x y k, p.thread.fibers.get? source = some x → p.thread.fibers.get? home = some y →
      home ≠ source → x.context = some k →
        p.thread.Fits source x k home y state ∧ k.code.Awake)
    (hw : p.thread.root = some source ∨
      state ≠ .ready ∧ p.thread.running.code.awaited = some source) :
    q.thread.Orderly q.nextId := by
  obtain ⟨hx, hy, hne, ht, like, -, onward⟩ := h
  obtain ⟨hfits, hawake⟩ := hfits _ _ _ hx hy hne ht
  refine { like.sound (hp.switch hfits), like.akin.attended (hfits.attended hp.toStored hw) with
    below := fun g z hz => ?_
    awake := ?_
    clear := fun hr => ?_ }
  · rw [like.fibers] at hz
    refine Nat.lt_of_lt_of_le ?_ onward.nextId
    obtain ⟨rfl, -⟩ | ⟨rfl, -⟩ | ⟨-, -, hz⟩ := Thread.switch_cases hz
    · exact hbelow _ _ hy
    · exact hbelow _ _ hx
    · exact hbelow _ _ hz
  · rw [like.running]
    exact hawake
  · rw [like.root] at hr
    exact (hfits.rooted hr).elim

theorem steady_renew {serial n : Nat} {callback : List Op} {t : Thread} (h : t.Steady n [])
    (hx : t.fibers.get? f = some x) (hstack : x.stack ≠ none) (hterm : x.state = .term) :
    (t.renew f x serial callback).Steady n [] where
  toSound := h.toSound.renew hx hstack hterm
  toAttended := h.toAttended.renew hx hterm
  below g y hy := by
    obtain ⟨rfl, -⟩ | ⟨-, hy⟩ := Table.set_cases hy
    · exact h.below g x hx
    · exact h.below g y hy

theorem Ordered.renew {serial : Nat} {callback : List Op} (h : p.Ordered)
    (hx : p.thread.fibers.get? f = some x) (hstack : x.stack ≠ none) (hterm : x.state = .term)
    (like : (p.thread.renew f x serial callback).Like q.thread) (hq : p.Onward q) : q.Ordered := by
  have ht := h.thread
  exact h.onward hq ⟨steady_of_like like (steady_renew ht.toSteady hx hstack hterm) hq.nextId,
    alert_of_like like (ht.go_on rfl id)⟩

/-! ### Taking up an operation -/

variable {op : Op} {frame : Frame} {rest : List Task} {task : Task} {hand : List Nat}

/-- The process with its next operation taken up. -/
def takeUp (p : Process) (frame : Frame) (rest : List Task) : Process :=
  {p with thread := p.thread.become (.active {frame with todo := rest})}

theorem Ordered.rest_plain (h : p.Ordered) (hop : p.thread.running.code = .active frame)
    (htodo : frame.todo = task :: rest) : ∀ task ∈ rest, task.Plain := by
  have := h.thread.awake.tidy
  rwa [hop, Code.Tidy, htodo] at this

theorem Ordered.takeUp (h : p.Ordered) (hcode : p.thread.running.code = .active frame)
    (htodo : frame.todo = task :: rest) :
    Move [] p (task.handles ++ []) (p.takeUp frame rest) := by
  refine .go ?_ (.refl _) (onward_of_names rfl rfl rfl rfl)
  rw [hcode]
  exact Code.follows_rest htodo (h.rest_plain hcode htodo)

/-- The process with the second half of a switch put before what is left to do. -/
def pushed (p : Process) (task : Task) (frame : Frame) (rest : List Task) : Process :=
  {p with thread := p.thread.become (.active {frame with todo := task :: rest})}

theorem push_akin (hcode : p.thread.running.code = .active {frame with todo := rest}) :
    p.thread.Akin (p.pushed task frame rest).thread :=
  Thread.become_akin (by rw [hcode]; rfl) (by rw [hcode]; rfl) fun _ h => nomatch h

theorem steady_push (task : Task) (hp : p.thread.Steady p.nextId (task.handles ++ hand))
    (hcode : p.thread.running.code = .active {frame with todo := rest}) :
    (p.pushed task frame rest).thread.Steady p.nextId hand := by
  refine steady_of_akin hp (push_akin hcode) (hp.toCounted.become fun g => ?_) (Nat.le_refl _)
  rw [hcode, List.count_append]
  have := Code.handles_push {frame with todo := rest} task g
  simp only [Frame.push] at this
  omega

theorem still_push (hcode : p.thread.running.code = .active {frame with todo := rest}) :
    p.Still (p.pushed task frame rest) := by
  have hlike : (p.thread.become (.active {frame with todo := task :: rest})).Like
      (p.pushed task frame rest).thread := .refl _
  refine still_of_become
    (calm_of_akin (push_akin hcode) rfl (onward_of_names rfl rfl rfl rfl)) hlike ?_
    (fun _ h => nomatch h) fun f h => ?_
  · rw [hcode]
    rfl
  · rw [hcode] at h
    cases h

/-- The process inside a switch that names its fiber: the second half keeps a handle. -/
def inside (p : Process) (f : Nat) (x : Fiber) (task : Task) (frame : Frame) (rest : List Task) :
    Process :=
  {p with
    thread := (p.thread.setFiber f {x with handles := x.handles + 1}).become
      (.active {frame with todo := task :: rest})}

theorem Ordered.inside {op : Op} (h : p.Ordered) (task : Task)
    (hop : p.thread.Performs op frame rest) (hx : p.thread.fibers.get? f = some x)
    (htask : task.handles = [f]) :
    (p.inside f x task frame rest).thread.Steady p.nextId [] ∧
      p.Still (p.inside f x task frame rest) ∧
      (p.inside f x task frame rest).thread.fibers.get? f =
        some {x with handles := x.handles + 1} := by
  let q : Process := {p.takeUp frame rest with
    thread := (p.takeUp frame rest).thread.setFiber f {x with handles := x.handles + 1}}
  have hmove : Move [] p (task.handles ++ []) q := by
    rw [htask]
    exact (h.takeUp hop.code hop.todo).trans
      (.retain hx (.refl _) (onward_of_names rfl rfl rfl rfl))
  exact ⟨steady_push (p := q) task (hmove.steady h.thread.toSteady) rfl,
    (hmove.still h.thread.toSteady).trans h.thread.toSteady (still_push (p := q) rfl),
    Thread.get?_setFiber.trans (if_pos rfl)⟩

end Process
end Fibers
