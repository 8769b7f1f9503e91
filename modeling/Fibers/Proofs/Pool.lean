import Fibers.Proofs.Hub
import Fibers.Proofs.Operations
import Fibers.Proofs.Pairing
import Fibers.Proofs.Shift

/-! Pooling.

A slot may keep a fiber that has terminated, to give it another callback when one is needed, or
have a new fiber made in its place. It makes no difference: the fiber that is used again is as a new
one, but for its id and for the block its stack lies in. -/
namespace Fibers

/-- The action gives the fiber in the slot another callback. -/
inductive Action.Resets (s : String) (c : Script) : Action → Prop
  | reset : Action.Resets s c (.reset s c)
  | resetInPlace : Action.Resets s c (.resetInPlace s c)

/-- The thread with another fiber in the slot of one that went. -/
def Thread.exchange (t : Thread) (s : String) (f : Nat) (x : Fiber) (g : Nat) (y : Fiber) :
    Thread :=
  {(t.setFiber g y).bury f x with slots := t.slots.set s g}

namespace Process

/-- The code that executes goes on with an operation, and then with other tasks. -/
def doing (p : Process) (frame : Frame) (op : Op) (rest : List Task) : Process :=
  {p with thread := p.thread.become (.active {frame with todo := .perform op :: rest})}

/-- The process in which a fiber was reset. -/
def renewed (p : Process) (f : Nat) (x : Fiber) (callback : List Op) : Process :=
  {p with
    nextSerial := p.nextSerial + 1
    thread := p.thread.renew f x p.nextSerial callback
    trace := (Record.resetFiber f).logOn p.level p.trace}

/-- The process in which a new fiber has come into the slot of one that went. -/
def exchanged (p : Process) (s : String) (f : Nat) (x : Fiber) (stack : Memory.Stack)
    (callback : List Op) (block : Nat) (memory : Memory.System) : Process :=
  {p with
    nextId := p.nextId + 1
    nextSerial := p.nextSerial + 1
    memory := memory.deallocate .heap stack.block stack.size
    thread := p.thread.exchange s f x p.nextId (.task ⟨block, stack.size, .source .heap⟩
      ⟨p.nextSerial, .entry p.nextId⟩ callback x.scheduled)
    trace := (Record.releasedStackOf f).logOn p.level
      ((Record.releasedStack stack.size stack.block).logOn p.level
        ((Record.destroying f).logOn p.level
          ((Record.created p.nextId stack.size).logOn p.level p.trace)))}

/-- A slot keeps the only handle of a terminated task fiber, which is not the hub; its stack comes
from the heap. -/
structure Retired (p : Process) (s : String) (f : Nat) (x : Fiber) (stack : Memory.Stack) :
    Prop where
  slot : p.thread.slots.get? s = some f
  fiber : p.thread.fibers.get? f = some x
  heap : stack.allocator = .source .heap
  stack : x.stack = some stack
  term : x.state = .term
  handles : x.handles = 1
  hub : p.thread.hub ≠ some f

end Process

namespace Act
open Process

variable {p : Process} {s : String} {f : Nat} {x : Fiber} {stack : Memory.Stack} {c : Script}
  {callback : List Op}

/-- As long as the current fiber is alive, what is answered can be told. -/
theorem answer_told (h : ∀ g, p.thread.current = some g → p.thread.Alive g) (label : Label)
    (a : Answer) : (answer label a).Leads p (fun _ q => q = p.report (.done label · a))
      fun _ _ => False := by
  have hstatus : status.Leads p (fun a q => a = ⟨p.thread.current.getD 0, p.live⟩ ∧ q = p)
      fun _ _ => False := by
    unfold status
    rw [leads_bind, leads_thread]
    cases hc : p.thread.current with
    | none => exact ⟨rfl, rfl⟩
    | some g =>
      obtain ⟨y, hy⟩ := Option.isSome_iff_exists.mp (h g hc)
      exact leads_bind.mpr (leads_bind.mpr ((leads_fiber hy).mpr ⟨rfl, rfl⟩))
  exact hstatus.bind fun _ q ⟨ha, hq⟩ => leads_emit.mpr (by rw [ha, hq]; rfl)

theorem reset_renews (h : p.Retired s f x stack) (hc : c.ops? p.scripts = some callback)
    (answerOf : (before after : Fiber) → Answer) : (reset s c answerOf).Leads p
      (fun a q => (∃ y, (p.renewed f x callback).thread.fibers.get? f = some y ∧ a = answerOf x y) ∧
        q = p.renewed f x callback)
      fun _ _ => False := by
  unfold reset onSlot
  rw [leads_bind, leads_slot?, h.slot]
  refine (leads_bind_ok (resolve_eq c p)).mpr ?_
  rw [hc]
  refine leads_bind.mpr ((leads_fiber h.fiber).mpr (leads_bind.mpr ?_))
  unfold resetFiber startContext freshSerial lose
  refine leads_bind.mpr ((leads_fiber h.fiber).mpr ?_)
  have htask : (!x.isRoot) = true := by rw [Fiber.isRoot, h.stack]; rfl
  refine leads_bind.mpr (leads_ensure.mpr ⟨fun _ => ?_, fun hroot => (hroot htask).elim⟩)
  refine leads_bind.mpr (leads_ensure.mpr ⟨fun _ => ?_, fun hterm => (hterm h.term).elim⟩)
  simp only [leads_bind, leads_modifyThread, leads_get, leads_modify, leads_pure, leads_setFiber,
    leads_log]
  have hset : (p.renewed f x callback).thread.fibers.get? f = _ :=
    Thread.get?_renew.trans (if_pos rfl)
  exact (leads_fiber hset).mpr ⟨⟨_, hset, rfl⟩, rfl⟩

theorem createFiber_heap {size block : Nat} {memory : Memory.System} (flag : Bool)
    (hsize : Memory.minStackSize ≤ size)
    (hgrants : p.memory.allocate .heap size = .ok (block, memory)) :
    (createFiber callback size flag (.source .heap)).Leads p
      (fun f q => f = p.nextId ∧
        q = {p with memory}.addTask ⟨block, size, .source .heap⟩ callback flag)
      fun _ _ => False := by
  have hpositive : size ≠ 0 := Nat.ne_of_gt (Nat.lt_of_lt_of_le (by decide) hsize)
  have hstack : Memory.stackSizeFor size = size := Nat.max_eq_left hsize
  unfold createFiber
  rw [if_neg hpositive, leads_bind, leads_pure]
  dsimp only
  rw [hstack, if_neg (not_not.mpr rfl)]
  refine (leads_bind_ok (allocateFrom_ok _ hgrants)).mpr ?_
  unfold register startContext freshSerial
  simp only [leads_bind, leads_get, leads_modify, leads_pure, leads_setFiber, leads_log]
  exact ⟨trivial, rfl⟩

/-- The last handle of a terminated fiber goes when another one comes into its slot. -/
theorem putSlot_exchanges {q : Process} {g : Nat} (h : q.Retired s f x stack) :
    (putSlot s g).Leads q (fun _ r => r = {q with
      live := q.live - 1
      memory := q.memory.deallocate .heap stack.block stack.size
      thread := {q.thread.bury f x with slots := q.thread.slots.set s g}
      trace := (Record.releasedStackOf f).logOn q.level
        ((Record.releasedStack stack.size stack.block).logOn q.level
          ((Record.destroying f).logOn q.level q.trace))}) fun _ _ => False := by
  unfold putSlot release
  rw [leads_bind, leads_slot?, h.slot]
  refine leads_bind.mpr (leads_modifyThread.mpr ?_)
  let r : Process := {q with thread := {q.thread with slots := q.thread.slots.set s g}}
  refine leads_bind.mpr ((leads_fiber (p := r) h.fiber).mpr ?_)
  rw [if_pos (Nat.le_of_eq h.handles)]
  unfold destroy bury lose releaseStack
  rw [h.stack]
  refine leads_bind.mpr (leads_log.mpr (leads_bind.mpr (leads_modify.mpr ?_)))
  refine leads_bind.mpr (leads_ensure.mpr ⟨fun _ => ?_, fun hterm => (hterm h.term).elim⟩)
  dsimp only
  rw [h.heap]
  simp only [leads_bind, leads_log, leads_modify, leads_modifyThread, leads_pure]
  rfl

theorem create_exchanges {block : Nat} {memory : Memory.System} {supply : Option Supply}
    (h : p.Retired s f x stack) (hf : f < p.nextId) (hc : c.ops? p.scripts = some callback)
    (hsupply : supply.getD (.source .heap) = .source .heap)
    (hsize : Memory.minStackSize ≤ stack.size)
    (hgrants : p.memory.allocate .heap stack.size = .ok (block, memory)) :
    (create s c stack.size x.scheduled supply).Leads p
      (fun a q => a = .created p.nextId .ready stack.size ∧
        q = p.exchanged s f x stack callback block memory) fun _ _ => False := by
  unfold create
  refine (leads_bind_ok (resolve_eq c p)).mpr ?_
  rw [hc, hsupply]
  refine (leads_bind_ok rfl).mpr ?_
  refine Leads.bind (createFiber_heap x.scheduled hsize hgrants) fun g q ⟨hg, hq⟩ => ?_
  subst hg hq
  have hnew := Thread.get?_setFiber (t := p.thread) (f := p.nextId) (g := p.nextId)
    (x := .task ⟨block, stack.size, .source .heap⟩ ⟨p.nextSerial, .entry p.nextId⟩ callback
      x.scheduled)
  have hold := (Thread.get?_setFiber (t := p.thread) (f := p.nextId) (g := f)
    (x := .task ⟨block, stack.size, .source .heap⟩ ⟨p.nextSerial, .entry p.nextId⟩ callback
      x.scheduled)).trans (if_neg (Nat.ne_of_lt hf))
  refine leads_bind.mpr ((leads_fiber (hnew.trans (if_pos rfl))).mpr ?_)
  refine Leads.bind (putSlot_exchanges {h with fiber := hold.trans h.fiber}) fun _ r hr => ?_
  subst hr
  exact ⟨rfl, rfl⟩

end Act

/-! ### The only handle -/

namespace Thread

/-- Nothing on the thread names the fiber but the slot, and what is the fiber's own. -/
structure Sole (t : Thread) (s : String) (f : Nat) : Prop where
  slots : ∀ s', t.slots.get? s' = some f → s' = s
  current : t.current ≠ some f
  root : t.root ≠ some f
  running : f ∉ t.running.code.names
  resting : ∀ g y k, g ≠ f → t.fibers.get? g = some y → y.context = some k → f ∉ k.code.names

/-- The thread without the slot and the fiber in it. -/
def rid (t : Thread) (s : String) (f : Nat) (x : Fiber) : Thread :=
  {t.bury f x with slots := t.slots.erase s}

variable {t : Thread} {n f g : Nat} {x y : Fiber} {s : String}

/-- Code names a fiber because it keeps a handle of it, or because it is the start or the end of
that fiber's code. -/
theorem names_cases {code : Code} (h : f ∈ code.names) :
    f ∈ code.handles ∨ code = .entry f ∨ code = .spent f := by
  cases code with
  | entry g => exact .inr (.inl (congrArg Code.entry (List.mem_singleton.mp h).symm))
  | spent g => exact .inr (.inr (congrArg Code.spent (List.mem_singleton.mp h).symm))
  | _ => exact .inl h

/-- Where a slot keeps the only handle of a terminated fiber, nothing else names it. -/
theorem Orderly.sole (h : t.Orderly n) (hslot : t.slots.get? s = some f)
    (hspent : ∀ f x k g, t.fibers.get? f = some x → x.context = some k → k.code = .spent g → g = f)
    (hx : t.fibers.get? f = some x) (hone : x.handles = 1) (hterm : x.state = .term) :
    t.Sole s f := by
  have hhandles := h.toCounted.handles_eq hx
  rw [hone, List.count_nil, handlesOf, weigh] at hhandles
  have hslots := t.slots.le_total (fun g => [g].count f) hslot
  rw [List.count_singleton_self] at hslots
  have hcurrent : t.current ≠ some f := fun hc => by
    have hrunning := h.toSteady.current_state hc hx
    rw [hterm] at hrunning
    cases hrunning
  refine ⟨fun s' hs' => by_contra fun hne => ?_, hcurrent, fun hroot => ?_, fun hnames => ?_,
    fun g y k hne hy hk hnames => ?_⟩
  · have := t.slots.add_le_total (fun g => [g].count f) hs' hslot hne
    rw [List.count_singleton_self] at this
    omega
  · rw [hroot, Option.toList_some, List.count_singleton_self] at hhandles
    omega
  · rcases names_cases hnames with hmem | hcode | hcode
    · have := List.count_pos_iff.mpr hmem
      omega
    · exact hcurrent (h.starting f hcode)
    · exact h.awake.spent f hcode
  · rcases names_cases hnames with hmem | hcode | hcode
    · have hle := t.fibers.le_total (Fiber.weigh fun k => k.code.handles.count f) hy
      have := List.count_pos_iff.mpr hmem
      rw [Fiber.weigh, hk, Option.elim_some] at hle
      omega
    · exact hne (h.entry g y k f hy hk hcode).symm
    · exact hne (hspent g y k f hy hk hcode).symm

theorem Sole.become (h : t.Sole s f) {code : Code} (hcode : f ∉ code.names) :
    (t.become code).Sole s f :=
  {h with running := hcode}

theorem alive_rid : (t.rid s f x).Alive g ↔ g ≠ f ∧ t.Alive g := by
  have hget : (t.rid s f x).fibers.get? g = if g = f then none else t.fibers.get? g :=
    Table.get?_erase ..
  rw [Alive, hget, Alive]
  split
  · next he => simp [he]
  · next hne => simp [hne]

theorem NamesAlive.rid (h : t.NamesAlive) (hsole : t.Sole s f) : (t.rid s f x).NamesAlive where
  running g hg := alive_rid.mpr ⟨fun he => hsole.running (he ▸ hg), h.running g hg⟩
  resting g y k hy hk e he := by
    obtain ⟨hne, hy⟩ := Table.erase_cases hy
    have hother : e ≠ f := fun hf => hsole.resting g y k hne hy hk (hf ▸ he)
    exact alive_rid.mpr ⟨hother, h.resting g y k hy hk e he⟩
  slots s' g hs := by
    obtain ⟨hne, hs⟩ := Table.erase_cases hs
    exact alive_rid.mpr ⟨fun hf => hne (hsole.slots s' (hf ▸ hs)), h.slots s' g hs⟩
  current g hc := alive_rid.mpr ⟨fun hf => hsole.current (hf ▸ hc), h.current g hc⟩
  root g hr := alive_rid.mpr ⟨fun hf => hsole.root (hf ▸ hr), h.root g hr⟩

/-- What is like itself without the fiber is so with the fiber on the one side and another in its
place on the other. -/
theorem renew_alike {next serial : Nat} {scripts : List (String × List Op)} {w : Pairing}
    {callback : List Op} (h : (t.rid s f x).Alike (.shift f next scripts) w (t.rid s f x))
    (hslot : t.slots.get? s = some f) (hne : f ≠ next) (hy : Fiber.Alike (.shift f next scripts) w
      {x with state := .ready, context := some ⟨serial, .entry f⟩, callback := some callback} y) :
    (t.renew f x serial callback).Alike (.shift f next scripts) w (t.exchange s f x next y) := by
  have hset := Act.alike_setFiber (m := .shift f next scripts .error [] []) (f := f) h hy
  have hget (g : Nat) : (t.renew f x serial callback).fibers.get? g =
      ((t.rid s f x).fibers.set f {x with
        state := .ready
        context := some ⟨serial, .entry f⟩
        callback := some callback}).get? g := by
    rw [get?_renew, Table.get?_set]
    split
    · rfl
    · next hg => exact ((Table.get?_erase ..).trans (if_neg hg)).symm
  have hget' (g : Nat) : (t.exchange s f x next y).fibers.get? g =
      ((t.rid s f x).fibers.set (shift f next f) y).get? g := by
    rw [shift_old, Table.get?_set]
    show ((t.fibers.set next y).erase f).get? g = if g = next then _ else (t.fibers.erase f).get? g
    rw [Table.get?_erase, Table.get?_erase, Table.get?_set]
    split
    · next he => rw [he, if_neg hne]
    · rfl
  exact {hset with
    fibers := fun g => by
      rw [hget, hget']
      exact hset.fibers g
    others := fun g hg => (hget' g).trans (hset.others g hg)
    slots := fun s' => by
      have hother := h.slots s'
      show (t.slots.set s next).get? s' = (t.slots.get? s').map _
      by_cases hs : s' = s
      · subst hs
        rw [Table.get?_set, if_pos rfl, hslot]
        exact congrArg some (shift_old f next).symm
      · rw [Table.get?_set, if_neg hs]
        rwa [show (t.rid s f x).slots.get? s' = t.slots.get? s' from
          (Table.get?_erase ..).trans (if_neg hs)] at hother }

end Thread

/-! ### The blocks -/

namespace Process

variable {p : Process} {s : String} {f block : Nat} {x : Fiber} {stack : Memory.Stack}
  {memory : Memory.System}

/-- The process without the slot and the fiber in it. -/
def rid (p : Process) (s : String) (f : Nat) (x : Fiber) : Process :=
  {p with thread := p.thread.rid s f x}

theorem blocks_rid (hx : p.thread.fibers.get? f = some x) (hstack : x.stack = some stack) :
    p.blocks.Perm (stack.block :: (p.rid s f x).blocks) := by
  have hsums (w : Memory.Stack → Nat) : p.thread.stacksOf w + (List.map w []).sum =
      (List.map w [stack]).sum + (p.thread.rid s f x).stacksOf w := by
    have hbury := Thread.stacksOf_bury w hx
    rw [hstack, Option.elim_some] at hbury
    have hrid : (p.thread.rid s f x).stacksOf w = (p.thread.bury f x).stacksOf w := rfl
    rw [List.map_nil, List.map_singleton, List.sum_nil, List.sum_singleton]
    omega
  have howned := (Thread.owned_of_sums hsums).map Memory.Stack.block
  rw [List.append_nil, List.map_append, List.map_singleton] at howned
  rw [blocks_eq, blocks_eq]
  exact howned.append_right _

/-- Every block stands for itself, but the one of the fiber for the new one. -/
def poolPairing (p : Process) (s : String) (f : Nat) (x : Fiber) (stack : Memory.Stack)
    (block : Nat) : Pairing :=
  (stack.block, block) :: (p.rid s f x).ownPairing

/-- What is left of the process is as it was. -/
theorem mem_rid {y : Nat × Nat} (hx : p.thread.fibers.get? f = some x)
    (hstack : x.stack = some stack) (hy : y ∈ (p.rid s f x).ownPairing) : y ∈ p.ownPairing := by
  obtain ⟨b, hb, rfl⟩ := List.mem_map.mp hy
  exact List.mem_map_of_mem (f := fun block => (block, block))
    ((blocks_rid hx hstack).mem_iff.mpr (List.mem_cons_of_mem _ hb))

theorem used_pool {sc : Scenario} (hp : sc.Reaches p) (hx : p.thread.fibers.get? f = some x)
    (hstack : x.stack = some stack)
    (hgrants : p.memory.allocate .heap stack.size = .ok (block, memory)) :
    ∀ y ∈ p.poolPairing s f x stack block, p.memory.Used y.1 ∧ memory.Used y.2 := by
  obtain ⟨⟨hused, hnew⟩, -, -⟩ := Memory.System.allocate_uses hgrants
  intro y hy
  rcases List.mem_cons.mp hy with rfl | hy
  · have hmem : (stack.block, stack.block) ∈ p.ownPairing :=
      mem_ownPairing p.thread_mem (Thread.mem_owned.mpr ⟨_, .fiber hx hstack⟩)
    have hold := hp.used _ hmem
    exact ⟨hold, hnew⟩
  · have hmem := mem_rid hx hstack hy
    have hold := hp.used y hmem
    rw [diagonal_ownPairing p y hmem]
    exact ⟨hold, hused _ hold⟩

theorem oneToOne_pool {sc : Scenario} (hp : sc.Reaches p) (hx : p.thread.fibers.get? f = some x)
    (hstack : x.stack = some stack)
    (hgrants : p.memory.allocate .heap stack.size = .ok (block, memory)) :
    (p.poolPairing s f x stack block).OneToOne := by
  have hnodup := (blocks_rid (s := s) hx hstack).nodup_iff.mp hp.books.toStocked.nodup_blocks
  obtain ⟨r, hr, -⟩ := Memory.System.allocate_grants hgrants
  have hapart {y : Nat × Nat} (hy : y ∈ (p.rid s f x).ownPairing) :
      stack.block ≠ y.1 ∧ block ≠ y.2 := by
    obtain ⟨b, hb, rfl⟩ := List.mem_map.mp hy
    refine ⟨fun he => (List.nodup_cons.mp hnodup).1 (he ▸ hb), fun he => ?_⟩
    -- The new block lies apart from what was reserved, and so from what was owned.
    obtain ⟨r', hr', hspans⟩ := hp.books.toStocked.spans
      ((blocks_rid hx hstack).mem_iff.mpr (List.mem_cons_of_mem _ hb))
    exact hr.apart r' hr' _ hr.spans (he ▸ hspans)
  intro y hy z hz
  rcases List.mem_cons.mp hy with rfl | hy <;> rcases List.mem_cons.mp hz with rfl | hz
  · exact ⟨fun _ => rfl, fun _ => rfl⟩
  · exact ⟨fun he => ((hapart hz).1 he).elim, fun he => ((hapart hz).2 he).elim⟩
  · exact ⟨fun he => ((hapart hy).1 he.symm).elim, fun he => ((hapart hy).2 he.symm).elim⟩
  · exact (diagonal_ownPairing _).oneToOne y hy z hz

/-! ### Side by side -/

variable {sc : Scenario} {frame : Frame} {rest : List Task}

/-- What a thread knows of keeps its name, but for the fiber. -/
theorem shift_known (hp : sc.Reaches p) {t : Thread} (ht : t ∈ p.everyThread) {g : Nat}
    (hg : 0 < t.knows g) (hne : g ≠ f) : shift f p.nextId g = g :=
  shift_other hne (hp.known.once.same ht ht hg hg).2.2

theorem alive_knows {t : Thread} {g : Nat} (h : t.Alive g) : 0 < t.knows g :=
  Thread.knows_pos.mpr (.inr h)

/-- The threads that wait are like themselves. -/
theorem joiner_pool (hp : sc.Reaches p) (hx : p.thread.fibers.get? f = some x) {joiner : Joiner}
    (hj : joiner ∈ p.joining) : joiner.Alike (.shift f p.nextId p.scripts)
      (p.poolPairing s f x stack block) joiner := by
  have hwaits : joiner.thread ∈ p.joining.map Joiner.thread := List.mem_map_of_mem hj
  have hmem : joiner.thread ∈ p.threads := List.mem_cons_of_mem _ hwaits
  have hunknown : joiner.thread.knows f = 0 :=
    hp.known.elsewhere (Thread.knows_of_fiber hx) (List.mem_append_left _ hwaits)
  have hstays (g : Nat) (hg : 0 < joiner.thread.knows g) : shift f p.nextId g = g :=
    shift_known hp (List.mem_append_left _ hmem) hg fun h => Nat.ne_of_gt hg (h ▸ hunknown)
  refine ⟨Thread.alike_self whole_shift.plain (hp.names_alive hmem)
    (fun g hg => hstays g (alive_knows hg)) (fun _ g hg => hstays g (Thread.knows_of_hub hg))
    fun other hother => ?_, rfl⟩
  exact List.mem_cons_of_mem _ (mem_ownPairing (p := p.rid s f x)
    (List.mem_append_left _ (List.mem_cons_of_mem _ hwaits)) hother)

theorem Retired.sole (hp : sc.Reaches p) (h : p.Retired s f x stack) : p.thread.Sole s f := by
  have hthread := hp.lawful.ordered.thread
  exact hthread.sole h.slot (fun f x k g hx => hp.resigned f x k g ⟨_, List.mem_cons_self .., hx⟩)
    h.fiber h.handles h.term

/-- Without the fiber the thread that executes is like itself, whatever it does next. -/
theorem rid_pool (hp : sc.Reaches p) (h : p.Retired s f x stack)
    (hcode : p.thread.running.code = .active frame) (hplain : ∀ task ∈ frame.todo, task.Plain)
    (hrest : ∀ task ∈ rest, task.Plain) : Thread.Alike (.shift f p.nextId p.scripts)
      (p.poolPairing s f x stack block) ((p.takeUp frame rest).thread.rid s f x)
      ((p.takeUp frame rest).thread.rid s f x) := by
  have hmem : p.thread ∈ p.threads := List.mem_cons_self ..
  have hnames : (Code.active {frame with todo := rest}).names = p.thread.running.code.names := by
    rw [hcode]
    show frame.origin.handles ++ frame.held ++ rest.flatMap _ =
      frame.origin.handles ++ frame.held ++ frame.todo.flatMap _
    rw [Task.handles_of_plain hrest, Task.handles_of_plain hplain]
  have halive := hp.names_alive hmem
  have htaken : (p.takeUp frame rest).thread.NamesAlive :=
    {halive with running := fun g hg => halive.running g (hnames ▸ hg)}
  have hsole := h.sole hp
  have hstays (g : Nat) (hg : 0 < p.thread.knows g) (hne : g ≠ f) : shift f p.nextId g = g :=
    shift_known hp (List.mem_append_left _ hmem) hg hne
  refine Thread.alike_self whole_shift.plain (htaken.rid (hsole.become (hnames ▸ hsole.running)))
    (fun g hg => ?_) (fun _ g hg => hstays g (Thread.knows_of_hub hg) fun he => h.hub (he ▸ hg))
    fun other hother => List.mem_cons_of_mem _ ?_
  · obtain ⟨hne, hg⟩ := Thread.alive_rid.mp hg
    exact hstays g (alive_knows hg) hne
  · exact mem_ownPairing (p := p.rid s f x) (List.mem_append_left _ (List.mem_cons_self ..)) hother

/-- The fiber that was reset is as the one that was made. -/
theorem fiber_pool (h : p.Retired s f x stack) (serial : Nat) (callback : List Op) :
    Fiber.Alike (.shift f p.nextId p.scripts) (p.poolPairing s f x stack block)
      {x with state := .ready, context := some ⟨serial, .entry f⟩, callback := some callback}
      (.task ⟨block, stack.size, .source .heap⟩ ⟨serial, .entry p.nextId⟩ callback
        x.scheduled) where
  state := rfl
  stack := by
    dsimp only
    rw [h.stack]
    exact .some ⟨List.mem_cons_self .., rfl, h.heap.symm⟩
  context := by
    have hentry := Code.Alike.entry (v := .shift f p.nextId p.scripts) f
    rw [show (Variation.shift f p.nextId p.scripts).id f = p.nextId from shift_old ..] at hentry
    exact .some ⟨rfl, hentry⟩
  callback := .some (.inl (Op.allAlike_self whole_shift callback))
  scheduled := rfl
  handles := h.handles.symm

/-- The process in which the fiber was reset is like the one in which another was made. -/
theorem alike_pool (before before' : List Event) (callback : List Op) (hp : sc.Reaches p)
    (h : p.Retired s f x stack)
    (hcode : p.thread.running.code = .active frame) (hplain : ∀ task ∈ frame.todo, task.Plain)
    (hrest : ∀ task ∈ rest, task.Plain)
    (hgrants : p.memory.allocate .heap stack.size = .ok (block, memory)) :
    (Likeness.shift f p.nextId p.scripts p.level before before').Alike
      (p.poolPairing s f x stack block)
      {(p.takeUp frame rest).renewed f x callback with trace := before}
      {(p.takeUp frame rest).exchanged s f x stack callback block memory with
        trace := before'} := by
  have hf : f < p.nextId := hp.lawful.ordered.thread.below f x h.fiber
  exact {
    level := rfl
    level' := rfl
    scripts := rfl
    scripts' := rfl
    environment := rfl
    stackSize := rfl
    nextId := (shift_later hf (Nat.le_refl _)).symm
    following := fun g hg => by
      show shift f p.nextId (g + 1) = shift f p.nextId g + 1
      rw [shift_later hf hg, shift_later hf (Nat.le_succ_of_le hg)]
    live := rfl
    nextSerial := rfl
    memory := .inl trivial
    placement := by
      obtain ⟨-, hsame, -⟩ := Memory.System.allocate_uses hgrants
      exact Memory.System.placement_deallocate.trans hsame
    used := fun y hy => by
      obtain ⟨hused, hused'⟩ := used_pool hp h.fiber h.stack hgrants y hy
      exact ⟨hused, hused'.deallocate⟩
    oneToOne := fun _ => oneToOne_pool hp h.fiber h.stack hgrants
    thread := Thread.renew_alike (rid_pool hp h hcode hplain hrest) h.slot (Nat.ne_of_lt hf)
      (fiber_pool h _ callback)
    joining := List.forall₂_same.mpr fun joiner hj => joiner_pool hp h.fiber hj
    trace := .start }

/-- Whatever the code goes on with, the process is in order. -/
theorem Lawful.doing {op : Op} (h : p.Lawful) (hcode : p.thread.running.code = .active frame)
    (hplain : ∀ task ∈ frame.todo, task.Plain) (hrest : ∀ task ∈ rest, task.Plain) :
    (p.doing frame op rest).Lawful := by
  have htodo : ∀ task ∈ Task.perform op :: rest, task.Plain :=
    List.forall_mem_cons.mpr ⟨trivial, hrest⟩
  have hfollows : Code.Follows [] p.thread.running.code []
      (.active {frame with todo := .perform op :: rest}) := by
    rw [hcode]
    refine ⟨rfl, rfl, (fun _ he => nomatch he), (fun _ he => nomatch he), htodo, fun g => ?_⟩
    simp only [Code.handles, Task.handles_of_plain htodo, Task.handles_of_plain hplain]
  have hmove : Move [] p [] (p.doing frame op rest) :=
    .go hfollows (.refl _) ⟨Nat.le_refl _, Nat.le_refl _, rfl, rfl⟩
  exact h.turn (.calm (hmove.moved h.ordered.thread.toSteady)) (h.ordered.move hmove)

theorem Books.doing {op : Op} (h : p.Books)
    (hbelow : ∀ f x, p.thread.fibers.get? f = some x → f < p.nextId) :
    (p.doing frame op rest).Books := by
  have hedit : p.Edit .usual (p.doing frame op rest) := .thread ⟨rfl, rfl, rfl⟩ rfl rfl id
  exact h.edited hbelow (.single hedit)

/-- Two processes differ in ids and blocks only: the one has under `next` what the other has under
`f`, and each block of the pairing stands for the other. -/
structure Renamed (f next : Nat) (w : Pairing) (p p' : Process) : Prop where
  nextId : p'.nextId = shift f next p.nextId
  live : p'.live = p.live
  stackSize : p'.stackSize = p.stackSize
  environment : p'.environment = p.environment
  blocks : w.OneToOne
  thread : p.thread.Alike (.shift f next p.scripts) w p'.thread
  joining : List.Forall₂ (Joiner.Alike (.shift f next p.scripts) w) p.joining p'.joining

section Now

variable {next : Nat} {scripts : List (String × List Op)} {level : Level}
  {before before' : List Event} {w u : Pairing} {q q' : Process}

theorem renamed_of_alike (h : (Likeness.shift f next scripts level before before').Alike w q q')
    (hblocks : u.OneToOne) (hthread : q.thread.Alike (.shift f next scripts) u q'.thread)
    (hjoining : List.Forall₂ (Joiner.Alike (.shift f next scripts) u) q.joining q'.joining) :
    q.Renamed f next u q' := by
  obtain rfl : q.scripts = scripts := h.scripts
  exact {
    nextId := h.nextId
    live := h.live
    stackSize := h.stackSize
    environment := h.environment
    blocks := hblocks
    thread := hthread
    joining := hjoining }

/-- Of all blocks that came to stand for each other, those that do so now are paired one to one. -/
theorem renamed_now (h : (Likeness.shift f next scripts level before before').Alike w q q')
    (hq : q.Stocked) (hq' : q'.Stocked) :
    ∃ u ⊆ w, (q.memory.placement.Fresh → u = w) ∧ q.Renamed f next u q' := by
  by_cases hfresh : q.memory.placement.Fresh
  · exact ⟨w, List.Subset.refl w, fun _ => rfl,
      renamed_of_alike h (h.oneToOne hfresh) h.thread h.joining⟩
  · obtain ⟨u, hu, hone, -, hthreads⟩ := threads_now
      (.cons h.thread (List.rel_map (fun _ _ hj => hj.thread) h.joining)) hq.nodup_threads
      hq'.nodup_threads
    cases hthreads with
    | cons hthread hrest => exact ⟨u, hu, fun hf => (hfresh hf).elim,
        renamed_of_alike h hone hthread (joining_alike h.joining hrest)⟩

end Now

/-- Of two processes that went on from one, the one has reset the fiber, and the other has made a
new one in its place. -/
structure Pooled (p : Process) (f : Nat) (stack : Memory.Stack) (block : Nat) (op op' : Op)
    (q q' : Process) : Prop where
  /-- What the one has recorded, latest first. -/
  trace : ∃ a, (a = .state .ready ∨ a = .truth true) ∧
    q.trace = .done op.label ⟨p.thread.current.getD 0, p.live⟩ a ::
      (Record.resetFiber f).logOn p.level p.trace
  /-- What the other has recorded. -/
  trace' : q'.trace =
    .done op'.label ⟨p.thread.current.getD 0, p.live⟩ (.created p.nextId .ready stack.size) ::
      (Record.releasedStackOf f).logOn p.level
        ((Record.releasedStack stack.size stack.block).logOn p.level
          ((Record.destroying f).logOn p.level
            ((Record.created p.nextId stack.size).logOn p.level p.trace)))
  live : q.live = p.live
  /-- From here on the same happens in both, but for ids and blocks. Of the blocks that came to
  stand for each other those that do so now are paired one to one, and that is all of them where
  nothing is granted twice. -/
  runs : ∃ w : Pairing, (stack.block, block) ∈ w ∧
    (∀ y ∈ w, y ≠ (stack.block, block) → y.2 = y.1) ∧ q.Renamed f p.nextId w q' ∧
    ∀ n, Match (fun r r' => ∃ u now, w ⊆ u ∧ now ⊆ u ∧ (p.memory.placement.Fresh → now = u) ∧
        r.Renamed f p.nextId now r' ∧
        Since (Event.Alike (.shift f p.nextId p.scripts) u) q.trace q'.trace r.trace r'.trace)
      (fun halt r halt' r' => halt.Alike (.shift f p.nextId p.scripts) halt' ∧ ∃ u, w ⊆ u ∧
        Since (Event.Alike (.shift f p.nextId p.scripts) u) q.trace q'.trace r.trace r'.trace)
      (q.run n) (q'.run n)

end Process

namespace Act
open Process

variable {p : Process} {s : String} {f block : Nat} {x : Fiber} {stack : Memory.Stack} {c : Script}
  {callback : List Op} {memory : Memory.System} {frame : Frame} {rest : List Task} {op : Op}

theorem step_doing : step (p.doing frame op rest) = perform op (p.takeUp frame rest) := by
  have hop : (p.doing frame op rest).thread.Performs op {frame with todo := .perform op :: rest}
    rest := ⟨rfl, rfl⟩
  exact (step_of_performs hop).trans rfl

/-- What an operation came to is told. -/
theorem tells {act : Act Answer} {q : Process} {P : Answer → Prop}
    (hact : act.Leads p (fun a r => P a ∧ r = q) fun _ _ => False)
    (h : ∀ g, q.thread.current = some g → q.thread.Alive g) (label : Label) :
    (do answer label (← act) : Act Unit).Leads p
      (fun _ r => ∃ a, P a ∧ r = q.report (.done label · a)) fun _ _ => False := by
  refine hact.bind fun a r ⟨ha, hr⟩ => ?_
  subst hr
  exact (answer_told h label a).mono (fun _ _ hr => ⟨a, ha, hr⟩) fun _ _ h => h

theorem step_renews (h : p.Retired s f x stack) (hc : c.ops? p.scripts = some callback)
    (hop : op.action.Resets s c) (halive : ∀ g, p.thread.current = some g → p.thread.Alive g)
    (frame : Frame) (rest : List Task) : step.Leads (p.doing frame op rest)
      (fun _ q => ∃ a, (a = .state .ready ∨ a = .truth true) ∧
        q = ((p.takeUp frame rest).renewed f x callback).report (.done op.label · a))
      fun _ _ => False := by
  have hretired : (p.takeUp frame rest).Retired s f x stack := {h with}
  have hget (g : Nat) : ((p.takeUp frame rest).renewed f x callback).thread.fibers.get? g = _ :=
    Thread.get?_renew
  have halive' (g : Nat) (hg : p.thread.current = some g) :
      ((p.takeUp frame rest).renewed f x callback).thread.Alive g := by
    rw [Thread.Alive, hget]
    split
    · rfl
    · exact halive g hg
  have hfiber := (hget f).trans (if_pos rfl)
  rw [Leads, step_doing]
  show (perform op).Leads _ _ _
  unfold perform
  obtain ⟨label, action⟩ := op
  change action.Resets s c at hop
  cases hop with
  | reset =>
    have hreset := reset_renews hretired hc fun _ y => .state y.state
    refine (tells hreset halive' label).mono (fun _ q hq => ?_) fun _ _ h => h
    obtain ⟨a, ⟨y, hy, ha⟩, hq⟩ := hq
    obtain rfl := Option.some.inj (hfiber.symm.trans hy)
    exact ⟨a, .inl ha, hq⟩
  | resetInPlace =>
    have hreset := reset_renews hretired hc fun x y =>
      .truth (x.stack.map (·.block) = y.stack.map (·.block))
    refine (tells hreset halive' label).mono (fun _ q hq => ?_) fun _ _ h => h
    obtain ⟨a, ⟨y, hy, ha⟩, hq⟩ := hq
    obtain rfl := Option.some.inj (hfiber.symm.trans hy)
    exact ⟨a, .inr (ha.trans (congrArg Answer.truth (decide_eq_true rfl))), hq⟩

theorem step_exchanges {supply : Option Supply} (h : p.Retired s f x stack) (hf : f < p.nextId)
    (hc : c.ops? p.scripts = some callback)
    (hop : op.action = .create s c stack.size x.scheduled supply)
    (hsupply : supply.getD (.source .heap) = .source .heap)
    (hsize : Memory.minStackSize ≤ stack.size)
    (hgrants : p.memory.allocate .heap stack.size = .ok (block, memory))
    (halive : ∀ g, p.thread.current = some g → g ≠ f ∧ p.thread.Alive g) (frame : Frame)
    (rest : List Task) : step.Leads (p.doing frame op rest) (fun _ q =>
        q = ((p.takeUp frame rest).exchanged s f x stack callback block memory).report
          (.done op.label · (.created p.nextId .ready stack.size)))
      fun _ _ => False := by
  have hretired : (p.takeUp frame rest).Retired s f x stack := {h with}
  have halive' (g : Nat) (hg : p.thread.current = some g) :
      ((p.takeUp frame rest).exchanged s f x stack callback block memory).thread.Alive g := by
    obtain ⟨hne, hg⟩ := halive g hg
    show ((Table.erase (Table.set _ _ _) f).get? g).isSome
    rw [Table.get?_erase, if_neg hne, Table.get?_set]
    split
    · rfl
    · exact hg
  rw [Leads, step_doing]
  show (perform op).Leads _ _ _
  unfold perform
  rw [hop]
  have hcreates := create_exchanges hretired hf hc hsupply hsize hgrants
  refine (tells hcreates halive' op.label).mono (fun _ q hq => ?_) fun _ _ h => h
  obtain ⟨a, rfl, hq⟩ := hq
  exact hq

end Act

open Process in
/-- **Pooling.** To reset a terminated fiber that nobody else has a handle of comes to the same as
to make a new fiber in its slot: one and the same happens from then on, but for the ids and for
where the stack lies. -/
theorem Scenario.reset_pools {sc : Scenario} {p : Process} {frame : Frame} {s : String}
    {f block : Nat} {x : Fiber} {stack : Memory.Stack} {memory : Memory.System} {c : Script}
    {callback : List Op} {op op' : Op} {supply : Option Supply} {rest : List Task}
    (hp : sc.Reaches p)
    (hcode : p.thread.running.code = .active frame) (hplain : ∀ task ∈ frame.todo, task.Plain)
    (h : p.Retired s f x stack) (hc : c.ops? p.scripts = some callback)
    (hop : op.action.Resets s c) (hop' : op'.action = .create s c stack.size x.scheduled supply)
    (hsupply : supply.getD (.source .heap) = .source .heap)
    (hgrants : p.memory.allocate .heap stack.size = .ok (block, memory))
    (hrest : ∀ task ∈ rest, task.Plain) : ∃ q q',
      Act.step (p.doing frame op rest) = .ok () q ∧ Act.step (p.doing frame op' rest) = .ok () q' ∧
      p.Pooled f stack block op op' q q' := by
  have hnames := hp.names_alive (List.mem_cons_self ..)
  have hsize := hp.known.roomy _ (List.mem_cons_self ..) f x stack h.fiber h.stack
  have hrenews := Act.step_renews h hc hop hnames.current
  have hexchanges := Act.step_exchanges h (hp.lawful.ordered.thread.below f x h.fiber) hc hop'
    hsupply hsize hgrants fun g hg => ⟨fun he => (h.sole hp).current (he ▸ hg), hnames.current g hg⟩
  obtain ⟨_, q, hq, a, ha, heq⟩ := (hrenews frame rest).answers
  obtain ⟨_, q', hq', heq'⟩ := (hexchanges frame rest).answers
  have hbooks {n : Nat} {op : Op} {q r : Process} (hq : Act.step (p.doing frame op rest) = .ok () q)
      (hr : q.run n = (none, r)) : r.Books :=
    have hdoing := hp.lawful.doing hcode hplain hrest
    (hp.books.doing hp.lawful.ordered.thread.below).run hdoing ((run_succ hq).trans hr)
  have halike := alike_pool q.trace q'.trace callback hp h hcode hplain hrest hgrants
  rw [show {(p.takeUp frame rest).renewed f x callback with trace := q.trace} = q from heq ▸ rfl,
    show {(p.takeUp frame rest).exchanged s f x stack callback block memory with
      trace := q'.trace} = q' from heq' ▸ rfl] at halike
  refine ⟨q, q', hq, hq', {
    trace := ⟨a, ha, by rw [heq]; rfl⟩
    trace' := by rw [heq']; rfl
    live := by rw [heq]; rfl
    runs := ⟨_, List.mem_cons_self .., fun y hy hne => ?_,
      renamed_of_alike halike (oneToOne_pool hp h.fiber h.stack hgrants) halike.thread
        halike.joining, fun n => ?_⟩ }⟩
  · exact diagonal_ownPairing _ y ((List.mem_cons.mp hy).resolve_left hne)
  · refine (run_shifted halike n).imp (fun r r' hr hr' ⟨u, hu, halike⟩ => ?_) fun _ _ _ _ h => h
    obtain ⟨now, hnow, hfresh, hrenamed⟩ :=
      renamed_now halike (hbooks hq hr).toStocked (hbooks hq' hr').toStocked
    refine ⟨u, now, hu, hnow, fun h => hfresh ?_, hrenamed, halike.trace⟩
    rw [(hp.lawful.doing hcode hplain hrest).run_placement ((run_succ hq).trans hr)]
    exact h

/-- The slot whose fiber an action gives another callback, and the callback. -/
def Action.resets? : Action → Option (String × Script)
  | .reset s c | .resetInPlace s c => some (s, c)
  | _ => none

theorem Action.of_resets? {action : Action} {s : String} {c : Script}
    (h : action.resets? = some (s, c)) : action.Resets s c := by
  unfold Action.resets? at h
  split at h <;> cases h
  · exact .reset
  · exact .resetInPlace

/-- The program uses a fiber a second time. -/
def Scenario.recycled : Scenario where
  level := .debug
  program := [
    .on "new" "f" (.create "f" (.inline []) 16384 false none),
    .on "resume" "f" (.resume "f"),
    .on "reset" "f" (.reset "f" (.inline [.on "yield" "f" .yield])),
    .on "resume" "f" (.resume "f"),
    .on "state" "f" (.state "f")]

/-- The fiber is about to be reset. -/
def Process.recycling : Process := (Scenario.recycled.process.run 8).2

open Process in
/-- To make another fiber instead would have come to the same. -/
theorem recycled_reset_pools : ∃ op op' frame rest stack block q q',
    Scenario.recycled.Reaches recycling ∧ recycling.doing frame op rest = recycling ∧
    Act.step recycling = .ok () q ∧ Act.step (recycling.doing frame op' rest) = .ok () q' ∧
    stack = ⟨65536, 16384, .source .heap⟩ ∧ recycling.Pooled 0 stack block op op' q q' := by
  have hp : Scenario.recycled.Reaches recycling := Scenario.reaches_run (by decide +kernel)
  have hcode : recycling.thread.performs?.any (fun e => e.1.action.resets?.any fun r =>
      decide (r.1 = "f") && (r.2.ops? recycling.scripts).isSome) = true := by decide +kernel
  obtain ⟨⟨op, frame, rest⟩, hperforms, hresets⟩ := (Option.any_eq_true ..).mp hcode
  obtain ⟨⟨s, c⟩, hresets, hf⟩ := (Option.any_eq_true ..).mp hresets
  obtain ⟨hs, hops⟩ := (Bool.and_eq_true ..).mp hf
  obtain rfl : s = "f" := of_decide_eq_true hs
  obtain ⟨callback, hc⟩ := Option.isSome_iff_exists.mp hops
  have hop := Thread.performs_of hperforms
  have hx : (recycling.thread.fibers.get? 0).any (fun x => x.state = .term ∧ x.handles = 1 ∧
      x.stack = some ⟨65536, 16384, .source .heap⟩) = true := by decide +kernel
  obtain ⟨x, hx, hretired⟩ := (Option.any_eq_true ..).mp hx
  obtain ⟨hterm, hone, hstack⟩ := of_decide_eq_true hretired
  have h : recycling.Retired "f" 0 x ⟨65536, 16384, .source .heap⟩ := {
    slot := by decide +kernel
    fiber := hx
    heap := rfl
    stack := hstack
    term := hterm
    handles := hone
    hub := by decide +kernel }
  have hok : (recycling.memory.allocate .heap 16384).isOk = true := by decide +kernel
  cases hgrants : recycling.memory.allocate .heap 16384 with
  | error cause =>
    rw [hgrants] at hok
    cases hok
  | ok granted =>
    have hrest := hp.lawful.ordered.rest_plain hop.code hop.todo
    have hplain : ∀ task ∈ frame.todo, task.Plain := by
      rw [hop.todo]
      exact List.forall_mem_cons.mpr ⟨trivial, hrest⟩
    have hsame : recycling.doing frame op rest = recycling := by
      have hframe : {frame with todo := .perform op :: rest} = frame := hop.todo ▸ rfl
      rw [doing, hframe, Thread.become, ← hop.code]
    have hop' : (Op.on "new" "f" (.create "f" c 16384 x.scheduled none)).action =
      .create "f" c 16384 x.scheduled none := rfl
    obtain ⟨q, q', hq, hq', hpooled⟩ := Scenario.reset_pools hp hop.code hplain h hc
      (Action.of_resets? hresets) hop' rfl hgrants hrest
    rw [hsame] at hq
    exact ⟨op, _, frame, rest, _, _, q, q', hp, hsame, hq, hq', rfl, hpooled⟩

end Fibers
