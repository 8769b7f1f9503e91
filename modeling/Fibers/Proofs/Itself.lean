import Fibers.Proofs.Conserve
import Fibers.Proofs.Parallel

/-! A process is like itself.

Under a variation that leaves the fibers their names, code, fibers and threads are like themselves,
as long as their scripts are: `Variation.Plain` says when that is so. A thread names the fibers that
it has, and what its code and its slots name is among them (`Thread.Orderly.names_alive`), so it is
enough that those keep their names. -/
namespace Fibers

/-- The fibers that a piece of code names. -/
def Code.names : Code → List Nat
  | .entry f | .spent f => [f]
  | code => code.handles

/-- Operations and flags are like themselves. -/
structure Variation.Plain (v : Variation) : Prop where
  ops : ∀ op, Op.Alike v op op
  flags : ∀ flag, v.flags flag flag

/-- What is gone through to its end may be a callback. -/
theorem Script.Alike.answers {v : Variation} {c c' : Script} (h : c.Alike v c') :
    c.Answers v c' := by
  cases h with
  | ops h h' hops => exact .ops h h' hops
  | named => exact .named _

theorem rel_self {α : Type} {R : α → α → Prop} {a : Option α} (h : ∀ b, a = some b → R b b) :
    Option.Rel R a a := by
  cases a with
  | none => exact .none
  | some b => exact .some (h b rfl)

/-! ### Scripts that stay -/

/-- Flags may stay what they are, and no script leaves off. -/
structure Variation.Whole (v : Variation) : Prop where
  flags : ∀ flag, v.flags flag flag
  unbroken : ∀ name, ¬v.broken name

section Whole

variable {v : Variation}

mutual

theorem Op.alike_self (hv : v.Whole) : ∀ op, Op.Alike v op op
  | .mk label action => .mk label (Action.alike_self hv action)

theorem Action.alike_self (hv : v.Whole) : ∀ action, Action.Alike v action action
  | .create s c size flag supply =>
    .create s size supply (Script.alike_self hv c).answers (hv.flags flag)
  | .reset s c => .reset s (Script.alike_self hv c).answers
  | .resetInPlace s c => .resetInPlace s (Script.alike_self hv c).answers
  | .runThread c => .runThread (Script.alike_self hv c)
  | .times n c => .times n (Script.alike_self hv c)
  | .untilTerm s c => .untilTerm s (Script.alike_self hv c)
  | .whenState s state c d => .whenState s state (Script.alike_self hv c) (Script.alike_self hv d)
  | .nothing | .resume _ | .yield | .yieldOf _ | .current _ | .clone .. | .drop _ | .hold _
  | .state _ | .view _ | .inspect _ | .same .. | .setHub _ | .clearHub | .hub _ | .currentId
  | .panic _ | .note | .add .. | .install _ | .readEnvironment | .stackSize | .setEnvironment _
  | .makeTally .. | .readTally _ | .makeStack .. | .freeStack _ => .plain trivial

theorem Script.alike_self (hv : v.Whole) : ∀ c, Script.Alike v c c
  | .inline ops => .ops rfl rfl (Op.allAlike_self hv ops)
  | .named name => .named (hv.unbroken name)

theorem Op.allAlike_self (hv : v.Whole) : ∀ ops, List.Forall₂ (Op.Alike v) ops ops
  | [] => .nil
  | op :: rest => .cons (Op.alike_self hv op) (Op.allAlike_self hv rest)

end

theorem Variation.Whole.plain (hv : v.Whole) : v.Plain := ⟨Op.alike_self hv, hv.flags⟩

theorem Variation.Whole.fit (hv : v.Whole) (hscripts : v.scripts' = v.scripts) : v.Fit := by
  refine ⟨fun name => ?_, fun name _ => ?_⟩ <;> rw [hscripts]
  · exact rel_self fun ops _ => .inl (Op.allAlike_self hv ops)
  · exact rel_self fun ops _ => Op.allAlike_self hv ops

end Whole

/-! ### Code, fibers and threads -/

section Code

variable {v : Variation} (hv : v.Plain) {w : Pairing}

include hv

theorem ops_alike_self (ops : List Op) : List.Forall₂ (Op.Alike v) ops ops :=
  List.forall₂_same.mpr fun op _ => hv.ops op

theorem Task.alike_self {task : Task} (h : ∀ f ∈ task.handles, v.id f = f) :
    Task.Alike v task task := by
  cases task with
  | perform op => exact .perform (hv.ops op)
  | again n body => exact .again n (ops_alike_self hv body)
  | untilTerm n s body => exact .untilTerm n s (ops_alike_self hv body)
  | resumed label f =>
    have halike := Task.Alike.resumed (v := v) label f
    rwa [h f (List.mem_singleton_self f)] at halike
  | yielded label f =>
    have halike := Task.Alike.yielded (v := v) label f
    cases f with
    | none => exact halike
    | some f =>
      rwa [Option.map_some, h f (List.mem_singleton_self f)] at halike

omit hv in
theorem Origin.rename_self {origin : Origin} (h : ∀ f ∈ origin.handles, v.id f = f) :
    origin.rename v = origin := by
  cases origin with
  | program => rfl
  | callback f => exact congrArg Origin.callback (h f (List.mem_singleton_self f))

omit hv in
theorem map_self {l : List Nat} (h : ∀ f ∈ l, v.id f = f) : l.map v.id = l :=
  (List.map_congr_left h).trans (List.map_id' l)

theorem Code.alike_self {code : Code} (h : ∀ f ∈ code.names, v.id f = f) : code.Alike v code := by
  cases code with
  | opening program => exact .opening (ops_alike_self hv program)
  | entry f =>
    have halike := Code.Alike.entry (v := v) f
    rwa [h f (List.mem_singleton_self f)] at halike
  | spent f =>
    have halike := Code.Alike.spent (v := v) f
    rwa [h f (List.mem_singleton_self f)] at halike
  | active frame =>
    have hnames (f : Nat) (hf : f ∈ frame.origin.handles ++ frame.held ++
        frame.todo.flatMap Task.handles) : v.id f = f := h f hf
    simp only [List.mem_append, List.mem_flatMap] at hnames
    refine .active ⟨?_, ?_, .inl ?_⟩
    · exact (Origin.rename_self fun f hf => hnames f (.inl (.inl hf))).symm
    · exact (map_self fun f hf => hnames f (.inl (.inr hf))).symm
    · exact List.forall₂_same.mpr fun task htask =>
        Task.alike_self hv fun f hf => hnames f (.inr ⟨task, htask, hf⟩)
  | leaving origin held outcome =>
    have hnames (f : Nat) (hf : f ∈ origin.handles ++ held) : v.id f = f := h f hf
    simp only [List.mem_append] at hnames
    have halike := Code.Alike.leaving (v := v) origin held (.same origin outcome)
    rwa [Origin.rename_self fun f hf => hnames f (.inl hf),
      map_self fun f hf => hnames f (.inr hf)] at halike
  | returned origin outcome =>
    have halike := Code.Alike.returned (v := v) origin (.same origin outcome)
    rwa [Origin.rename_self h] at halike

theorem Context.alike_self {k : Context} (h : ∀ f ∈ k.code.names, v.id f = f) : k.Alike v k :=
  ⟨rfl, Code.alike_self hv h⟩

theorem Fiber.alike_self {x : Fiber} (hstack : ∀ s, x.stack = some s → (s.block, s.block) ∈ w)
    (hcontext : ∀ k, x.context = some k → ∀ f ∈ k.code.names, v.id f = f) : x.Alike v w x where
  state := rfl
  stack := rel_self fun s hs => ⟨hstack s hs, rfl, rfl⟩
  context := rel_self fun k hk => Context.alike_self hv (hcontext k hk)
  callback := rel_self fun ops _ => .inl (ops_alike_self hv ops)
  scheduled := hv.flags _
  handles := rfl

end Code

namespace Thread

/-- What the code of a thread names is alive on it. -/
structure NamesAlive (t : Thread) : Prop where
  running : ∀ f ∈ t.running.code.names, t.Alive f
  resting : ∀ g x k, t.fibers.get? g = some x → x.context = some k → ∀ f ∈ k.code.names, t.Alive f
  slots : ∀ s f, t.slots.get? s = some f → t.Alive f
  current : ∀ f, t.current = some f → t.Alive f
  root : ∀ f, t.root = some f → t.Alive f

theorem get?_of_dead {t : Thread} {f : Nat} (h : ¬t.Alive f) : t.fibers.get? f = none :=
  Option.not_isSome_iff_eq_none.mp h

theorem named_self {v : Variation} {f : Option Nat} (h : ∀ g, f = some g → v.id g = g) :
    f.map v.id = f := by
  cases f with
  | none => rfl
  | some g => exact congrArg some (h g rfl)

/-- A thread whose fibers keep their names is like itself. -/
theorem alike_self {v : Variation} (hv : v.Plain) {w : Pairing} {t : Thread} (h : t.NamesAlive)
    (halive : ∀ f, t.Alive f → v.id f = f) (hhub : v.hubs → ∀ f, t.hub = some f → v.id f = f)
    (hstacks : ∀ stack ∈ t.owned, (stack.block, stack.block) ∈ w) : t.Alike v w t where
  fibers f := by
    by_cases hf : t.Alive f
    · rw [halive f hf]
      exact rel_self fun x hx => Fiber.alike_self hv
        (fun s hs => hstacks s (mem_owned.mpr ⟨_, .fiber hx hs⟩))
        fun k hk g hg => halive g (h.resting f x k hx hk g hg)
    · have hnot : ¬t.Alive (v.id f) := fun hg => hf (v.injective (halive _ hg) ▸ hg)
      rw [get?_of_dead hf, get?_of_dead hnot]
      exact .none
  others f' hf' := get?_of_dead fun hf => hf' f' (halive f' hf)
  current := (named_self fun f hf => halive f (h.current f hf)).symm
  root := (named_self fun f hf => halive f (h.root f hf)).symm
  hub hhubs := (named_self (hhub hhubs)).symm
  slots s := (named_self fun f hf => halive f (h.slots s f hf)).symm
  counters := rfl
  tallies := rfl
  tallyNames := rfl
  kept name := rel_self fun stack hs => ⟨hstacks stack (mem_owned.mpr ⟨_, .kept hs⟩), rfl, rfl⟩
  running := ⟨rfl, Code.alike_self hv fun f hf => halive f (h.running f hf)⟩

variable {t : Thread} {n f g : Nat} {x : Fiber} {k : Context}

theorem alive_of_get? (hx : t.fibers.get? f = some x) : t.Alive f :=
  Option.isSome_iff_exists.mpr ⟨x, hx⟩

/-- A fiber that someone keeps a handle of is alive. -/
theorem Orderly.kept_alive (h : t.Orderly n) (hf : 0 < t.handlesOf f) : t.Alive f :=
  have hcounted : t.Counted [] := h.toCounted
  have ⟨_, hx⟩ := hcounted.alive (Nat.lt_of_lt_of_le hf (Nat.le_add_right ..))
  alive_of_get? hx

theorem resting_handle (hx : t.fibers.get? g = some x) (hk : x.context = some k)
    (hf : f ∈ k.code.handles) : 0 < t.handlesOf f := by
  have hle := Table.le_total (Fiber.weigh fun k => k.code.handles.count f) hx
  have := List.count_pos_iff.mpr hf
  rw [Fiber.weigh, hk, Option.elim_some] at hle
  show 0 < _ + _ + (_ + _ + _)
  omega

/-- Whatever the code of a thread names is alive, between steps. -/
theorem Orderly.names_alive (h : t.Orderly n)
    (hspent : ∀ f x k g, t.fibers.get? f = some x → x.context = some k → k.code = .spent g →
      g = f) : t.NamesAlive where
  running f hf := by
    cases hcode : t.running.code with
    | entry g =>
      rw [hcode] at hf
      obtain rfl := List.mem_singleton.mp hf
      obtain ⟨-, x, hx, -⟩ := h.toSteady.current_running (h.starting f hcode)
      exact alive_of_get? hx
    | spent g => exact (h.awake.spent g hcode).elim
    | _ =>
      refine h.kept_alive (running_handle (List.count_pos_iff.mpr ?_))
      rw [hcode] at hf ⊢
      exact hf
  resting g x k hx hk f hf := by
    cases hcode : k.code with
    | entry e =>
      rw [hcode] at hf
      obtain rfl := List.mem_singleton.mp hf
      exact h.entry g x k f hx hk hcode ▸ alive_of_get? hx
    | spent e =>
      rw [hcode] at hf
      obtain rfl := List.mem_singleton.mp hf
      exact hspent g x k f hx hk hcode ▸ alive_of_get? hx
    | _ =>
      refine h.kept_alive (resting_handle hx hk ?_)
      rw [hcode] at hf ⊢
      exact hf
  slots s f hs := h.kept_alive (slot_handle hs)
  current f hc := by
    obtain ⟨-, x, hx, -⟩ := h.toSteady.current_running hc
    exact alive_of_get? hx
  root f hr := by
    obtain ⟨x, hx⟩ := h.toCounted.root_alive hr
    exact alive_of_get? hx

end Thread

/-! ### Names that stay -/

/-- The fibers keep their names. -/
def Variation.Faithful (v : Variation) : Prop := ∀ f, v.id f = f

section Faithful

variable {v : Variation} (hv : v.Faithful) {w : Pairing}

include hv

theorem Violation.rename_faithful (violation : Violation) : violation.rename v = violation := by
  cases violation <;> simp [Violation.rename, hv _]

theorem Record.rename_faithful (record : Record) : record.rename v = record := by
  cases record <;> simp [Record.rename, hv _, Violation.rename_faithful hv]

theorem Status.eq_of_faithful {status status' : Status} (h : status.Alike v status') :
    status' = status := by
  obtain ⟨current, live⟩ := status
  obtain ⟨current', live'⟩ := status'
  obtain ⟨hcurrent, rfl⟩ := h
  rcases hcurrent with h | ⟨rfl, rfl⟩
  · exact congrArg (Status.mk · live') (h.trans (hv _))
  · rfl

theorem Halt.eq_of_faithful {halt halt' : Halt} (h : halt.Alike v halt') : halt' = halt := by
  cases h with
  | ended h => rw [Status.eq_of_faithful hv h]
  | panicked => rfl
  | aborted violation => rw [Violation.rename_faithful hv]
  | fault fault => cases fault <;> simp [Fault.rename, hv _]

omit hv in
theorem Memory.Stack.Alike.eq {stack stack' : Memory.Stack} (hw : w.Diagonal)
    (h : stack.Alike w stack') : stack' = stack := by
  obtain ⟨block', size', allocator'⟩ := stack'
  obtain ⟨hblock, rfl, rfl⟩ := h
  obtain rfl : block' = stack.block := hw _ hblock
  rfl

theorem Record.eq_of_faithful (hw : w.Diagonal) {record record' : Record}
    (h : record.Alike v w record') : record' = record := by
  cases h with
  | renamed => exact Record.rename_faithful hv _
  | @releasedStack size block block' h =>
    obtain rfl : block' = block := hw _ h
    rfl

/-- Nothing shows of a fiber that differs but its flag. -/
theorem Fiber.View.eq_of_faithful (hw : w.Diagonal) {x x' : Fiber.View} (h : x.Alike v w x') :
    v.flags x.scheduled x'.scheduled ∧ x' = {x with scheduled := x'.scheduled} := by
  obtain ⟨f', state', stack', flag'⟩ := x'
  obtain ⟨rfl, rfl, hstack, hflag⟩ := h
  obtain rfl : stack' = x.stack := by
    cases hs : x.stack <;> rw [hs] at hstack <;> cases hstack
    · rfl
    · next h => rw [h.eq hw]
  exact ⟨hflag, by rw [hv]⟩

/-- The same is answered as far as it does not depend on flags. -/
theorem Answer.eq_of_faithful (hw : w.Diagonal) {α : Type} {show? : Answer → α}
    (hview : ∀ (x : Fiber.View) flag, v.flags x.scheduled flag →
      show? (.view {x with scheduled := flag}) = show? (.view x))
    (hinspection : ∀ (x : Fiber.View) flag, v.flags x.scheduled flag →
      show? (.inspection {x with scheduled := flag}) = show? (.inspection x))
    {a a' : Answer} (h : a.Alike v w a') : show? a' = show? a := by
  cases h with
  | same => rfl
  | created | found => rw [hv]
  | view h =>
    obtain ⟨hflag, hx⟩ := Fiber.View.eq_of_faithful hv hw h
    rw [hx, hview _ _ hflag]
  | inspection h =>
    obtain ⟨hflag, hx⟩ := Fiber.View.eq_of_faithful hv hw h
    rw [hx, hinspection _ _ hflag]
  | id h =>
    rcases h with rfl | ⟨rfl, rfl⟩
    · rw [hv]
    · rfl
  | hub f => rw [show v.id = fun f => f from funext hv, Option.map_id']
  | stack h => rw [h.eq hw]

/-- The same happens where flags are the same. -/
theorem Event.eq_of_faithful (hflags : ∀ flag flag', v.flags flag flag' → flag' = flag)
    (hw : w.Diagonal) {event event' : Event} (h : event.Alike v w event') : event' = event := by
  cases h with
  | logged h => rw [Record.eq_of_faithful hv hw h]
  | began h => rw [Status.eq_of_faithful hv h]
  | ended h => rw [Status.eq_of_faithful hv h]
  | done h ha =>
    rw [Status.eq_of_faithful hv h]
    congr 1
    refine @Answer.eq_of_faithful v hv w hw Answer id (fun x flag hflag => ?_)
      (fun x flag hflag => ?_) _ _ ha <;> rw [hflags _ _ hflag]

end Faithful

open Process in
/-- The end of a fiber's code rests in no other fiber, at any time. -/
theorem Scenario.Reaches.resigned {s : Scenario} {p : Process} (h : s.Reaches p) : p.Resigned := by
  obtain ⟨n, hrun⟩ := h
  have hboth : p.Lawful ∧ p.Resigned := by
    refine run_induction (P := fun p => p.Lawful ∧ p.Resigned) (fun p q ⟨hp, h⟩ hq => ?_)
      ⟨s.lawful, fun f x k g hx => ?_⟩ hrun
    · obtain ⟨hturn, hq⟩ := hp.step hq
      exact ⟨hq, h.turn hp.ordered hturn⟩
    · obtain ⟨t, ht, hx⟩ := hx
      obtain rfl := List.mem_singleton.mp ht
      cases hx
  exact hboth.2

/-- Whatever the code of a thread names is alive, at any time. -/
theorem Scenario.Reaches.names_alive {s : Scenario} {p : Process} (h : s.Reaches p) {t : Thread}
    (ht : t ∈ p.threads) : t.NamesAlive :=
  (h.lawful.ordered t ht).names_alive fun f x k g hx hk hcode =>
    h.resigned f x k g ⟨t, List.mem_append_left _ ht, hx⟩ hk hcode

namespace Process

/-- The blocks of all stacks, each standing for itself. -/
def ownPairing (p : Process) : Pairing := p.blocks.map fun block => (block, block)

theorem diagonal_ownPairing (p : Process) : p.ownPairing.Diagonal := by
  intro x hx
  obtain ⟨block, -, rfl⟩ := List.mem_map.mp hx
  rfl

theorem mem_ownPairing {p : Process} {t : Thread} {stack : Memory.Stack} (ht : t ∈ p.everyThread)
    (hs : stack ∈ t.owned) : (stack.block, stack.block) ∈ p.ownPairing :=
  List.mem_map_of_mem (f := fun block => (block, block)) (mem_blocks ht hs)

end Process

theorem Pairing.Diagonal.oneToOne {w : Pairing} (h : w.Diagonal) : w.OneToOne := by
  intro x hx y hy
  rw [h x hx, h y hy]

open Process in
/-- Blocks of stacks were granted. -/
theorem Scenario.Reaches.used {s : Scenario} {p : Process} (h : s.Reaches p) :
    ∀ x ∈ p.ownPairing, p.memory.Used x.1 := by
  intro x hx
  obtain ⟨block, hblock, rfl⟩ := List.mem_map.mp hx
  obtain ⟨r, hr, hspans⟩ := h.books.toStocked.spans hblock
  exact ⟨r, Memory.reserved_subset _ hr, hspans⟩

end Fibers
