import Fibers.Proofs.Create
import Fibers.Proofs.Keep
import Fibers.Proofs.Tandem

/-! The default stack size.

Of what a process does, three things concern the default stack size: its environment changes, a
configuration is installed, and the default is used, which the making of a fiber without a size
does too. What the default is follows from these alone, whoever does them: it is what was installed
last, or else what the environment gave when the default was first used. The process keeps no more
than one number, which is missing until the first of the two (`Act.step_tuned`). -/
namespace Fibers
namespace Config

/-- What concerns the default stack size. -/
inductive Tuning
  | environment (environment : Environment)
  | install (config : Config)
  | use

/-- The environment that there is now. -/
def Tuning.environment? : Tuning → Option Environment
  | .environment given => some given
  | _ => none

/-- The size that was installed, if it may be. -/
def Tuning.installed? : Tuning → Option Nat
  | .install config => if config.stackSize = 0 then none else some config.stackSize
  | _ => none

def Tuning.isUse : Tuning → Bool
  | .use => true
  | _ => false

/-- The size that an environment gives. -/
def Environment.size (environment : Environment) : Nat :=
  ((environment.bind Setting.text?).bind Text.size?).getD Config.default.stackSize

/-- The text that an environment gives and that is no size. -/
def Environment.invalid? (environment : Environment) : Option String :=
  (environment.bind Setting.text?).filter fun value => (Text.size? value).isNone

/-! ### Histories

A history is what concerned the default stack size, in order, from a fresh environment on. -/

/-- The environment after all that. -/
def current (fresh : Environment) (history : List Tuning) : Environment :=
  (history.filterMap Tuning.environment?).getLast?.getD fresh

/-- What was installed last. -/
def installed? (history : List Tuning) : Option Nat :=
  (history.filterMap Tuning.installed?).getLast?

def used (history : List Tuning) : Bool := history.any Tuning.isUse

/-- What came before the first use. -/
def untilUse (history : List Tuning) : List Tuning := history.takeWhile (!·.isUse)

/-- The default stack size: what was installed last, or what the environment gives at the first
use. -/
def defaultSize (fresh : Environment) (history : List Tuning) : Nat :=
  (installed? history).getD (current fresh (untilUse history)).size

/-- The default stack size once it is settled. -/
def settled? (fresh : Environment) (history : List Tuning) : Option Nat :=
  if (installed? history).isSome ∨ used history then some (defaultSize fresh history) else none

/-- What tells that the first use, before anything was installed, met a text that is no size. -/
def warning? (fresh : Environment) (history : List Tuning) : Option Record :=
  if used history ∧ installed? (untilUse history) = none then
    (current fresh (untilUse history)).invalid?.map fun value =>
      .fallback (.invalidConfig stackSizeKey value) Config.default.stackSize
  else none

variable {fresh : Environment} {history : List Tuning} {tuning : Tuning}

theorem current_snoc : current fresh (history ++ [tuning]) =
    tuning.environment?.getD (current fresh history) := by
  unfold current
  cases h : tuning.environment? <;> simp [List.filterMap_append, h]

theorem installed_snoc : installed? (history ++ [tuning]) =
    tuning.installed?.or (installed? history) := by
  unfold installed?
  cases h : tuning.installed? <;> simp [List.filterMap_append, h]

theorem used_snoc : used (history ++ [tuning]) = (used history || tuning.isUse) := by
  simp [used]

/-- What came before the first use stays the same from then on. -/
theorem untilUse_used (h : used history = true) :
    untilUse (history ++ [tuning]) = untilUse history := by
  induction history with
  | nil => cases h
  | cons first rest ih =>
    rw [List.cons_append, untilUse, untilUse, List.takeWhile_cons, List.takeWhile_cons]
    cases hfirst : first.isUse with
    | true => rfl
    | false =>
      rw [used, List.any_cons, hfirst, Bool.false_or] at h
      exact congrArg (first :: ·) (ih h)

theorem untilUse_unused (h : used history = false) : untilUse history = history := by
  refine List.takeWhile_eq_self_iff.mpr fun t ht => ?_
  simpa using List.any_eq_false.mp h t ht

/-- A use that comes last changes nothing about what came before the first. -/
theorem untilUse_use : untilUse (history ++ [.use]) = untilUse history := by
  cases h : used history with
  | true => exact untilUse_used h
  | false =>
    rw [untilUse_unused h]
    refine (List.takeWhile_append_of_pos fun t ht => ?_).trans (List.append_nil _)
    simpa using List.any_eq_false.mp h t ht

theorem size_pos (environment : Environment) : 0 < environment.size := by
  unfold Environment.size
  cases hsize : (environment.bind Setting.text?).bind Text.size? with
  | none => decide
  | some n =>
    obtain ⟨value, -, hvalue⟩ := Option.bind_eq_some_iff.mp hsize
    have hvalid := (Option.filter_eq_some_iff.mp hvalue).2
    simp only [Bool.and_eq_true, decide_eq_true_eq] at hvalid
    exact hvalid.1

theorem defaultSize_pos (fresh : Environment) (history : List Tuning) :
    0 < defaultSize fresh history := by
  unfold defaultSize
  cases hinstalled : installed? history with
  | none => exact size_pos _
  | some n =>
    obtain ⟨tuning, -, htuning⟩ := List.mem_filterMap.mp (List.mem_of_getLast? hinstalled)
    cases tuning with
    | install config =>
      obtain ⟨hne, rfl⟩ : config.stackSize ≠ 0 ∧ config.stackSize = n := by
        simpa [Tuning.installed?] using htuning
      exact Nat.pos_of_ne_zero hne
    | _ => cases htuning

theorem size_invalid {environment : Environment} {value : String}
    (h : environment.invalid? = some value) : environment.size = Config.default.stackSize := by
  obtain ⟨htext, hvalue⟩ := Option.filter_eq_some_iff.mp h
  unfold Environment.size
  rw [htext, Option.bind_some, Option.isNone_iff_eq_none.mp hvalue]
  rfl

/-- An environment configures a process, unless it gives a text that is no size. -/
theorem ofEnvironment_eq (environment : Environment) : ofEnvironment environment =
    match environment.invalid? with
    | some value => .error (.invalidConfig stackSizeKey value)
    | none => .ok ⟨environment.size⟩ := by
  have hlookup : environment.lookup (variableName stackSizeKey) = environment.bind Setting.text? :=
    if_pos rfl
  unfold ofEnvironment ofLookup Environment.invalid? Environment.size
  simp only [hlookup, Id.run, pure, bind]
  cases environment.bind Setting.text? with
  | none => rfl
  | some value =>
    unfold parseSize
    cases hsize : Text.size? value <;> simp [hsize, Except.map, Option.filter_some]

/-! ### What comes next -/

theorem settled_none (h : settled? fresh history = none) :
    installed? history = none ∧ used history = false := by
  unfold settled? at h
  split at h
  · cases h
  · next hnot =>
    rw [not_or] at hnot
    exact ⟨Option.not_isSome_iff_eq_none.mp hnot.1, Bool.eq_false_iff.mpr hnot.2⟩

theorem settled_some {n : Nat} (h : settled? fresh history = some n) :
    n = defaultSize fresh history ∧ ((installed? history).isSome ∨ used history = true) := by
  unfold settled? at h
  split at h
  · next hor => exact ⟨(Option.some.inj h).symm, hor⟩
  · cases h

theorem warning_snoc (h : tuning.isUse = false ∨ used history = true) :
    warning? fresh (history ++ [tuning]) = warning? fresh history := by
  unfold warning?
  rw [used_snoc]
  cases hused : used history with
  | true => rw [untilUse_used hused, Bool.true_or]
  | false => rw [h.resolve_right (by simp [hused]), Bool.or_false]; simp

theorem warning_unused (h : used history = false) : warning? fresh history = none :=
  if_neg fun hused => by simp [h] at hused

/-- The first use warns of a text that is no size, unless a size was installed. -/
theorem warning_use (h : used history = false) (hnone : installed? history = none) :
    warning? fresh (history ++ [.use]) = (current fresh history).invalid?.map fun value =>
      .fallback (.invalidConfig stackSizeKey value) Config.default.stackSize := by
  unfold warning?
  rw [used_snoc, untilUse_use, untilUse_unused h, hnone]
  exact if_pos ⟨Bool.or_true _, rfl⟩

/-- A use after that warns of nothing. -/
theorem warning_settled {n : Nat} (h : settled? fresh history = some n) :
    warning? fresh (history ++ [.use]) = warning? fresh history := by
  cases hused : used history with
  | true => exact warning_snoc (.inr hused)
  | false =>
    have hinstalled := (settled_some h).2.resolve_right (by simp [hused])
    rw [warning_unused hused]
    unfold warning?
    rw [untilUse_use, untilUse_unused hused]
    exact if_neg fun hnone => by simp [hnone.2] at hinstalled

/-- Once the default was used, or installed, the environment does not count any more. -/
theorem settled_environment (environment : Environment) :
    settled? fresh (history ++ [.environment environment]) = settled? fresh history := by
  have hinstalled : installed? (history ++ [.environment environment]) = installed? history :=
    installed_snoc
  have hused : used (history ++ [.environment environment]) = used history := by
    rw [used_snoc]
    exact Bool.or_false _
  unfold settled? defaultSize
  rw [hinstalled, hused]
  cases h : used history with
  | true => rw [untilUse_used h]
  | false => cases installed? history <;> simp

theorem settled_install {config : Config} (h : config.stackSize ≠ 0) :
    settled? fresh (history ++ [.install config]) = some config.stackSize := by
  have hinstalled : installed? (history ++ [.install config]) = some config.stackSize := by
    rw [installed_snoc, Tuning.installed?, if_neg h]
    rfl
  unfold settled? defaultSize
  rw [hinstalled]
  rfl

/-- What may not be installed changes nothing. -/
theorem settled_refused {config : Config} (h : config.stackSize = 0) :
    settled? fresh (history ++ [.install config]) = settled? fresh history := by
  have hinstalled : installed? (history ++ [.install config]) = installed? history := by
    rw [installed_snoc, Tuning.installed?, if_pos h]
    rfl
  have hused : used (history ++ [.install config]) = used history := by
    rw [used_snoc]
    exact Bool.or_false _
  unfold settled? defaultSize
  rw [hinstalled, hused]
  cases h : used history with
  | true => rw [untilUse_used h]
  | false => cases installed? history <;> simp

theorem settled_use : settled? fresh (history ++ [.use]) = some (defaultSize fresh history) := by
  have hinstalled : installed? (history ++ [.use]) = installed? history := installed_snoc
  have hused : used (history ++ [.use]) = true := by
    rw [used_snoc]
    exact Bool.or_true _
  unfold settled? defaultSize
  rw [hinstalled, hused, untilUse_use]
  exact if_pos (.inr rfl)

end Config

/-- The warning of a default stack size that was not valid. -/
def Event.warning? : Event → Option Record
  | .logged record => if record.settles then some record else none
  | _ => none

namespace Process
open Config

/-- What an operation of the process has to do with the default stack size. A fiber is made only if
there is such a callback and such an allocator. -/
def concerns? (p : Process) (op : Op) : Option Tuning :=
  match op.action with
  | .setEnvironment environment => some (.environment environment)
  | .install config => some (.install config)
  | .stackSize => some .use
  | .create _ callback size _ supply =>
    if size = 0 ∧ (callback.ops? p.scripts).isSome ∧
      (p.thread.supplier? (supply.getD (.source .heap))).isSome then some .use else none
  | _ => none

/-- What the next step has to do with it. -/
def tuning? (p : Process) : Option Tuning := p.thread.performs?.bind fun (op, _) => p.concerns? op

/-- What concerns the default stack size in so many steps, the one that halts included. -/
def tunings : Nat → Process → List Tuning
  | 0, _ => []
  | n + 1, p =>
    p.tuning?.toList ++
      match Act.step p with
      | .ok _ q => tunings n q
      | .error .. => []

/-- The configuration of a process. -/
structure Configured (level : Level) (environment : Environment) (size : Option Nat)
    (warnings : List Record) (p : Process) : Prop where
  level : p.level = level
  environment : p.environment = environment
  size : p.stackSize = size
  warnings : p.trace.filterMap Event.warning? = warnings

/-- The configuration is what follows from a history. -/
def Tuned (level : Level) (fresh : Environment) (history : List Tuning) (p : Process) : Prop :=
  p.Configured level (current fresh history) (settled? fresh history)
    (if Level.warn ≤ level then (warning? fresh history).toList else [])

variable {level : Level} {environment fresh : Environment} {size : Option Nat}
  {warnings : List Record} {history : List Tuning} {p q : Process}

theorem lasting_configured :
    Lasting True False True (Configured level environment size warnings) where
  rest h hlevel htrace hsame _ _ := by
    obtain ⟨hsize, henvironment⟩ := hsame.resolve_right id
    exact ⟨hlevel.trans h.level, henvironment.trans h.environment, hsize.trans h.size,
      htrace ▸ h.warnings⟩
  before _ h := ⟨h.level, h.environment, h.size, h.warnings⟩
  hold _ h := ⟨h.level, h.environment, h.size, h.warnings⟩
  logged record hrecord h := by
    refine ⟨h.level, h.environment, h.size, ?_⟩
    rw [List.filterMap_cons, Event.warning?, hrecord.resolve_right id]
    exact h.warnings
  reported event hevent h := by
    refine ⟨h.level, h.environment, h.size, ?_⟩
    rw [List.filterMap_cons]
    cases event with
    | logged => cases hevent
    | _ => exact h.warnings

/-- The process with its default stack size settled. -/
def settle (p : Process) : Process :=
  match p.stackSize with
  | some _ => p
  | none =>
    {p with
      stackSize := some p.environment.size
      trace := match p.environment.invalid? with
        | some value => (Record.fallback (.invalidConfig stackSizeKey value)
            Config.default.stackSize).logOn p.level p.trace
        | none => p.trace}

/-- The default stack size as it is or would be settled. -/
theorem defaultSize_cases (p : Process) :
    p.defaultSize = p.stackSize.getD p.environment.size := by
  unfold defaultSize
  cases p.stackSize with
  | some n => rfl
  | none =>
    dsimp only
    rw [ofEnvironment_eq]
    cases hinvalid : p.environment.invalid? with
    | none => rfl
    | some value => exact (size_invalid hinvalid).symm

theorem Tuned.defaultSize_eq (h : p.Tuned level fresh history) :
    p.defaultSize = Config.defaultSize fresh history := by
  rw [defaultSize_cases, h.size, h.environment]
  cases hsettled : settled? fresh history with
  | some n => exact (settled_some hsettled).1
  | none =>
    obtain ⟨hinstalled, hused⟩ := settled_none hsettled
    rw [Config.defaultSize, hinstalled, untilUse_unused hused]

theorem Tuned.settle (h : p.Tuned level fresh history) :
    p.settle.Tuned level fresh (history ++ [.use]) := by
  have henvironment : current fresh (history ++ [.use]) = current fresh history := current_snoc
  have hdefault := h.defaultSize_eq
  rw [defaultSize_cases] at hdefault
  unfold Tuned
  rw [henvironment, settled_use, Process.settle]
  cases hsize : p.stackSize with
  | some n =>
    rw [hsize] at hdefault
    rw [warning_settled (h.size.symm.trans hsize)]
    exact ⟨h.level, h.environment, hsize.trans (congrArg some hdefault), h.warnings⟩
  | none =>
    obtain ⟨hinstalled, hused⟩ := settled_none (h.size.symm.trans hsize)
    rw [hsize] at hdefault
    have hnothing := h.warnings
    rw [warning_unused hused, Option.toList_none, ite_self] at hnothing
    rw [warning_use hused hinstalled, ← h.environment]
    refine ⟨h.level, rfl, congrArg some hdefault, ?_⟩
    dsimp only
    cases p.environment.invalid? with
    | none => simpa using hnothing
    | some value =>
      show List.filterMap _ (if Level.warn ≤ p.level then _ else _) = _
      rw [h.level]
      split
      · rw [List.filterMap_cons, hnothing]
        rfl
      · exact hnothing

theorem Tuned.change (h : p.Tuned level fresh history) (environment : Environment) :
    Tuned level fresh (history ++ [.environment environment]) {p with environment} := by
  have henvironment : current fresh (history ++ [.environment environment]) = environment :=
    current_snoc
  have hwarning : warning? fresh (history ++ [.environment environment]) = warning? fresh history :=
    warning_snoc (.inl rfl)
  unfold Tuned
  rw [henvironment, hwarning, settled_environment]
  exact ⟨h.level, rfl, h.size, h.warnings⟩

end Process

namespace Act
open Process Config

variable {level : Level} {fresh : Environment} {history : List Tuning} {p q : Process} {op : Op}
  {frame : Frame} {rest : List Task}

theorem defaultStackSize_eq (p : Process) :
    defaultStackSize p = .ok p.defaultSize p.settle := by
  unfold defaultStackSize
  rw [bind_ok (rfl : (get : Act Process) p = .ok p p)]
  unfold Process.defaultSize Process.settle
  cases p.stackSize with
  | some n => rfl
  | none =>
    dsimp only
    rw [bind_ok (rfl : (get : Act Process) p = .ok p p), ofEnvironment_eq]
    cases hinvalid : p.environment.invalid? with
    | none => rfl
    | some value =>
      dsimp only
      rw [log_eq, size_invalid hinvalid]
      rfl

/-- A fiber without a size of its own is made as one of the default size. -/
theorem createFiber_default {p : Process} (callback : List Op) (scheduled : Bool)
    (allocator : Memory.Allocator) (h : p.defaultSize ≠ 0) :
    createFiber callback 0 scheduled allocator p =
      createFiber callback p.defaultSize scheduled allocator p.settle := by
  unfold createFiber
  rw [if_pos rfl, if_neg h, bind_ok (defaultStackSize_eq p)]
  rfl

/-- What keeps the configuration keeps it where it halts, too. -/
theorem Keeps.tuned {act : Act Unit} (h : act.Keeps (Process.Tuned level fresh history))
    (hp : p.Tuned level fresh history) : act.Leads p (fun _ q => q.Tuned level fresh history)
      fun _ q => q.Tuned level fresh history :=
  (h p hp).mono (fun _ _ h => h) fun _ _ h => h.1

theorem answer_tuned (label : Label) (a : Answer) (hp : p.Tuned level fresh history) :
    (answer label a).Leads p (fun _ q => q.Tuned level fresh history)
      fun _ q => q.Tuned level fresh history :=
  Keeps.tuned (keeps_answer lasting_configured label a) hp

theorem install_tuned (config : Config) (label : Label) (hp : p.Tuned level fresh history) :
    (do answer label (← install config) : Act Unit).Leads p
      (fun _ q => q.Tuned level fresh (history ++ [.install config]))
      fun _ q => q.Tuned level fresh (history ++ [.install config]) := by
  have henvironment : current fresh (history ++ [.install config]) = current fresh history :=
    current_snoc
  have hwarning : warning? fresh (history ++ [.install config]) = warning? fresh history :=
    warning_snoc (.inl rfl)
  unfold install Config.refused?
  split
  · next error herror =>
    have hzero : config.stackSize = 0 := by
      by_contra hne
      rw [if_neg hne] at herror
      cases herror
    refine answer_tuned _ _ ?_
    unfold Tuned
    rw [henvironment, hwarning, settled_refused hzero]
    exact hp
  · next herror =>
    have hne : config.stackSize ≠ 0 := fun hzero => by
      rw [if_pos hzero] at herror
      cases herror
    rw [bind_assoc]
    refine leads_bind.mpr (leads_modify.mpr (Keeps.tuned (Keeps.bind ?_ fun _ => ?_) ?_))
    · exact (keeps_log lasting_configured rfl).bind fun _ => keeps_pure _
    · exact keeps_answer lasting_configured label _
    · unfold Tuned
      rw [henvironment, hwarning, settled_install hne]
      exact ⟨hp.level, hp.environment, rfl, hp.warnings⟩

/-- Making a fiber without a size uses the default, if there is such a callback and such an
allocator. -/
theorem create_tuned {s : String} {script : Script} {scheduled : Bool} {supply : Option Supply}
    (label : Label) (hp : p.Tuned level fresh history) :
    (do answer label (← create s script 0 scheduled supply) : Act Unit).Leads p
      (fun _ q => q.Tuned level fresh
        (history ++ if (script.ops? p.scripts).isSome ∧
          (p.thread.supplier? (supply.getD (.source .heap))).isSome then [.use] else []))
      fun _ q => q.Tuned level fresh
        (history ++ if (script.ops? p.scripts).isSome ∧
          (p.thread.supplier? (supply.getD (.source .heap))).isSome then [.use] else []) := by
  have hne : p.defaultSize ≠ 0 := by
    rw [hp.defaultSize_eq]
    exact Nat.ne_of_gt (defaultSize_pos _ _)
  unfold create
  rw [bind_assoc, leads_bind_ok (resolve_eq script p)]
  cases hops : script.ops? p.scripts with
  | none => simpa using answer_tuned label .absent hp
  | some callback =>
    dsimp only
    rw [bind_assoc, leads_bind_ok (allocator?_eq p _)]
    cases hallocator : p.thread.supplier? (supply.getD (.source .heap)) with
    | none => simpa using answer_tuned label .absent hp
    | some allocator =>
      rw [if_pos ⟨rfl, rfl⟩]
      dsimp only
      rw [bind_assoc, leads_bind, Leads, createFiber_default _ _ _ hne]
      have hmade : (createFiber callback p.defaultSize scheduled allocator).Keeps
          (Process.Tuned level fresh (history ++ [.use])) :=
        keeps_createFiber lasting_configured callback scheduled allocator fun h => (hne h).elim
      refine ((hmade _ hp.settle).mono (fun f q hq => Keeps.tuned (Keeps.bind ?_ fun _ => ?_) hq)
        fun _ _ h => h.1 : Leads _ _ _ _)
      · exact (keeps_fiber f).bind fun x => (keeps_putSlot lasting_configured s f).bind
          fun _ => keeps_pure _
      · exact keeps_answer lasting_configured label _

theorem tuning_of_performs (h : p.thread.Performs op frame rest) :
    p.tuning? = p.concerns? op := by
  rw [tuning?, h.performs?_eq]
  rfl

/-- Nothing else concerns the default stack size. -/
theorem tuning_none (h : ∀ op frame rest, p.thread.Performs op frame rest →
    ¬op.action.Configures) : p.tuning? = none := by
  unfold tuning?
  cases hperforms : p.thread.performs? with
  | none => rfl
  | some entry =>
    obtain ⟨op, frame, rest⟩ := entry
    have hnot := h op frame rest (Thread.performs_of hperforms)
    show p.concerns? op = none
    unfold concerns?
    cases ha : op.action with
    | create s callback size scheduled supply =>
      rw [ha] at hnot
      exact if_neg fun hsize => hnot hsize.1
    | install | stackSize | setEnvironment =>
      rw [ha] at hnot
      exact (hnot trivial).elim
    | _ => rfl

/-- **Steps** follow the history: what concerns the default stack size makes it longer, and nothing
else changes anything about the configuration. -/
theorem step_tuned (hp : p.Tuned level fresh history) :
    step.Leads p (fun _ q => q.Tuned level fresh (history ++ p.tuning?.toList))
      fun _ q => q.Tuned level fresh (history ++ p.tuning?.toList) := by
  by_cases hconfigures : ∀ op frame rest, p.thread.Performs op frame rest → ¬op.action.Configures
  · rw [tuning_none hconfigures, Option.toList_none, List.append_nil]
    refine (keeps_step lasting_configured trivial hp ?_ (fun _ _ _ _ _ => trivial)
      fun _ _ => trivial).mono (fun _ _ h => h) fun _ _ h => h.1
    exact fun op frame rest hop h => hconfigures op frame rest hop h
  · obtain ⟨op, frame, rest, hop, hconfigures⟩ : ∃ op frame rest,
        p.thread.Performs op frame rest ∧ op.action.Configures := by
      by_contra hnone
      exact hconfigures fun op frame rest hop h => hnone ⟨op, frame, rest, hop, h⟩
    have htook : (p.takeUp frame rest).Tuned level fresh history :=
      ⟨hp.level, hp.environment, hp.size, hp.warnings⟩
    rw [tuning_of_performs hop]
    unfold concerns?
    refine (leads_step hop).mpr ?_
    unfold perform
    cases ha : op.action with
    | install config => exact install_tuned config op.label htook
    | stackSize =>
      refine (leads_bind_ok (defaultStackSize_eq _)).mpr ?_
      exact answer_tuned op.label _ htook.settle
    | setEnvironment environment =>
      refine leads_bind.mpr (leads_modify.mpr (answer_tuned op.label _ ?_))
      exact htook.change environment
    | create s callback size scheduled supply =>
      rw [ha] at hconfigures
      obtain rfl : size = 0 := hconfigures
      simp only [true_and, apply_ite Option.toList]
      exact create_tuned op.label htook
    | _ =>
      rw [ha] at hconfigures
      exact hconfigures.elim

end Act

namespace Process
open Config

variable {level : Level} {fresh : Environment} {history : List Tuning} {p q : Process}

/-- **Runs** follow the history, too. -/
theorem Tuned.run (h : p.Tuned level fresh history) (n : Nat) :
    (p.run n).2.Tuned level fresh (history ++ tunings n p) := by
  induction n generalizing p history with
  | zero => simpa [tunings, Process.run] using h
  | succ n ih =>
    have hstep := Act.step_tuned h
    rw [Process.run, tunings]
    cases hs : Act.step p with
    | ok _ q =>
      rw [← List.append_assoc]
      exact ih (hstep.ok hs)
    | error halt q =>
      rw [List.append_nil]
      exact hstep.error hs

/-- A size that is refused changes nothing. -/
theorem Tuned.refused {config : Config} (hzero : config.stackSize = 0)
    (h : p.Tuned level fresh (history ++ [.install config])) : p.Tuned level fresh history := by
  have henvironment : current fresh (history ++ [.install config]) = current fresh history :=
    current_snoc
  have hwarning : warning? fresh (history ++ [.install config]) = warning? fresh history :=
    warning_snoc (.inl rfl)
  unfold Tuned at h
  rw [henvironment, hwarning, settled_refused hzero] at h
  exact h

/-- What does not concern the default stack size leaves the configuration alone. -/
theorem Tuned.idle (h : p.Tuned level fresh history) (hidle : p.tuning? = none ∨
    ∃ config, p.tuning? = some (.install config) ∧ config.stackSize = 0) :
    (p.run 1).2.Tuned level fresh history := by
  have hnext : (p.run 1).2.Tuned level fresh (history ++ p.tuning?.toList) := by
    have hstep := Act.step_tuned h
    rw [Act.run_one]
    cases hs : Act.step p with
    | ok _ q => exact hstep.ok hs
    | error halt q => exact hstep.error hs
  rcases hidle with hnone | ⟨config, hinstall, hzero⟩
  · rwa [hnone, Option.toList_none, List.append_nil] at hnext
  · rw [hinstall] at hnext
    exact hnext.refused hzero

end Process

open Process Config

/-- The environment counts as it was at the first use, until something is installed. -/
example : (Config.defaultSize none [.environment (some (.text " 65536 ")), .use, .environment none],
    Config.defaultSize none [.use, .install ⟨0⟩, .install ⟨16384⟩, .use]) = (65536, 16384) := by
  decide +kernel

end Fibers
