import Fibers.Proofs.Numeral
import Fibers.Proofs.Quotation
import Fibers.Proofs.Tuning

/-! Rejected sizes.

A text that is no size is rejected with a message that quotes it, and where the environment gives
such a text for the default stack size, the process warns in the same words. Whatever the text is,
the message stands on one line and tells which text it was: `reported?` takes the quotes and the
escapes away (`Config.reports_quote`). So no value can make a message look like several lines, or
like the message of another value. -/
namespace Fibers
namespace Config
open Text

/-- The value that a message reports. -/
def reported? (message : String) : Option String :=
  (unquote? (message.toList.drop "invalid value ".length)).map fun (value, _) => .ofList value

/-- A message reports a rejected value, and goes on with `after`. -/
structure Reports (value after message : String) : Prop where
  /-- Every character is visible: none is a control character, and none ends the line. -/
  visible : ∀ c ∈ message.toList, isVisible c = true ∧ isControl c = false ∧ c ∉ lineEnds
  /-- Between the quotes no other quote stands open. -/
  quotes : ∃ body, message = "invalid value \"" ++ body ++ "\" for `fiber.stack_size`" ++ after ∧
    Guarded body.toList
  /-- What stands between them is the value, as it was given. -/
  recovers : reported? message = some value

/-- The message of an error reports a value, and so do the warnings of it. -/
structure TellsOf (value : String) (error : Error) : Prop where
  message : Reports value "" error.message
  warning : ∀ size, Reports value s!", using {size}" (Record.fallback error size).text

variable {value other after message text : String} {error : Error}

/-! ### Messages -/

/-- A message reports one value. -/
theorem Reports.unique {after' message' : String} (h : Reports value after message)
    (h' : Reports other after' message') (heq : message = message') : value = other := by
  subst heq
  exact Option.some.inj (h.recovers.symm.trans h'.recovers)

theorem visible_of_ascii (h : ∀ c ∈ text.toList, 0x20 ≤ c.toNat ∧ c.toNat < 0x7f) :
    ∀ c ∈ text.toList, isVisible c = true := fun c hc =>
  isVisible_of_ascii (h c hc).1 (h c hc).2

theorem visible_toString (n : Nat) : ∀ c ∈ (toString n).toList, isVisible c = true := by
  refine visible_of_ascii fun c hc => ?_
  rw [Nat.toString_eq_repr, Nat.toList_repr] at hc
  have hdigit : 48 ≤ c.toNat ∧ c.toNat ≤ 57 := Char.isDigit_iff_toNat.mp
    (Nat.isDigit_of_mem_toDigits (by decide) (by decide) hc)
  omega

/-- **A value that is quoted is reported**, whatever it is. -/
theorem reports_quote (value : String) (hafter : ∀ c ∈ after.toList, isVisible c = true) :
    Reports value after
      ("invalid value " ++ quote value ++ " for `fiber.stack_size`" ++ after) where
  visible := by
    have hquote : isVisible '"' = true := isVisible_of_ascii (by decide) (by decide)
    have hbefore : ∀ c ∈ "invalid value ".toList, isVisible c = true := visible_of_ascii (by simp)
    have hkey : ∀ c ∈ " for `fiber.stack_size`".toList, isVisible c = true :=
      visible_of_ascii (by simp)
    have hall : ∀ c ∈
        ("invalid value " ++ quote value ++ " for `fiber.stack_size`" ++ after).toList,
        isVisible c = true := by
      simp only [quote, quoteChars, String.toList_append, String.toList_ofList,
        List.forall_mem_append, List.forall_mem_cons]
      exact ⟨⟨⟨hbefore, hquote, visible_flatMap, hquote, List.forall_mem_nil _⟩, hkey⟩, hafter⟩
    exact fun c hc => ⟨hall c hc, isControl_of_isVisible (hall c hc), not_mem_lineEnds (hall c hc)⟩
  quotes := by
    refine ⟨.ofList (value.toList.flatMap quoteChar), ?_, ?_⟩
    · rw [← String.toList_inj]
      simp [quote, quoteChars]
    · rw [String.toList_ofList]
      exact guarded_flatMap _
  recovers := by
    rw [reported?, ← String.length_toList]
    simp only [quote, String.append_assoc, String.toList_append, List.drop_left]
    rw [String.toList_ofList, unquote?_quoteChars, Option.map_some, String.ofList_toList]

theorem message_invalidConfig (value : String) : (Error.invalidConfig stackSizeKey value).message =
    "invalid value " ++ quote value ++ " for `fiber.stack_size`" := by
  have hkey : " for `" ++ (stackSizeKey ++ "`") = " for `fiber.stack_size`" := rfl
  unfold Error.message
  simp only [String.append_assoc]
  exact congrArg (fun key => "invalid value " ++ (quote value ++ key)) hkey

/-- The error over a value tells of it, and so does every warning of that error. -/
theorem tellsOf_invalidConfig (value : String) :
    TellsOf value (.invalidConfig stackSizeKey value) where
  message := by
    have h : Reports value ""
        ("invalid value " ++ quote value ++ " for `fiber.stack_size`" ++ "") :=
      reports_quote value (by simp)
    rwa [String.append_empty, ← message_invalidConfig] at h
  warning size := by
    have htext : (Record.fallback (.invalidConfig stackSizeKey value) size).text =
        (Error.invalidConfig stackSizeKey value).message ++ s!", using {size}" :=
      String.append_assoc
    have hcomma : ∀ c ∈ ", using ".toList, isVisible c = true := visible_of_ascii (by simp)
    rw [htext, message_invalidConfig]
    refine reports_quote value fun c hc => ?_
    rcases List.mem_append.mp (String.toList_append ▸ hc) with hc | hc
    · exact hcomma c hc
    · exact visible_toString size c hc

/-- A value that looks like the end of its message stays between the quotes, on the same line. -/
example : (Error.invalidConfig stackSizeKey "1\n\" for `x`").message =
    "invalid value \"1\\n\\\" for `x`\" for `fiber.stack_size`" := by decide +kernel

/-! ### Rejections -/

theorem parseSize_eq_error : parseSize stackSizeKey value = .error error ↔
    (∀ n, ¬Writes value.toList n) ∧ error = .invalidConfig stackSizeKey value := by
  unfold parseSize
  cases hsize : size? value with
  | none =>
    have hnone : ∀ n, ¬Writes value.toList n := fun n hn => by
      rw [size?_eq_some.mpr hn] at hsize
      cases hsize
    simp [hnone, eq_comm]
  | some n =>
    have hsome : ¬∀ n, ¬Writes value.toList n := fun h => h n (size?_eq_some.mp hsize)
    simp [hsome]

theorem resolve_eq_error_iff {answer? : Option String} : resolve answer? = .error error ↔
    ∃ value, answer? = some value ∧ parseSize stackSizeKey value = .error error := by
  cases answer? with
  | none => simp [resolve]
  | some value => cases h : parseSize stackSizeKey value <;> simp [resolve, h, Except.map]

theorem invalid_iff {environment : Environment} : environment.invalid? = some value ↔
    environment.bind Setting.text? = some value ∧ ∀ n, ¬Writes value.toList n := by
  rw [Environment.invalid?, Option.filter_eq_some_iff, Option.isNone_iff_eq_none,
    Option.eq_none_iff_forall_ne_some]
  simp only [ne_eq, size?_eq_some]

end Config

namespace Process
open Config

/-- The value that an operation is about to reject: what the environment gives, if it is no size, or
a size of zero that is to be installed. -/
def rejected? (p : Process) (op : Op) : Option String :=
  match op.action with
  | .readEnvironment => p.environment.invalid?
  | .install config => if config.stackSize = 0 then some "0" else none
  | _ => none

end Process

namespace Act
open Process Config

variable {p : Process} {op : Op} {frame : Frame} {rest : List Task} {value : String}

/-- An operation that rejects a value answers with the error over it. -/
theorem step_rejects (hordered : p.Ordered) (hop : p.thread.Performs op frame rest)
    (hvalue : p.rejected? op = some value) :
    step.Leads p (fun _ q => ∃ status, q.trace.head? =
        some (.done op.label status (.failed (.invalidConfig stackSizeKey value))))
      fun _ _ => False := by
  have hsteady := (hordered.takeUp hop.code hop.todo).steady hordered.thread.toSteady
  have hanswer := answer_heads hsteady op.label (.failed (.invalidConfig stackSizeKey value))
  refine (leads_step hop).mpr ?_
  unfold rejected? at hvalue
  unfold perform
  cases ha : op.action with
  | readEnvironment =>
    have hinvalid : (p.takeUp frame rest).environment.invalid? = some value := by
      rwa [ha] at hvalue
    refine leads_bind.mpr (leads_get.mpr ?_)
    rw [ofEnvironment_eq, hinvalid]
    exact hanswer
  | install config =>
    rw [ha] at hvalue
    obtain ⟨hzero, rfl⟩ : config.stackSize = 0 ∧ "0" = value := by simpa using hvalue
    have hrefused : config.refused? = some (.invalidConfig stackSizeKey "0") := by
      rw [Config.refused?, if_pos hzero, hzero]
      rfl
    show (do answer op.label (← install config) : Act Unit).Leads _ _ _
    rw [install, hrefused]
    exact hanswer
  | _ =>
    rw [ha] at hvalue
    cases hvalue

end Act

namespace Process
open Config

variable {level : Level} {fresh : Environment} {history : List Tuning} {p : Process}

/-- A warning is of a text that the environment gave at the first use, and that is no size. -/
theorem Tuned.warned {error : Error} {size : Nat} (h : p.Tuned level fresh history)
    (hmem : .logged (.fallback error size) ∈ p.trace) : ∃ value,
      (current fresh (untilUse history)).invalid? = some value ∧
        error = .invalidConfig stackSizeKey value ∧ size = Config.default.stackSize := by
  have hwarning : Record.fallback error size ∈ p.trace.filterMap Event.warning? :=
    List.mem_filterMap.mpr ⟨_, hmem, rfl⟩
  rw [h.warnings] at hwarning
  split at hwarning
  · have hwarns := Option.mem_toList.mp hwarning
    rw [warning?] at hwarns
    split at hwarns
    · obtain ⟨value, hvalue, hrecord⟩ := Option.map_eq_some_iff.mp hwarns
      cases hrecord
      exact ⟨value, hvalue, rfl, rfl⟩
    · cases hwarns
  · cases hwarning

end Process

open Process Config

/-- What is told, in the processes of a scenario and elsewhere, of texts that are no sizes. -/
structure Scenario.RejectionsTold (s : Scenario) : Prop where
  /-- A text that stands for no size is rejected, with an error that tells of it. No other is. -/
  rejects : ∀ value, (∀ n, ¬Text.Writes value.toList n) ↔
    ∃ error, parseSize "fiber.stack_size" value = .error error ∧ TellsOf value error
  /-- Nothing else is the matter where a configuration cannot be resolved. -/
  resolves : ∀ {σ : Type} (lookup : String → StateM σ (Option String)) (state : σ) (error : Error),
    ((ofLookup lookup).run state).1 = .error error → ∃ value,
      ((lookup "fiber.stack_size").run state).1 = some value ∧
        (∀ n, ¬Text.Writes value.toList n) ∧ TellsOf value error
  /-- Two texts that are rejected have different messages, and different warnings. -/
  tellsApart : ∀ value other error error', parseSize "fiber.stack_size" value = .error error →
    parseSize "fiber.stack_size" other = .error error' → value ≠ other →
      error.message ≠ error'.message ∧
        ∀ size size', (Record.fallback error size).text ≠ (Record.fallback error' size').text
  /-- An operation that rejects a text answers with an error that tells of it. -/
  answers : ∀ p op frame rest value, s.Reaches p → p.thread.Performs op frame rest →
    p.rejected? op = some value → ∃ q status error, Act.step p = .ok () q ∧
      q.trace.head? = some (.done op.label status (.failed error)) ∧ TellsOf value error
  /-- A warning tells of what the environment gave when the default size was first used. -/
  warns : ∀ n error size, .logged (.fallback error size) ∈ (s.process.run n).2.trace → ∃ value,
    (current s.environment (untilUse (tunings n s.process))).bind Setting.text? = some value ∧
      (∀ n, ¬Text.Writes value.toList n) ∧ size = 131072 ∧ TellsOf value error

/-- **Rejected sizes** are told of on one line, and so that each is told from all others. -/
theorem Scenario.rejections_told (s : Scenario) : s.RejectionsTold where
  rejects value := by
    constructor
    · intro hnone
      exact ⟨_, parseSize_eq_error.mpr ⟨hnone, rfl⟩, tellsOf_invalidConfig value⟩
    · rintro ⟨error, herror, -⟩
      exact (parseSize_eq_error.mp herror).1
  resolves lookup state error herror := by
    rw [run_ofLookup] at herror
    obtain ⟨value, hvalue, herror⟩ := resolve_eq_error_iff.mp herror
    obtain ⟨hnone, rfl⟩ := parseSize_eq_error.mp herror
    exact ⟨value, hvalue, hnone, tellsOf_invalidConfig value⟩
  tellsApart value other error error' herror herror' hne := by
    obtain ⟨-, rfl⟩ := parseSize_eq_error.mp herror
    obtain ⟨-, rfl⟩ := parseSize_eq_error.mp herror'
    have h := tellsOf_invalidConfig value
    have h' := tellsOf_invalidConfig other
    refine ⟨fun heq => hne ?_, fun size size' heq => hne ?_⟩
    · exact h.message.unique h'.message heq
    · exact (h.warning size).unique (h'.warning size') heq
  answers p op frame rest value hp hop hvalue := by
    obtain ⟨_, q, hq, status, htrace⟩ := (Act.step_rejects hp.lawful.ordered hop hvalue).answers
    exact ⟨q, status, _, hq, htrace, tellsOf_invalidConfig value⟩
  warns n error size hmem := by
    have hfresh : s.process.Tuned s.level s.environment [] := ⟨rfl, rfl, rfl, (ite_self _).symm⟩
    obtain ⟨value, hvalue, rfl, rfl⟩ := (hfresh.run n).warned hmem
    obtain ⟨htext, hnone⟩ := invalid_iff.mp hvalue
    exact ⟨value, htext, hnone, rfl, tellsOf_invalidConfig value⟩

end Fibers
