import Fibers.Proofs.Itself
import Fibers.Proofs.Tandem

/-! Levels of detail make no difference.

Two processes that differ in their levels only do the same, step for step, and come to the same end;
the graver of the levels keeps of what happened all but the records that lie below it. The
comparison is a `Likeness` under which nothing has another name, another flag or another block, and
whose traces are those of the more detailed process, filtered. -/
namespace Fibers

/-- Whether the event shows at a level: a record does if it is grave enough, and all else does. -/
def Event.keptAt (level : Level) : Event → Bool
  | .logged record => record.level ≤ level
  | _ => true

/-- The same scenario at another level. -/
def Scenario.withLevel (s : Scenario) (level : Level) : Scenario := {s with level}

/-- Nothing is different. -/
def Variation.none (scripts : List (String × List Op)) : Variation where
  id f := f
  injective _ _ h := h
  flags flag flag' := flag' = flag
  hubs := True
  scripts
  scripts' := scripts
  cuts := False
  broken _ := False

section Events

variable {level level' : Level}

theorem Level.le_trans {a b c : Level} (h : a ≤ b) (h' : b ≤ c) : a ≤ c := Nat.le_trans h h'

theorem whole_none {scripts : List (String × List Op)} : (Variation.none scripts).Whole where
  flags _ := rfl
  unbroken _ h := h

theorem faithful_none {scripts : List (String × List Op)} : (Variation.none scripts).Faithful :=
  fun _ => rfl

theorem strict_none {scripts : List (String × List Op)} : (Variation.none scripts).Strict where
  flags _ _ h := h
  hubs := trivial

/-- What the graver level keeps of a trace goes on with what it keeps of a record. -/
theorem Record.logOn_kept (h : level ≤ level') (record : Record) (trace : List Event) :
    record.logOn level (trace.filter (·.keptAt level)) =
      (record.logOn level' trace).filter (·.keptAt level) := by
  by_cases hkept : record.level ≤ level
  · have hdetail : record.level ≤ level' := Level.le_trans hkept h
    simp [Record.logOn, Event.keptAt, hkept, hdetail]
  · by_cases hdetail : record.level ≤ level' <;>
      simp [Record.logOn, Event.keptAt, hkept, hdetail]

end Events

/-- Processes that differ in their levels, of which the first is the graver. -/
def Likeness.detailed (scripts : List (String × List Op)) {level level' : Level}
    (h : level ≤ level') : Likeness where
  toVariation := .none scripts
  fit := whole_none.fit rfl
  unscheduled := rfl
  moved := False
  level
  level'
  traces w trace trace' := w.Diagonal → trace = trace'.filter (·.keptAt level)
  ends w halt trace halt' trace' :=
    w.Diagonal → halt' = halt ∧ trace = trace'.filter (·.keptAt level)
  mono hwu h hu := h fun x hx => hu x (hwu hx)
  ended hhalt _ h hw := ⟨Halt.eq_of_faithful faithful_none hhalt, h hw⟩
  aborted violation htraces hw := by
    rw [Violation.rename_faithful faithful_none, htraces hw]
    exact ⟨rfl, Record.logOn_kept h _ _⟩
  logged hrecord htraces hw := by
    rw [Record.eq_of_faithful faithful_none hw hrecord, htraces hw]
    exact Record.logOn_kept h _ _

section Runs

variable {scripts : List (String × List Op)} {level level' : Level} {h : level ≤ level'}
  {w : Pairing} {p p' : Process}

theorem detailed_reports : (Likeness.detailed scripts h).Reports := by
  intro w event event' trace trace' hevent hreport htraces hw
  rw [Event.eq_of_faithful faithful_none strict_none.flags hw hevent, htraces hw]
  cases event with
  | logged record => exact (hreport record rfl).elim
  | _ => rfl

theorem not_differs_detailed (halike : (Likeness.detailed scripts h).Alike w p p') :
    ¬p.Differs (.detailed scripts h) p' := by
  intro hdiffers
  cases hdiffers with
  | resume _ _ hm => exact hm strict_none
  | hub _ _ hm => exact hm trivial
  | leave hcode hcode' =>
    have hcodes := halike.thread.running.code
    rw [hcode, hcode'] at hcodes
    cases hcodes with
    | leaving _ _ h =>
      cases h with
      | cut _ hcuts => exact hcuts

open Process Act in
/-- **Runs** at two levels come to the same, but for what the graver one leaves out. -/
theorem run_detailed (halike : (Likeness.detailed scripts h).Alike w p p') (n : Nat) : Match
    (fun q q' => ∃ u, (Likeness.detailed scripts h).Alike u q q')
    (fun halt q halt' q' => halt' = halt ∧ q.trace = q'.trace.filter (·.keptAt level))
    (p.run n) (p'.run n) := by
  refine (run_abreast (X := fun _ _ => False) (fun q q' ⟨u, hu⟩ => .inl ?_) ⟨w, halike⟩
    n).resolve_right fun ⟨_, _, _, _, hparting⟩ => hparting.parts
  exact (step_agrees detailed_reports hu (not_differs_detailed hu)).run.imp
    (fun r r' _ _ ⟨u', _, hr⟩ => ⟨u', hr⟩)
    fun halt r halt' r' ⟨u', _, hmemory, hends⟩ => hends (hmemory.resolve_left id)

end Runs

/-! ### Scenarios -/

/-- What a scenario comes to at two levels, of which the first is the graver. -/
structure Scenario.LogsApart (s : Scenario) (level level' : Level) : Prop where
  /-- It comes to the same end, or goes on at both. -/
  halt : ∀ n, ((s.withLevel level).play n).halt = ((s.withLevel level').play n).halt
  /-- The same happens, but for the records that lie below the graver level. -/
  events : ∀ n, ((s.withLevel level).play n).events =
    ((s.withLevel level').play n).events.filter (·.keptAt level)
  /-- All that is reported is the same: what answered, in which order, and of which fiber. -/
  reports : ∀ n, ((s.withLevel level).play n).events.filter Event.isReport =
    ((s.withLevel level').play n).events.filter Event.isReport

theorem Event.keptAt_of_isReport {event : Event} (level : Level) (h : event.isReport = true) :
    event.keptAt level = true := by
  cases event with
  | logged record => cases h
  | _ => rfl

/-- What a level keeps of the events contains all reports. -/
theorem filter_isReport_kept (level : Level) (events : List Event) :
    (events.filter (·.keptAt level)).filter Event.isReport = events.filter Event.isReport := by
  rw [List.filter_filter]
  refine List.filter_congr fun event _ => ?_
  cases hreport : event.isReport with
  | false => rfl
  | true => rw [Event.keptAt_of_isReport level hreport, Bool.and_self]

/-- **Logging only observes**: a scenario comes to the same at every level of detail, and the level
decides no more than which records show. -/
theorem Scenario.logs_apart (s : Scenario) {level level' : Level} (h : level ≤ level') :
    s.LogsApart level level' := by
  have hstart : (Likeness.detailed s.scripts h).Alike [] (s.withLevel level).process
      (s.withLevel level').process :=
    alike_process rfl rfl rfl rfl rfl rfl (fun _ => rfl) (Op.allAlike_self whole_none _)
      fun _ => rfl
  have hruns (n : Nat) : ((s.withLevel level).play n).halt = ((s.withLevel level').play n).halt ∧
      ((s.withLevel level).play n).events =
        ((s.withLevel level').play n).events.filter (·.keptAt level) := by
    have hmatch := run_detailed hstart n
    simp only [play]
    revert hmatch
    cases (s.withLevel level).process.run n
    cases (s.withLevel level').process.run n
    intro hmatch
    cases hmatch with
    | going hgoing =>
      obtain ⟨u, hu⟩ := hgoing
      refine ⟨rfl, ?_⟩
      rw [hu.trace (hu.memory.resolve_left id).2, List.filter_reverse]
    | halted hends =>
      obtain ⟨rfl, htrace⟩ := hends
      exact ⟨rfl, by rw [htrace, List.filter_reverse]⟩
  refine ⟨fun n => (hruns n).1, fun n => (hruns n).2, fun n => ?_⟩
  rw [(hruns n).2, filter_isReport_kept]

/-- The environment holds no size, a callback panics far from its anchor, a thread comes and goes,
and in the end the hub may not be destroyed. -/
def Scenario.clatter : Scenario where
  environment := some (.text "much")
  program := [
    .on "new" "h" (.create "h" .empty 16384 false none),
    .on "setHub" "h" (.setHub "h"),
    .on "new" "f" (.create "f" (.inline [.mk ⟨"panic", none⟩ (.panic .other)]) 0 true none),
    .on "resume" "f" (.resume "f"),
    .mk ⟨"thread", none⟩ (.runThread (.inline [
      .on "new" "g" (.create "g" .empty 1 false none),
      .on "resume" "g" (.resume "g"),
      .on "drop" "g" (.drop "g")])),
    .on "drop" "h" (.drop "h")]

/-- In full detail sixteen more records show, of the same. -/
theorem clatter_logs_apart :
    Level.warn ≤ .trace ∧
    ((Scenario.clatter.withLevel .warn).play 30).halt =
      ((Scenario.clatter.withLevel .trace).play 30).halt ∧
    ((Scenario.clatter.withLevel .warn).play 30).events =
      ((Scenario.clatter.withLevel .trace).play 30).events.filter (·.keptAt .warn) ∧
    ((Scenario.clatter.withLevel .trace).play 30).halt =
      some (.aborted (.destroyedWhile 0 .ready)) ∧
    ((Scenario.clatter.withLevel .trace).play 30).events.length = 33 ∧
    ((Scenario.clatter.withLevel .warn).play 30).events.length = 17 := by
  have hlevels : Level.warn ≤ .trace := by decide
  have hsame := Scenario.clatter.logs_apart hlevels
  exact ⟨hlevels, hsame.halt 30, hsame.events 30, by decide +kernel, by decide +kernel,
    by decide +kernel⟩

end Fibers
