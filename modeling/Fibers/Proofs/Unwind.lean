import Fibers.Proofs.Itself
import Fibers.Proofs.Outcome

/-! Panics beside ends.

Where a callback panics, another one may have come to its end. From there on the two processes go
the same way: the handles that the callback held go in the same order, and the fiber ends. What they
leave behind differs in one thing only, that the one logs a panic after the handles are gone, and
the other reports an end before they go. `Contained` says so of traces, and `Act.step_contained`
that every step keeps it. -/
namespace Fibers

/-- Callbacks of the other process leave off where those of the one panic. -/
def Variation.cut (scripts scripts' : List (String × List Op)) (broken : String → Prop) :
    Variation where
  id f := f
  injective _ _ h := h
  flags flag flag' := flag' = flag
  hubs := True
  scripts
  scripts'
  cuts := True
  broken

/-- What there is to say of a panic: the text that it carries, or that it carries none. -/
inductive Payload.Conveys : Payload → String → Prop
  | message (text : String) : Conveys (.message text) text
  | other : Conveys .other "non-string payload"

/-- The record tells, as an error, that the callback of a fiber panicked, and what there is to say
of the panic. -/
structure Record.Tells (record : Record) (f : Nat) (payload : Payload) : Prop where
  level : record.level = .error
  message : ∃ message, payload.Conveys message ∧ record = .panicked f message ∧
    record.text = s!"fiber {f} panicked: {message}"

theorem Payload.conveys_report : ∀ payload : Payload, payload.Conveys payload.report
  | .message text => .message text
  | .other => .other

theorem Payload.told (payload : Payload) (f : Nat) :
    (Record.panicked f payload.report).Tells f payload :=
  ⟨rfl, payload.report, payload.conveys_report, rfl, rfl⟩

/-- Events of which the first tell of panics where the second tell of ends. What was logged while
the handles of the callback went comes before the panic and after the end. -/
inductive Contained : List Event → List Event → Prop
  | nil : Contained [] []
  | same (event : Event) {l l' : List Event} (h : Contained l l') :
    Contained (event :: l) (event :: l')
  | panic {f : Nat} {payload : Payload} {record : Record} (hrecord : record.Tells f payload)
    (status : Status) (records : List Record) {l l' : List Event} (h : Contained l l') :
    Contained (records.map .logged ++ .logged record :: l)
      (.ended status :: (records.map .logged ++ l'))

/-- The handles of a callback are going that panicked, where the other has ended. -/
inductive Unwinds : List Event → List Event → Prop
  | intro (status : Status) (records : List Record) {l l' : List Event} (h : Contained l l') :
    Unwinds (l ++ records.map .logged) (l' ++ .ended status :: records.map .logged)

/-- What happened in two runs, up to the same end. -/
inductive ContainedEnd : Option Halt → List Event → List Event → Prop
  | same (halt : Option Halt) {l l' : List Event} (h : Contained l l') : ContainedEnd halt l l'
  /-- One of the handles may not go, so that no panic is logged any more. -/
  | unwinding (violation : Violation) {l l' : List Event} (h : Unwinds l l') :
    ContainedEnd (some (.aborted violation)) (l ++ [.logged (.violated violation)])
      (l' ++ [.logged (.violated violation)])

section Events

variable {l l' k k' : List Event}

theorem Contained.append (h : Contained l l') (hk : Contained k k') :
    Contained (l ++ k) (l' ++ k') := by
  induction h with
  | nil => exact hk
  | same event _ ih => exact .same event ih
  | panic hrecord status records _ ih =>
    simp only [List.append_assoc, List.cons_append]
    exact .panic hrecord status records ih

theorem Contained.snoc (event : Event) (h : Contained l l') :
    Contained (l ++ [event]) (l' ++ [event]) :=
  h.append (.same event .nil)

theorem Unwinds.snoc (record : Record) (h : Unwinds l l') :
    Unwinds (l ++ [.logged record]) (l' ++ [.logged record]) := by
  obtain ⟨status, records, h⟩ := h
  have hintro := Unwinds.intro status (records ++ [record]) h
  simpa only [List.map_append, List.map_cons, List.map_nil, List.append_assoc, List.cons_append]
    using hintro

/-- The panic is logged. -/
theorem Unwinds.over {f : Nat} {payload : Payload} {record : Record} (h : Unwinds l l')
    (hrecord : record.Tells f payload) : Contained (l ++ [.logged record]) l' := by
  obtain ⟨status, records, h⟩ := h
  have happend := h.append (.panic hrecord status records .nil)
  simpa only [List.append_assoc, List.append_nil] using happend

end Events

section Likenesses

variable {scripts scripts' : List (String × List Op)} {broken : String → Prop} {w : Pairing}

theorem faithful_cut : (Variation.cut scripts scripts' broken).Faithful := fun _ => rfl

theorem strict_cut : (Variation.cut scripts scripts' broken).Strict := ⟨fun _ _ h => h, trivial⟩

theorem Record.logOn_reverse {level : Level} (record : Record) (trace : List Event) :
    (record.logOn level trace).reverse =
      if record.level ≤ level then trace.reverse ++ [.logged record] else trace.reverse := by
  unfold Record.logOn
  split
  · exact List.reverse_cons
  · rfl

/-- Panics and violations are logged at every level. -/
theorem Record.logOn_error {level : Level} {record : Record} (h : record.level = .error)
    (trace : List Event) : record.logOn level trace = .logged record :: trace := by
  rw [Record.logOn, h]
  exact if_pos (Nat.zero_le _)

/-- Processes at one level, of which the first has panics that the other has not. -/
def Likeness.cut (level : Level) (hfit : (Variation.cut scripts scripts' broken).Fit) :
    Likeness where
  toVariation := .cut scripts scripts' broken
  fit := hfit
  unscheduled := rfl
  moved := False
  level
  level' := level
  traces w trace trace' := w.Diagonal → Contained trace.reverse trace'.reverse
  ends w halt trace halt' trace' :=
    w.Diagonal → halt' = halt ∧ ContainedEnd (some halt) trace.reverse trace'.reverse
  mono hwu h hu := h fun x hx => hu x (hwu hx)
  ended hhalt _ h hw := by
    exact ⟨Halt.eq_of_faithful faithful_cut hhalt, .same _ (h hw)⟩
  aborted violation h hw := by
    rw [Violation.rename_faithful faithful_cut, Record.logOn_error rfl, Record.logOn_error rfl,
      List.reverse_cons, List.reverse_cons]
    exact ⟨rfl, .same _ ((h hw).snoc _)⟩
  logged hrecord h hw := by
    rw [Record.eq_of_faithful faithful_cut hw hrecord, Record.logOn_reverse, Record.logOn_reverse]
    split
    · exact (h hw).snoc _
    · exact h hw

/-- The same processes while the handles of such a callback go. -/
def Likeness.unwinding (level : Level) (hfit : (Variation.cut scripts scripts' broken).Fit) :
    Likeness where
  toVariation := .cut scripts scripts' broken
  fit := hfit
  unscheduled := rfl
  moved := False
  level
  level' := level
  traces w trace trace' := w.Diagonal → Unwinds trace.reverse trace'.reverse
  ends w halt trace halt' trace' := w.Diagonal → (∃ violation, halt = .aborted violation) →
    halt' = halt ∧ ContainedEnd (some halt) trace.reverse trace'.reverse
  mono hwu h hu := h fun x hx => hu x (hwu hx)
  ended _ hnone _ _ := fun ⟨violation, hviolation⟩ => (hnone violation hviolation).elim
  aborted violation h hw _ := by
    rw [Violation.rename_faithful faithful_cut, Record.logOn_error rfl, Record.logOn_error rfl,
      List.reverse_cons, List.reverse_cons]
    exact ⟨rfl, .unwinding _ (h hw)⟩
  logged hrecord h hw := by
    rw [Record.eq_of_faithful faithful_cut hw hrecord, Record.logOn_reverse, Record.logOn_reverse]
    split
    · exact (h hw).snoc _
    · exact h hw

variable {level : Level} {hfit : (Variation.cut scripts scripts' broken).Fit}

theorem cut_reports : (Likeness.cut level hfit).Reports := by
  intro w event event' trace trace' h _ htrace hw
  rw [Event.eq_of_faithful faithful_cut strict_cut.flags hw h, List.reverse_cons, List.reverse_cons]
  exact (htrace hw).snoc _

end Likenesses

namespace Act
open Process

variable {p p' : Process} {held : List Nat}

/-! ### Steps -/

section Steps

variable {level : Level} {scripts scripts' : List (String × List Op)} {broken : String → Prop}
  {hfit : (Variation.cut scripts scripts' broken).Fit} {w : Pairing}

/-- A callback that panicked gives up its handles, and the panic is logged. -/
theorem leave_panicked (f : Nat) (held : List Nat) (payload : Payload) (p : Process) :
    leave (.callback f) held (.panicked payload) p =
      (do releaseAll held; log (.panicked f payload.report) : Act Unit) {p with
        thread := p.thread.become (.returned (.callback f) (.panicked payload))} := rfl

/-- A callback whose end is reported gives up its handles. -/
theorem leave_finished {status' : Status} (h : status p = .ok status' p) (origin : Origin)
    (held : List Nat) : leave origin held .finished p = releaseAll held {p with
      thread := p.thread.become (.returned origin .finished)
      trace := .ended status' :: p.trace} := by
  have hleave : leave origin held .finished p = (do releaseAll held; return : Act Unit) {p with
      thread := p.thread.become (.returned origin .finished)
      trace := .ended status' :: p.trace} := by
    rw [leave_eq, if_pos rfl]
    cases origin <;> exact bind_ok h
  rw [hleave]
  exact congrFun (bind_pure _) _

/-- What can tell its status has a counterpart that can. -/
theorem status_of_alike (h : (Likeness.cut level hfit).Alike w p p') (hp : p.Ordered) :
    ∃ status', status p' = .ok status' p' := by
  have hagree : Agree (Likeness.cut level hfit) w (fun _ => Status.Alike _) (status p)
      (status p') := mirrors_status w (List.Subset.refl w) p p' h
  rw [status_eq hp.thread.toSteady] at hagree
  cases hr : status p' <;> rw [hr] at hagree
  · obtain ⟨-, rfl⟩ := status_leads.ok hr
    exact ⟨_, rfl⟩
  · exact hagree.elim

/-- Once the end of the one is reported, what the trace of the other lacks is the panic. -/
theorem unwinding_of_alike (h : (Likeness.cut level hfit).Alike w p p') {code code' : Code}
    (hcode : Code.Alike (Variation.cut scripts scripts' broken) code code') (status' : Status) :
    (Likeness.unwinding level hfit).Alike w {p with thread := p.thread.become code} {p' with
      thread := p'.thread.become code'
      trace := .ended status' :: p'.trace} :=
  {h with
    thread := {h.thread with running := ⟨h.thread.running.serial, hcode⟩}
    trace := fun hw => by
      rw [List.reverse_cons]
      simpa using Unwinds.intro status' [] (h.trace hw)}

/-- The handles of a callback go in both processes, and the panic is logged in the one. -/
theorem releaseAll_contained {q q' : Process} (h : (Likeness.unwinding level hfit).Alike w q q')
    (hq : q.thread.Steady q.nextId (held ++ [])) (f : Nat) (payload : Payload) :
    Agree (Likeness.cut level hfit) w Same
      ((do releaseAll held; log (.panicked f payload.report) : Act Unit) q)
      (releaseAll held q') := by
  have hreleased : Agree (Likeness.unwinding level hfit) w Same (releaseAll held q)
      (releaseAll (held.map fun g => g) q') := mirrors_releaseAll held w (List.Subset.refl w) q q' h
  rw [List.map_id'] at hreleased
  cases hr : releaseAll held q <;> cases hr' : releaseAll held q' <;> rw [hr, hr'] at hreleased
  · next r _ r' =>
    obtain ⟨u, hu, halike, -⟩ := hreleased
    have htrace (hw : u.Diagonal) : Contained
        ((Record.panicked f payload.report).logOn r.level r.trace).reverse r'.trace.reverse := by
      rw [Record.logOn_error rfl, List.reverse_cons]
      exact (halike.trace hw).over (payload.told f)
    rw [bind_ok hr, log_eq]
    exact ⟨u, hu, {halike with trace := htrace}, rfl⟩
  · exact hreleased.elim
  · exact hreleased.elim
  · obtain ⟨u, hu, hdiagonal, hends⟩ := hreleased
    rw [bind_error hr]
    exact ⟨u, hu, hdiagonal, fun hw => hends hw ((releaseAll_aborts hq).error hr)⟩

/-- The handles of a callback go that panicked, and the panic is logged; in the other process its
end is reported and the handles go. -/
theorem unwind_contained (h : (Likeness.cut level hfit).Alike w p p') (hp : p.Ordered)
    {f f' : Nat} {held' : List Nat} {payload : Payload}
    (hcode : p.thread.running.code = .leaving (.callback f) held (.panicked payload))
    (hcode' : p'.thread.running.code = .leaving (.callback f') held' .finished) :
    Agree (Likeness.cut level hfit) w Same (step p) (step p') := by
  have halike := h.thread.running.code
  rw [hcode, hcode'] at halike
  cases halike with
  | leaving _ _ houtcome =>
  obtain ⟨status', hstatus'⟩ := status_of_alike h hp
  have hheld : held.map (Likeness.cut level hfit).id = held := List.map_id' held
  rw [step_leaving hcode, step_leaving hcode', leave_panicked, hheld, leave_finished hstatus']
  have hsteady := steady_returned hp hcode
  exact releaseAll_contained (unwinding_of_alike h (.returned _ houtcome) status') hsteady f payload

/-- **A step** of the process with panics comes to the same as that of the one without. -/
theorem step_contained (h : (Likeness.cut level hfit).Alike w p p') (hp : p.Ordered) :
    Agree (Likeness.cut level hfit) w Same (step p) (step p') := by
  by_cases hdiffers : p.Differs (Likeness.cut level hfit) p'
  · cases hdiffers with
    | resume _ _ hstrict => exact (hstrict strict_cut).elim
    | hub _ _ hhubs => exact (hhubs trivial).elim
    | leave hcode hcode' => exact unwind_contained h hp hcode hcode'
  · exact step_agrees cut_reports h hdiffers

end Steps
end Act
end Fibers
