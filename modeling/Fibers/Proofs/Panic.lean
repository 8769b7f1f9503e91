import Fibers.Proofs.Outcome
import Fibers.Proofs.Unwind

/-! Panics stay where they are.

A callback that panics ends like one that has nothing left to do: its handles go, in the order in
which they were taken, its fiber terminates, and control goes to where it would have gone. What is
seen of the difference is one record. So scenarios whose callbacks panic run like those in which
they leave off before (`Scenario.panics_contained`). -/
namespace Fibers

/-- The first scenario is the second but for callbacks that go on, where those of the second leave
off, with a panic. Named scripts may be among them if they are used for nothing but callbacks. -/
structure Scenario.Cut (broken : String → Prop) (s s' : Scenario) : Prop where
  level : s'.level = s.level
  environment : s'.environment = s.environment
  placement : s'.placement = s.placement
  scripts : (Variation.cut s.scripts s'.scripts broken).Fit
  program : List.Forall₂ (Op.Alike (.cut s.scripts s'.scripts broken)) s.program s'.program

namespace Process

/-- The processes differ in nothing but what the callbacks are yet to do. -/
structure Contains (broken : String → Prop) (p p' : Process) : Prop where
  nextId : p'.nextId = p.nextId
  live : p'.live = p.live
  stackSize : p'.stackSize = p.stackSize
  memory : p'.memory = p.memory
  /-- All threads have the same fibers, in the same states, with the same handles, in the same
  slots, and code of the same origin, with the same handles held, at the same place. -/
  threads : ∃ w : Pairing, w.Diagonal ∧
    List.Forall₂ (Thread.Alike (.cut p.scripts p'.scripts broken) w) p.threads p'.threads

/-- What becomes of scripts that end and of callbacks that panic, in any process. -/
structure ContainsPanics (p : Process) : Prop where
  /-- The code sets out that came to its end or panicked, and nothing else happens. -/
  closes : ∀ origin held outcome, p.Closes origin held outcome →
    Act.step p = .ok () {p with thread := p.thread.become (.leaving origin held outcome)}
  /-- Then it returns, whether or not it panicked, unless a handle that it held may not go. -/
  returns : ∀ origin held outcome, p.thread.running.code = .leaving origin held outcome →
    Act.step.Leads p
      (fun _ q => q.thread.running.code = .returned origin outcome ∧ q.joining = p.joining)
      fun halt _ => ∃ violation, halt = .aborted violation
  /-- The panic of a callback is logged once those handles are gone. -/
  logs : ∀ f held payload q,
    p.thread.running.code = .leaving (.callback f) held (.panicked payload) →
    Act.step p = .ok () q → ∃ record records, record.Tells f payload ∧
      q.trace = .logged record :: (List.map .logged records ++ p.trace)
  /-- However its callback has ended, the fiber has terminated then, and the root goes on. -/
  terminates : ∀ f outcome, p.thread.running.code = .returned (.callback f) outcome →
    Act.step.Leads p (fun _ q => p.Finished f q) fun halt _ => halt = .aborted (.rootYielded f)
  /-- No step ends any other code, and none that waits or rests has ended. -/
  proceeds : ∀ q, Act.step p = .ok () q → p.Proceeds q
  unended : p.Unended
  /-- A thread ends as its program did: the one that waited for it is told. -/
  joins : ∀ outcome joiner rest, p.thread.running.code = .returned .program outcome →
    p.joining = joiner :: rest → ∀ q, Act.step p = .ok () q → q.thread = joiner.thread ∧
      q.joining = rest ∧
      ∃ status, q.trace.head? = some (.done joiner.label status (.joined outcome))
  /-- So does the process with its first thread. -/
  ends : ∀ outcome, p.thread.running.code = .returned .program outcome → p.joining = [] →
    ∃ halt, Act.step p = .error halt p ∧ (halt = .panicked ↔ outcome ≠ .finished)
  panicked : ∀ q, Act.step p = .error .panicked q → p.joining = [] ∧
    ∃ payload, p.thread.running.code = .returned .program (.panicked payload)

end Process

namespace Act
open Process

variable {p : Process} {f : Nat} {held : List Nat} {payload : Payload}

theorem step_logs
    (hcode : p.thread.running.code = .leaving (.callback f) held (.panicked payload)) :
    step.Leads p
      (fun _ q => ∃ record records, record.Tells f payload ∧
        q.trace = .logged record :: (List.map .logged records ++ p.trace))
      fun _ _ => True := by
  let q : Process := {p with
    thread := p.thread.become (.returned (.callback f) (.panicked payload))}
  have hedits : (releaseAll held).Edits .usual q := edits_releaseAll held
  have hgo : (do releaseAll held; log (.panicked f payload.report) : Act Unit).Leads q
      (fun _ q => ∃ record records, record.Tells f payload ∧
        q.trace = .logged record :: (List.map .logged records ++ p.trace))
      fun _ _ => True := by
    refine Leads.bind (hedits.mono (fun _ _ h => h) fun _ _ _ => trivial) fun _ r hedited => ?_
    obtain ⟨records, htrace⟩ := hedited.spares.trace
    rw [Leads, log_eq]
    have hlogged : (Record.panicked f payload.report).logOn r.level r.trace = _ :=
      Record.logOn_error rfl _
    exact ⟨_, records, payload.told f, hlogged.trans (congrArg (_ :: ·) htrace)⟩
  rw [Leads, step_leaving hcode]
  exact hgo

/-- Nothing but the program of the first thread brings the process to panic. -/
theorem step_panicked {q : Process} (hp : p.Ordered) (hs : step p = .error .panicked q) :
    p.joining = [] ∧ ∃ payload, p.thread.running.code = .returned .program (.panicked payload) := by
  have hlasting : Lasting True True True fun _ => True :=
    ⟨fun _ _ _ _ _ _ => trivial, fun _ _ => trivial, fun _ _ => trivial, fun _ _ _ => trivial,
      fun _ _ _ => trivial⟩
  have hkeeps := (keeps_step hlasting trivial (p := p) trivial (fun _ _ _ _ _ => trivial)
    (fun _ _ _ _ _ => trivial) fun _ _ => trivial).error hs
  obtain ⟨hj, outcome, hcode⟩ := hkeeps.2.resolve_left id
  obtain ⟨halt, hs', hhalt⟩ := step_ends hp hcode hj
  rw [hs] at hs'
  cases hs'
  refine ⟨hj, ?_⟩
  cases outcome with
  | finished => exact (hhalt.mp rfl rfl).elim
  | panicked payload => exact ⟨payload, hcode⟩

end Act

open Process Act

theorem Scenario.Reaches.containsPanics {s : Scenario} {p : Process} (h : s.Reaches p) :
    p.ContainsPanics := by
  have hp := h.lawful.ordered
  exact {
    closes := fun _ _ _ hcloses => step_closes hcloses
    returns := fun _ _ _ hcode => step_leaves hp hcode
    logs := fun _ _ _ _ hcode hq => (step_logs hcode).ok hq
    terminates := fun f outcome hcode => by
      obtain ⟨x, hx, -⟩ := hp.thread.toSound.returned hcode
      exact (step_finish_leads hp hcode hx).mono (fun _ _ hq => hq.2.1) fun _ _ hq => hq.2.1
    proceeds := fun _ hq => h.proceeds hq
    unended := h.unended
    joins := fun outcome joiner rest hcode hj q hq => (step_joins hcode hj).ok hq
    ends := fun _ hcode hj => step_ends hp hcode hj
    panicked := fun _ hq => step_panicked hp hq }

section Runs

variable {level : Level} {scripts scripts' : List (String × List Op)} {broken : String → Prop}
  {hfit : (Variation.cut scripts scripts' broken).Fit} {w : Pairing} {p p' : Process}

theorem contains_of_alike (h : (Likeness.cut level hfit).Alike w p p') : p.Contains broken p' where
  nextId := h.nextId
  live := h.live
  stackSize := h.stackSize
  memory := (h.memory.resolve_left id).1
  threads := by
    obtain rfl : p.scripts = scripts := h.scripts
    obtain rfl : p'.scripts = scripts' := h.scripts'
    refine ⟨w, (h.memory.resolve_left id).2, .cons h.thread ?_⟩
    exact List.rel_map (fun _ _ hj => hj.thread) h.joining

/-- **Runs** with panics and without come to the same. -/
theorem run_contained {n : Nat} (hp : p.Lawful) (h : (Likeness.cut level hfit).Alike w p p') :
    Match (fun q q' => q.Lawful ∧ ∃ u, (Likeness.cut level hfit).Alike u q q')
      (fun halt q halt' q' => halt' = halt ∧
        ContainedEnd (some halt) q.trace.reverse q'.trace.reverse) (p.run n) (p'.run n) := by
  refine (run_abreast (X := fun _ _ => False) (fun q q' ⟨hq, u, hu⟩ => .inl ?_)
    ⟨hp, w, h⟩ n).resolve_right fun ⟨_, _, _, _, hparting⟩ => hparting.parts
  refine (step_contained hu hq.ordered).run.imp (fun r r' hr _ ⟨u', _, hu'⟩ => ⟨hq.run hr, u', hu'⟩)
    fun halt r halt' r' ⟨u', _, hu', hends⟩ => hends (hu'.resolve_left id)

/-- Scenarios of which one is cut begin alike. -/
theorem Scenario.Cut.start {s s' : Scenario} (h : s.Cut broken s') :
    (Likeness.cut s.level h.scripts).Alike [] s.process s'.process :=
  alike_process rfl h.level rfl rfl h.environment h.placement (fun _ => rfl) h.program
    fun _ => .nil

end Runs

/-- What panics of callbacks come to in a scenario, next to one in which the callbacks leave off. -/
structure Scenario.PanicsContained (broken : String → Prop) (s s' : Scenario) : Prop where
  /-- The runs are equally long and have the same end, and the same happens but for the panics. -/
  same : ∀ n, (s'.play n).halt = (s.play n).halt ∧
    ContainedEnd (s.play n).halt (s.play n).events (s'.play n).events
  /-- All the while the processes differ in nothing else. -/
  alike : ∀ n p p', s.process.run n = (none, p) → s'.process.run n = (none, p') →
    p.Contains broken p'
  /-- What each process does about panics. -/
  contains : ∀ p, s.Reaches p → p.ContainsPanics
  /-- A script has returned only if, two steps before and on the same thread, its own code came to
  its end or panicked. -/
  history : ∀ n q origin outcome, s.process.run n = (none, q) →
    q.thread.running.code = .returned origin outcome →
    ∃ m p held, n = m + 2 ∧ s.process.run m = (none, p) ∧ p.Closes origin held outcome ∧
      q.joining = p.joining

/-- **Panics are contained.** A callback that panics comes to the same as one that leaves off, but
that its panic is logged where the other's end is reported. -/
theorem Scenario.panics_contained {broken : String → Prop} {s s' : Scenario}
    (h : s.Cut broken s') : s.PanicsContained broken s' where
  same n := by
    have hmatch := run_contained s.lawful h.start (n := n)
    rw [play, play]
    cases hr : s.process.run n with
    | mk end? q =>
      cases hr' : s'.process.run n with
      | mk end'? q' =>
        rw [hr, hr'] at hmatch
        cases hmatch with
        | going hgoing =>
          obtain ⟨-, w, hq⟩ := hgoing
          exact ⟨rfl, .same _ (hq.trace (hq.memory.resolve_left id).2)⟩
        | halted hends => exact ⟨congrArg some hends.1, hends.2⟩
  alike n p p' hp hp' := by
    have hmatch := run_contained s.lawful h.start (n := n)
    rw [hp, hp'] at hmatch
    cases hmatch with
    | going hgoing =>
      obtain ⟨-, w, hq⟩ := hgoing
      exact contains_of_alike hq
  contains p hp := hp.containsPanics
  history n q origin outcome hrun hcode := run_returned hrun hcode

/-- The callback of `g` holds a handle of `k`, which was never resumed, and has `rest` to do
then. A second one of `g` has `again` to do. -/
def Scenario.outburst (rest again : List Op) : Scenario where
  program := [
    .on "new" "k" (.create "k" (.inline [.mk ⟨"note", none⟩ .note]) 16384 false none),
    .on "new" "g" (.create "g" (.inline (
      [.on "clone" "k" (.clone "k" "spare"), .on "hold" "spare" (.hold "spare")] ++ rest))
      16384 false none),
    .on "resume" "g" (.resume "g"),
    .on "state" "g" (.state "g"),
    .on "reset" "g" (.reset "g" (.inline again)),
    .on "resume" "g" (.resume "g")]

/-- Both callbacks panic, the second with a message. -/
def Scenario.outbursts : Scenario :=
  .outburst [.mk ⟨"panic", none⟩ (.panic .other)] [.mk ⟨"panic", none⟩ (.panic (.message "boom"))]

/-- After each panic the fiber has terminated, and the program goes on. -/
theorem outburst_panics_contained :
    Scenario.outbursts.Cut (fun _ => False) (.outburst [] []) ∧
    ((Scenario.outburst [] []).play 50).halt = (Scenario.outbursts.play 50).halt ∧
    ContainedEnd (Scenario.outbursts.play 50).halt (Scenario.outbursts.play 50).events
      ((Scenario.outburst [] []).play 50).events ∧
    (Scenario.outbursts.play 50).events.filterMap (fun
      | .logged record => if record.level = .error then some record.text else none
      | _ => none) = ["fiber 1 panicked: non-string payload", "fiber 1 panicked: boom"] ∧
    .done ⟨"state", some (.text "g")⟩ ⟨2, 3⟩ (.state .term) ∈
      (Scenario.outbursts.play 50).events ∧
    .done ⟨"resume", some (.text "g")⟩ ⟨2, 3⟩ (.state .term) ∈
      (Scenario.outbursts.play 50).events := by
  have hcut : Scenario.outbursts.Cut (fun _ => False) (.outburst [] []) := {
    level := rfl
    environment := rfl
    placement := rfl
    scripts := ⟨fun _ => .none, fun _ _ => .none⟩
    program := by
      refine .cons (.mk _ (.create _ _ _ (.ops rfl rfl ?_) rfl)) (.cons (.mk _ ?_)
        (.cons (.mk _ (.plain trivial)) (.cons (.mk _ (.plain trivial))
          (.cons (.mk _ (.reset _ (.cut trivial rfl rfl .nil)))
            (.cons (.mk _ (.plain trivial)) .nil)))))
      · exact .cons (.mk _ (.plain trivial)) .nil
      · refine .create _ _ _ (.cut trivial rfl rfl ?_) rfl
        exact .cons (.mk _ (.plain trivial)) (.cons (.mk _ (.plain trivial)) .nil) }
  obtain ⟨hhalt, hevents⟩ := (Scenario.panics_contained hcut).same 50
  exact ⟨hcut, hhalt, hevents, by decide +kernel, by decide +kernel, by decide +kernel⟩

end Fibers
