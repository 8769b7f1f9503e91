import Fibers.Proofs.Ledger
import Fibers.Proofs.Outcome
import Fibers.Proofs.Underway

/-! Threads apart.

A thread that waits for another stays as it is: whatever goes on above it, on the thread it started
or on those that one starts, is done to other threads (`run_above`). When the program of a thread is
over its root is given up, which goes then and there if nobody else keeps a handle of it, and only
after that is the thread told that waited. -/
namespace Fibers

/-- Somewhere on the thread there is a handle of the fiber, besides the one that the thread keeps of
its root. -/
inductive Thread.Keeps (t : Thread) (f : Nat) : Prop
  | slot {s : String} (h : t.slots.get? s = some f)
  | running (h : f ∈ t.running.code.handles)
  | resting {g : Nat} {x : Fiber} {k : Context} (hx : t.fibers.get? g = some x)
    (hk : x.context = some k) (h : f ∈ k.code.handles)
  | lost {k : Context} (hk : k ∈ t.lost) (h : f ∈ k.code.handles)

/-- A handle is in a slot or in one of the contexts. -/
theorem Thread.keeps_iff_contains {t : Thread} {f : Nat} : t.Keeps f ↔
    (∃ s, t.slots.get? s = some f) ∨ ∃ k, t.Contains k ∧ f ∈ k.code.handles := by
  constructor
  · intro h
    cases h with
    | slot h => exact .inl ⟨_, h⟩
    | running h => exact .inr ⟨_, .running, h⟩
    | resting hx hk h => exact .inr ⟨_, .rests hx hk, h⟩
    | lost hk h => exact .inr ⟨_, .lost hk, h⟩
  · rintro (⟨s, hs⟩ | ⟨k, hk, h⟩)
    · exact .slot hs
    · cases hk with
      | running => exact .running h
      | rests hx hk => exact .resting hx hk h
      | lost hk => exact .lost hk h

theorem Thread.keeps_iff {t : Thread} {f : Nat} : t.Keeps f ↔
    0 < t.slots.total (fun g => [g].count f) + t.weigh fun k => k.code.handles.count f := by
  rw [keeps_iff_contains]
  constructor
  · rintro (⟨s, hs⟩ | ⟨k, hk, h⟩)
    · have := t.slots.le_total (fun g => [g].count f) hs
      simp only [List.count_singleton_self] at this
      omega
    · have hle := hk.le_weigh fun k => k.code.handles.count f
      have := List.count_pos_iff.mpr h
      omega
  · intro h
    by_cases hslots : 0 < t.slots.total fun g => [g].count f
    · obtain ⟨s, g, hs, hg⟩ := Table.exists_of_total hslots
      obtain rfl : f = g := List.mem_singleton.mp (List.count_pos_iff.mp hg)
      exact .inl ⟨s, hs⟩
    · obtain ⟨k, hk, h⟩ := t.exists_of_weigh (w := fun k => k.code.handles.count f) (by omega)
      exact .inr ⟨k, hk, List.count_pos_iff.mp h⟩

/-- The root has one handle exactly if nobody else keeps one. -/
theorem Thread.Counted.root_handles {t : Thread} {root : Nat} {x : Fiber} (h : t.Counted [])
    (hroot : t.root = some root) (hx : t.fibers.get? root = some x) :
    x.handles ≤ 1 ↔ ¬t.Keeps root := by
  have hhandles := h.handles root
  rw [hx, Option.elim_some, List.count_nil, handlesOf, hroot, Option.toList_some,
    List.count_singleton_self] at hhandles
  rw [keeps_iff]
  omega

namespace Process

variable {p q r : Process} {n : Nat} {joiner : Joiner} {waiting : List Joiner}

/-! ### Above a thread that waits -/

/-- The thread waits, and all that execute in the meantime are above it. -/
def Above (p : Process) (waiting : List Joiner) : Prop := waiting <:+ p.joining

/-- The last thread above is over, and the one goes on that waited. -/
structure Rejoins (p q : Process) (joiner : Joiner) (waiting : List Joiner) : Prop where
  ended : ∃ outcome, p.thread.running.code = .returned .program outcome ∧
    ∃ status, q.trace.head? = some (.done joiner.label status (.joined outcome))
  joining : p.joining = joiner :: waiting
  thread : q.thread = joiner.thread
  joining' : q.joining = waiting

/-- A step above leaves the thread as it is, or goes back to it. -/
theorem Proceeds.above (h : p.Proceeds q) (hp : p.Above (joiner :: waiting)) :
    q.Above (joiner :: waiting) ∨ p.Rejoins q joiner waiting := by
  cases h with
  | on _ hj => exact .inl (by rwa [Above, hj])
  | starts _ _ hq =>
    subst hq
    exact .inl (hp.trans (List.suffix_cons ..))
  | closes _ hq =>
    subst hq
    exact .inl hp
  | leaves _ _ hj => exact .inl (by rwa [Above, hj])
  | @joins joiner' outcome hcode hj ht htrace =>
    rw [Above, hj] at hp
    rcases List.suffix_cons_iff.mp hp with heq | hp
    · cases heq
      exact .inr ⟨⟨outcome, hcode, htrace⟩, hj, ht, rfl⟩
    · exact .inl hp

/-- In a run the thread waits unchanged until a step goes back to it. -/
theorem run_above {s : Scenario} (hp : s.Reaches p) (habove : p.Above (joiner :: waiting))
    (hrun : p.run n = (none, q)) : q.Above (joiner :: waiting) ∨ ∃ m r r', m < n ∧
      p.run m = (none, r) ∧ Act.step r = .ok () r' ∧ r.Rejoins r' joiner waiting := by
  induction n generalizing p with
  | zero =>
    cases hrun
    exact .inl habove
  | succ n ih =>
    obtain ⟨p', hs, hrun⟩ := run_uncons hrun
    rcases (hp.proceeds hs).above habove with habove | hback
    · rcases ih (hp.step hs) habove hrun with habove | ⟨m, r, r', hm, hr, hr', hback⟩
      · exact .inl habove
      · exact .inr ⟨m + 1, r, r', Nat.succ_lt_succ hm, (run_succ hs).trans hr, hr', hback⟩
    · exact .inr ⟨0, p, p', Nat.succ_pos n, rfl, hs, hback⟩

/-- A thread is started, and after so many steps the process is back for the first time. -/
structure Spans (p : Process) (op : Op) (frame : Frame) (rest : List Task) (program : List Op)
    (n : Nat) (q : Process) : Prop where
  performs : p.thread.Performs op frame rest
  starts : ∃ script, op.action = .runThread script ∧ script.ops? p.scripts = some program
  run : p.run (n + 1) = (none, q)
  back : q.joining.length ≤ p.joining.length
  deeper : ∀ m r, m < n → p.run (m + 1) = (none, r) → p.joining.length < r.joining.length

/-- What the root of a thread comes to at the end of it: it goes unless it is kept elsewhere, and
the log tells. -/
def Uproots (p : Process) (root : Nat) (records : List Record) (t : Thread) : Prop :=
  (t.fibers.get? root = none ↔ ¬p.thread.Keeps root) ∧
    (.debug ≤ p.level → (.destroying root ∈ records ↔ ¬p.thread.Keeps root))

end Process

namespace Act
open Process

variable {p q : Process} {op : Op} {frame : Frame} {rest : List Task} {program : List Op}

/-- Starting a thread does nothing else. -/
theorem step_launches {script : Script} (hop : p.thread.Performs op frame rest)
    (ha : op.action = .runThread script) (hprogram : script.ops? p.scripts = some program) :
    step p = .ok () ((p.takeUp frame rest).launched op.label program) := by
  rw [step_of_performs hop]
  unfold perform
  rw [ha]
  dsimp only
  rw [bind_ok (resolve_eq script _), show (p.takeUp frame rest).scripts = p.scripts from rfl,
    hprogram]
  rfl

/-- The root is not the thread's any more, and goes unless it is kept elsewhere. -/
theorem releaseRoot_uproots (hp : p.thread.Sound []) :
    releaseRoot.Leads p (fun _ q => ∃ records, q.thread.root = none ∧ q.ended = p.ended ∧
        q.trace = List.map .logged records ++ p.trace ∧
        ∀ root, p.thread.root = some root → p.Uproots root records q.thread)
      fun _ _ => True := by
  unfold releaseRoot
  rw [leads_bind, leads_thread]
  cases hroot : p.thread.root with
  | none => exact ⟨[], hroot, rfl, rfl, fun _ h => nomatch h⟩
  | some root =>
    obtain ⟨x, hx⟩ := hp.toCounted.root_alive hroot
    have hstack := (hp.root_iff root x hx).mpr hroot
    have hkeeps := hp.toCounted.root_handles hroot hx
    let q : Process := {p with thread := {p.thread with
      root := none
      current := if p.thread.current = some root then none else p.thread.current}}
    refine leads_bind.mpr (leads_modifyThread.mpr ?_)
    show (release root).Leads q _ _
    refine leads_bind.mpr ((leads_fiber (p := q) hx).mpr ?_)
    split
    · next hlast =>
      have hgone : ¬p.thread.Keeps root := hkeeps.mp hlast
      unfold destroy bury lose
      rw [hstack]
      simp only [leads_bind, leads_log, leads_modify, leads_ensure, leads_modifyThread]
      refine ⟨fun _ => ⟨fun _ => ?_, fun _ => trivial⟩, fun _ => trivial⟩
      by_cases hlevel : Level.debug ≤ p.level
      · refine ⟨[.destroying root], rfl, rfl, if_pos hlevel, fun _ h => ?_⟩
        cases h
        simp [Uproots, hgone, Table.get?_erase]
      · refine ⟨[], rfl, rfl, if_neg hlevel, fun _ h => ?_⟩
        cases h
        simp [Uproots, hgone, hlevel, Table.get?_erase]
    · next hmore =>
      refine leads_setFiber.mpr ⟨[], rfl, rfl, rfl, fun _ h => ?_⟩
      cases h
      have hkept : p.thread.Keeps root := not_not.mp fun h => hmore (hkeeps.mpr h)
      simp [Uproots, hkept, Table.get?_set]

/-- The thread that ends gives up its root before the one that waited is told. -/
theorem step_gives_up {outcome : Outcome} {joiner : Joiner} {waiting : List Joiner}
    (hp : p.Ordered) (hcode : p.thread.running.code = .returned .program outcome)
    (hj : p.joining = joiner :: waiting) :
    step.Leads p (fun _ q => ∃ t records status, q.ended = t :: p.ended ∧ t.root = none ∧
        q.trace = .done joiner.label status (.joined outcome) ::
          (List.map .logged records ++ p.trace) ∧
        ∀ root, p.thread.root = some root → p.Uproots root records t)
      fun _ _ => True := by
  rw [Leads, step_eq, hcode]
  refine (show (endThread outcome).Leads p _ _ from ?_)
  unfold endThread
  rw [leads_bind, leads_get, hj]
  refine Leads.bind (releaseRoot_uproots hp.thread.toSound) fun _ q hq => ?_
  obtain ⟨records, hroot, hended, htrace, huproots⟩ := hq
  refine leads_bind.mpr (leads_modify.mpr ((answer_leads ..).mono (fun _ r h => ?_)
    fun _ _ _ => trivial))
  subst h
  exact ⟨q.thread, records, _, congrArg (_ :: ·) hended, hroot, congrArg (_ :: ·) htrace, huproots⟩

end Act

namespace Process
open Act

variable {p q r : Process} {n : Nat} {op : Op} {frame : Frame} {rest : List Task}
  {program : List Op} {s : Scenario}

/-- The thread that was started has ended in the last step, and the one that started it goes on. -/
theorem Spans.ends (h : p.Spans op frame rest program n q) (hp : s.Reaches p) :
    ∃ m r, n = m + 1 ∧ p.run n = (none, r) ∧ Act.step r = .ok () q ∧
      r.Rejoins q ⟨(p.takeUp frame rest).thread, op.label⟩ p.joining := by
  obtain ⟨script, ha, hprogram⟩ := h.starts
  have hstart := step_launches h.performs ha hprogram
  have hrun : ((p.takeUp frame rest).launched op.label program).run n = (none, q) :=
    (run_succ hstart).symm.trans h.run
  rcases run_above (hp.step hstart) (List.suffix_refl _) hrun with habove | hback
  · have hlength := habove.length_le
    have hback := h.back
    rw [List.length_cons] at hlength
    exact (Nat.lt_irrefl _ (Nat.lt_of_lt_of_le hlength hback)).elim
  · obtain ⟨m, r, r', hm, hr, hs, hback⟩ := hback
    have hthere : p.run (m + 1) = (none, r) := (run_succ hstart).trans hr
    have hthen : p.run (m + 2) = (none, r') := by
      rw [run_add hthere 1, run_succ hs]
      rfl
    rcases Nat.lt_or_eq_of_le hm with hlt | heq
    · have hdeeper := h.deeper (m + 1) r' hlt hthen
      rw [hback.joining'] at hdeeper
      exact (Nat.lt_irrefl _ hdeeper).elim
    · subst heq
      rw [h.run] at hthen
      cases hthen
      exact ⟨m, r, rfl, hthere, hs, hback⟩

/-! ### What is not of one thread -/

theorem Effects.settings {kind : Kind} (h : p.Effects kind q) :
    q.level = p.level ∧ q.scripts = p.scripts :=
  h.keeps (P := fun q => q.level = p.level ∧ q.scripts = p.scripts) ⟨rfl, rfl⟩
    (fun hp hedit => ⟨hedit.spares.level.trans hp.1, hedit.spares.scripts.trans hp.2⟩)
    (fun _ hp => hp) id (fun _ _ hp => hp) fun hp _ => hp

/-- No run changes the level or the scripts, and threads that have ended stay as they are. -/
theorem Lawful.run_settings (h : p.Lawful) (hrun : p.run n = (none, q)) :
    q.level = p.level ∧ q.scripts = p.scripts ∧ p.ended <:+ q.ended := by
  refine (run_induction (P := fun q => q.Lawful ∧
    q.level = p.level ∧ q.scripts = p.scripts ∧ p.ended <:+ q.ended) (fun q r hq hs => ?_)
    ⟨h, rfl, rfl, List.suffix_refl _⟩ hrun).2
  obtain ⟨hlawful, hlevel, hscripts, hended⟩ := hq
  have hsettings := ((step_effects hlawful.ordered).ok hs).settings
  have hturn := (hlawful.step hs).1
  refine ⟨(hlawful.step hs).2, hsettings.1.trans hlevel, hsettings.2.trans hscripts, ?_⟩
  rcases hturn.ended_cases with hsame | ⟨r, -, hmore⟩
  · rwa [hsame]
  · rw [hmore]
    exact hended.trans (List.suffix_cons ..)

/-- If nobody went who was alive before, then those are alive who were, and those who were made and
did not go. -/
theorem Lawful.live_run (h : p.Lawful) (hbooks : p.Books) (hbooks' : q.Books)
    (hrun : p.run n = (none, q)) (hsub : p.roster ⊆ q.roster) :
    q.live = p.live + ((p.made n).filter (· ∉ p.destroyed n)).length := by
  have hmade := h.made_run hrun
  have hperm := h.destroyed_run hrun
  have hrange : (List.range p.nextId ++ p.made n).Nodup := hmade ▸ List.nodup_range
  have hnodup : (p.roster ++ p.made n).Nodup := by
    refine h.nodup_roster.append (List.nodup_append.mp hrange).2.1 fun f hf hmem => ?_
    exact (List.nodup_append'.mp hrange).2.2 (List.mem_range.mpr (h.lt_of_roster hf)) hmem
  have hgone : (p.destroyed n ++ q.roster).Nodup := hperm.nodup_iff.mpr hnodup
  have hroster : q.roster.Perm (p.roster ++ (p.made n).filter (· ∉ p.destroyed n)) := by
    rw [List.perm_ext_iff_of_nodup (h.run hrun).nodup_roster
      (hnodup.sublist (List.filter_sublist.append_left _))]
    intro f
    have hmem := hperm.mem_iff (a := f)
    have hdisjoint : f ∈ p.destroyed n → f ∉ q.roster :=
      fun hf hmem => (List.nodup_append'.mp hgone).2.2 hf hmem
    have hstays := @hsub f
    simp only [List.mem_append, List.mem_filter, decide_eq_true_eq] at hmem ⊢
    tauto
  rw [hbooks'.live, hbooks.live, ← length_roster, ← length_roster, hroster.length_eq,
    List.length_append]

/-- A process on whose threads all fibers are that were there before has lost nobody. -/
theorem roster_subset {t t' : Thread} (ht : p.thread = t) (ht' : q.thread = t')
    (hfibers : t'.fibers = t.fibers) (hj : q.joining = p.joining) (he : p.ended <:+ q.ended) :
    p.roster ⊆ q.roster := by
  intro f hf
  simp only [roster, everyThread, threads, ht, ht', hj, List.mem_flatMap, List.cons_append,
    List.mem_cons, List.mem_append] at hf ⊢
  obtain ⟨u, rfl | hu | hu, hf⟩ := hf
  · exact ⟨t', .inl rfl, hfibers ▸ hf⟩
  · exact ⟨u, .inr (.inl hu), hf⟩
  · exact ⟨u, .inr (.inr (he.subset hu)), hf⟩

/-- What it comes to that a program ran on a thread of its own. -/
structure Isolated (p : Process) (op : Op) (frame : Frame) (rest : List Task) (program : List Op)
    (n : Nat) (q : Process) : Prop where
  /-- The new thread has neither a current fiber nor a root nor a hub, nor any fiber at all. -/
  starts : ∃ started, Act.step p = .ok () started ∧
    started.thread = {running := ⟨p.nextSerial, .opening program⟩} ∧
    started.joining = ⟨(p.takeUp frame rest).thread, op.label⟩ :: p.joining
  /-- The thread that waited has taken up the operation, and is otherwise as it was. -/
  thread : q.thread = p.thread.become (.active {frame with todo := rest})
  /-- So are those that wait for it. -/
  joining : q.joining = p.joining
  level : q.level = p.level
  scripts : q.scripts = p.scripts
  /-- Threads that had ended before are left alone. -/
  ended : p.ended <:+ q.ended
  /-- In its last step the new thread gives up its root, and only then the other is told. -/
  ends : ∃ r outcome t records status, p.run n = (none, r) ∧
    r.joining = ⟨(p.takeUp frame rest).thread, op.label⟩ :: p.joining ∧
    r.thread.running.code = .returned .program outcome ∧
    q.ended = t :: r.ended ∧ t.root = none ∧
    q.trace = .done op.label status (.joined outcome) :: (List.map .logged records ++ r.trace) ∧
    ∀ root, r.thread.root = some root → r.Uproots root records t
  /-- As many more are alive as were made and did not go. -/
  live : q.live =
    p.live + ((p.made (n + 1)).filter (· ∉ p.destroyed (n + 1))).length

end Process

open Process

/-- **Threads** are apart from each other. -/
theorem Scenario.threads_isolated {s : Scenario} {p q : Process} {op : Op} {frame : Frame}
    {rest : List Task} {program : List Op} {n : Nat} (hp : s.Reaches p)
    (h : p.Spans op frame rest program n q) : p.Isolated op frame rest program n q := by
  obtain ⟨m, r, rfl, hr, hs, hback⟩ := h.ends hp
  obtain ⟨script, ha, hprogram⟩ := h.starts
  obtain ⟨outcome, hcode, -, -⟩ := hback.ended
  obtain ⟨hlevel, hscripts, hended⟩ := hp.lawful.run_settings h.run
  obtain ⟨t, records, status, hends, hroot, htrace, huproots⟩ :=
    (Act.step_gives_up (hp.lawful.run hr).ordered hcode hback.joining).ok hs
  have hj := hback.joining'
  have hsub := roster_subset rfl hback.thread rfl hj hended
  exact {
    starts := ⟨_, Act.step_launches h.performs ha hprogram, rfl, rfl⟩
    thread := hback.thread
    joining := hj
    level := hlevel
    scripts := hscripts
    ended := hended
    ends := ⟨r, outcome, t, records, status, hr, hback.joining, hcode, hends, hroot, htrace,
      huproots⟩
    live := hp.lawful.live_run hp.books (hp.run h.run).books h.run hsub }

/-- The script that an action runs on a thread. -/
def Action.runs? : Action → Option Script
  | .runThread script => some script
  | _ => none

theorem Action.of_runs? {action : Action} {script : Script} (h : action.runs? = some script) :
    action = .runThread script := by
  unfold Action.runs? at h
  split at h
  · cases h
    rfl
  · cases h

/-- A callback starts a thread that keeps its root, leaves a fiber suspended and starts another
one, which panics. -/
def Scenario.detour : Scenario where
  level := .debug
  program := [
    .on "new" "f" (.create "f" (.inline [
      .on "thread" "t" (.runThread (.inline [
        .on "current" "me" (.current (some "me")),
        .on "new" "g" (.create "g" (.inline [.on "yield" "g" .yield]) 16384 false none),
        .on "resume" "g" (.resume "g"),
        .on "thread" "u" (.runThread (.inline [
          .on "current" "you" (.current none),
          .on "panic" "you" (.panic .other)]))]))]) 16384 false none),
    .on "resume" "f" (.resume "f")]

/-- The callback is about to start the thread. -/
def Process.detouring : Process := (Scenario.detour.process.run 4).2

/-- The thread is over. -/
def Process.detoured : Process := (detouring.run 17).2

open Process in
/-- The root that was kept stays, and so does the suspended fiber; the root of the third thread
goes. -/
theorem detour_threads_isolated : ∃ op frame rest program,
    Scenario.detour.Reaches detouring ∧ detouring.Spans op frame rest program 16 detoured ∧
    program.length = 4 ∧
    detoured.thread = detouring.thread.become (.active {frame with todo := rest}) ∧
    detouring.made 17 = [2, 3, 4] ∧ detouring.destroyed 17 = [4] ∧
    detoured.live = detouring.live + 2 ∧
    ∃ r t records, detouring.run 16 = (none, r) ∧ detoured.ended = t :: r.ended ∧
      t.root = none ∧ r.Uproots 2 records t := by
  have hp : Scenario.detour.Reaches detouring := Scenario.reaches_run (by decide +kernel)
  have hcode : detouring.thread.performs?.any (fun e =>
      (e.1.action.runs?.bind (·.ops? detouring.scripts)).any (·.length = 4)) = true := by
    decide +kernel
  obtain ⟨⟨op, frame, rest⟩, hperforms, hlaunches⟩ := (Option.any_eq_true ..).mp hcode
  obtain ⟨program, hprogram, hlength⟩ := (Option.any_eq_true ..).mp hlaunches
  obtain ⟨script, hscript, hprogram⟩ := Option.bind_eq_some_iff.mp hprogram
  have hgoing : (detouring.run 17).1 = none := by decide +kernel
  have hrun : detouring.run 17 = (none, detoured) := by
    rw [detoured, ← hgoing]
  have hdeeper : ∀ m < 16, detouring.joining.length < (detouring.run (m + 1)).2.joining.length := by
    decide +kernel
  have h : detouring.Spans op frame rest program 16 detoured := {
    performs := Thread.performs_of hperforms
    starts := ⟨script, Action.of_runs? hscript, hprogram⟩
    run := hrun
    back := by decide +kernel
    deeper := fun m r hm hr => by
      have := hdeeper m hm
      rwa [hr] at this }
  have hisolated := Scenario.threads_isolated hp h
  have hmade : detouring.made 17 = [2, 3, 4] := by decide +kernel
  have hdestroyed : detouring.destroyed 17 = [4] := by decide +kernel
  have hroot : (detouring.run 16).2.thread.root = some 2 := by decide +kernel
  have hstayed : ([2, 3, 4].filter (· ∉ [4])).length = 2 := by decide
  have hlive : detoured.live = detouring.live + 2 := by
    rw [hisolated.live, hmade, hdestroyed, hstayed]
  obtain ⟨r, -, t, records, -, hr, -, -, hended, hnone, -, huproots⟩ := hisolated.ends
  rw [hr] at hroot
  exact ⟨op, frame, rest, program, hp, h, of_decide_eq_true hlength, hisolated.thread, hmade,
    hdestroyed, hlive, r, t, records, hr, hended, hnone, huproots 2 hroot⟩

end Fibers
