import Fibers.Proofs.Roster

/-! The log as a ledger.

At a level that lets them through, the log has one record for each fiber that is made and one for
each that goes. The first name the ids in order, and with those that are alive the second name
each of them once. So how many were alive when something was reported can be read off the log. -/
namespace Fibers

/-- The fiber that an event says was made. -/
def Event.born? : Event → Option Nat
  | .logged record => record.born?
  | _ => none

/-- The fiber that an event says goes. -/
def Event.gone? : Event → Option Nat
  | .logged record => record.gone?
  | _ => none

/-- The fibers that events say were made. -/
def births (events : List Event) : List Nat := events.filterMap Event.born?

/-- The fibers that events say went. -/
def deaths (events : List Event) : List Nat := events.filterMap Event.gone?

namespace Thread

variable {t u : Thread} {f g : Nat} {x : Fiber}

theorem lives_congr (h : u.fibers = t.fibers) (f : Nat) : u.lives f = t.lives f := by
  rw [lives, lives, h]

theorem lives_setFiber : (t.setFiber f x).lives g = if g = f then 1 else t.lives g := by
  rw [lives, get?_setFiber]
  split <;> rfl

theorem lives_bury : (t.bury f x).lives g = if g = f then 0 else t.lives g := by
  rw [lives, get?_bury]
  split <;> rfl

theorem lives_eq_one (hx : t.fibers.get? f = some x) : t.lives f = 1 := by
  rw [lives, hx, Option.elim_some]

end Thread

namespace Process

variable {p q r : Process} {kind : Kind} {f : Nat} {stack : Memory.Stack}

/-- What an edit logs of fibers is what it does to those alive. -/
inductive Tells (p q : Process) : Prop
  | same (hid : q.nextId = p.nextId) (hlives : ∀ f, q.thread.lives f = p.thread.lives f)
    (hbirths : births q.trace = births p.trace) (hdeaths : deaths q.trace = deaths p.trace)
  | comes {record : Record} (hborn : record.born? = some p.nextId) (hgone : record.gone? = none)
    (hlevel : record.level = .debug) (hid : q.nextId = p.nextId + 1)
    (hlives : ∀ f, q.thread.lives f = if f = p.nextId then 1 else p.thread.lives f)
    (htrace : q.trace = Act.logged p record)
  | goes {g : Nat} (hid : q.nextId = p.nextId) (hg : p.thread.lives g = 1)
    (hlives : ∀ f, q.thread.lives f = if f = g then 0 else p.thread.lives f)
    (htrace : q.trace = Act.logged p (.destroying g))

/-- What nobody comes or goes in tells nothing. -/
theorem tells_of_fibers (hid : q.nextId = p.nextId) (hfibers : q.thread.fibers = p.thread.fibers)
    (htrace : q.trace = p.trace) : p.Tells q :=
  .same hid (Thread.lives_congr hfibers) (by rw [htrace]) (by rw [htrace])

theorem Tells.congr (h : p.Tells q) (hid : r.nextId = q.nextId)
    (hfibers : r.thread.fibers = q.thread.fibers) (htrace : r.trace = q.trace) : p.Tells r := by
  have hsame := Thread.lives_congr hfibers
  cases h with
  | same hid' hlives hbirths hdeaths =>
    exact .same (hid.trans hid') (fun f => (hsame f).trans (hlives f)) (htrace ▸ hbirths)
      (htrace ▸ hdeaths)
  | comes hborn hgone hlevel hid' hlives htrace' =>
    exact .comes hborn hgone hlevel (hid.trans hid') (fun f => (hsame f).trans (hlives f))
      (htrace.trans htrace')
  | goes hid' hg hlives htrace' =>
    exact .goes (hid.trans hid') hg (fun f => (hsame f).trans (hlives f)) (htrace.trans htrace')

theorem Tells.recover (h : p.Tells q) (stack : Memory.Stack) : p.Tells (q.recover stack) :=
  h.congr rfl (Thread.backs_book Memory.Tally.recordReleased (fun _ _ => rfl) _ stack).fibers rfl

theorem Allocates.tells (h : p.Allocates stack q) : p.Tells q := by
  obtain ⟨-, -⟩ := h
  exact tells_of_fibers rfl
    (Thread.backs_book Memory.Tally.recordAllocated (fun _ _ => rfl) _ stack).fibers rfl

theorem bury_tells {x : Fiber} (hx : p.thread.fibers.get? f = some x) :
    p.Tells {p.countOut f with thread := p.thread.bury f x} :=
  .goes rfl (Thread.lives_eq_one hx) (fun _ => Thread.lives_bury) rfl

theorem Edit.tells (h : p.Edit kind q) : p.Tells q := by
  cases h with
  | @log record hvital =>
    simp only [Record.vital, Bool.or_eq_false_iff, Option.isSome_eq_false_iff,
      Option.isNone_iff_eq_none] at hvital
    exact .same rfl (fun _ => rfl) (List.filterMap_cons_none hvital.1)
      (List.filterMap_cons_none hvital.2)
  | thread ht => exact tells_of_fibers rfl ht.fibers rfl
  | @fiber f x y hx =>
    refine .same rfl (fun g => ?_) rfl rfl
    rw [Thread.lives_setFiber]
    split
    · next hg => rw [hg, Thread.lives_eq_one hx]
    · rfl
  | root =>
    have hborn : (Record.createdRoot p.nextId).born? = some p.nextId := rfl
    refine .comes hborn rfl rfl rfl (fun f => ?_) rfl
    rw [Thread.lives_setFiber]
    split
    · rfl
    · next hf => exact Thread.lives_setFiber.trans (if_neg hf)
  | @task r stack callback scheduled _ _ hr =>
    obtain ⟨-, -⟩ := hr
    have hborn : (Record.created p.nextId stack.size).born? = some p.nextId := rfl
    refine .comes hborn rfl rfl rfl (fun f => ?_) rfl
    refine Thread.lives_setFiber.trans ?_
    rw [Thread.lives_congr (Thread.backs_book Memory.Tally.recordAllocated (fun _ _ => rfl) _
      stack).fibers]
  | destroyRoot hx => exact bury_tells hx
  | destroyTask hx => exact (bury_tells hx).recover _
  | keep _ hq => exact hq.tells.congr rfl rfl rfl
  | replace _ hq =>
    refine Tells.recover ?_ _
    exact hq.tells.congr rfl rfl rfl
  | free =>
    refine Tells.recover ?_ _
    exact tells_of_fibers rfl rfl rfl
  | _ => exact tells_of_fibers rfl rfl rfl

/-! ### The ledger -/

/-- What was reported so far tells as many alive as the log before it. -/
def Told (p : Process) : Prop :=
  ∀ event earlier status, event :: earlier <:+ p.trace → event.status? = some status →
    status.live + (deaths earlier).length = (births earlier).length

/-- The log tells who was made, and, with those alive, who went. -/
structure Ledger (p : Process) : Prop where
  level : .debug ≤ p.level
  made : births p.trace = (List.range p.nextId).reverse
  gone : ∀ f, (deaths p.trace).count f + p.sum (Thread.lives f) = if f < p.nextId then 1 else 0
  told : p.Told

/-- The log as it is also where a process has halted. -/
structure Chronicle (p : Process) : Prop where
  /-- The fibers that were made are those with the ids up to the next one, in this order. -/
  made : births p.trace = (List.range p.nextId).reverse
  /-- None went twice. -/
  gone : (deaths p.trace).Nodup
  live : p.live + (deaths p.trace).length = (births p.trace).length
  told : p.Told

theorem Spares.told (h : p.Spares q) (hp : p.Told) : q.Told := by
  obtain ⟨records, htrace⟩ := h.trace
  unfold Told
  rw [htrace]
  clear htrace
  induction records with
  | nil => exact hp
  | cons record records ih =>
    intro event earlier status hsuffix hstatus
    rcases List.suffix_cons_iff.mp hsuffix with he | hsuffix
    · cases he
      cases hstatus
    · exact ih event earlier status hsuffix hstatus

/-- A report is no record. -/
theorem report_untold {event : Status → Event} {status : Status}
    (hevent : (event status).status? = some status) :
    (event status).born? = none ∧ (event status).gone? = none := by
  cases he : event status with
  | logged => simp [he, Event.status?] at hevent
  | _ => exact ⟨rfl, rfl⟩

theorem logged_of_level {record : Record} (hlevel : .debug ≤ p.level)
    (hrecord : record.level = .debug) : Act.logged p record = .logged record :: p.trace := by
  rw [Act.logged, if_pos (hrecord ▸ hlevel)]

/-- What happens on the executing thread alone. -/
theorem Spares.sum (h : p.Spares q) (w : Thread → Nat) :
    q.sum w + w p.thread = p.sum w + w q.thread := by
  rw [sum_eq, sum_eq, h.joining, h.ended]
  omega

theorem Ledger.tells (h : p.Ledger) (hq : p.Tells q) (hspares : p.Spares q) : q.Ledger := by
  have hlevel : .debug ≤ q.level := hspares.level ▸ h.level
  have htold := hspares.told h.told
  cases hq with
  | same hid hlives hbirths hdeaths =>
    refine ⟨hlevel, by rw [hbirths, h.made, hid], fun f => ?_, htold⟩
    have := h.gone f
    have := hspares.sum (Thread.lives f)
    rw [hlives] at this
    rw [hdeaths, hid]
    omega
  | comes hborn hgone hrecord hid hlives htrace =>
    rw [logged_of_level h.level hrecord] at htrace
    have hbirths : births q.trace = p.nextId :: births p.trace := by
      rw [htrace]
      exact List.filterMap_cons_some hborn
    have hdeaths : deaths q.trace = deaths p.trace := by
      rw [htrace]
      exact List.filterMap_cons_none hgone
    refine ⟨hlevel, ?_, fun f => ?_, htold⟩
    · rw [hbirths, h.made, hid, List.range_succ, List.reverse_append]
      rfl
    · have hcount := h.gone f
      have hsum := hspares.sum (Thread.lives f)
      have hle : p.thread.lives f ≤ p.sum (Thread.lives f) := by
        rw [sum_eq]
        exact Nat.le_add_right _ _
      rw [hlives] at hsum
      rw [hdeaths, hid]
      split at hcount <;> split at hsum <;> split <;> omega
  | @goes g hid hg hlives htrace =>
    rw [logged_of_level h.level rfl] at htrace
    have hbirths : births q.trace = births p.trace := by
      rw [htrace]
      exact List.filterMap_cons_none rfl
    have hdeaths : deaths q.trace = g :: deaths p.trace := by
      rw [htrace]
      exact List.filterMap_cons_some rfl
    refine ⟨hlevel, by rw [hbirths, h.made, hid], fun f => ?_, htold⟩
    have hcount := h.gone f
    have hsum := hspares.sum (Thread.lives f)
    rw [hlives] at hsum
    rw [hdeaths, hid, List.count_cons]
    by_cases hf : f = g
    · subst hf
      simp only [if_true, beq_self_eq_true, hg] at hsum ⊢
      omega
    · have hne : (g == f) = false := by simpa using Ne.symm hf
      simp only [hf, hne, if_false, Bool.false_eq_true] at hsum ⊢
      omega

theorem Ledger.edited (h : p.Ledger) (hq : p.Edited kind q) : q.Ledger := by
  induction hq with
  | refl => exact h
  | tail _ hq ih => exact ih.tells hq.tells hq.spares

/-- Who went and who is alive are together those who were made. -/
theorem Ledger.settles (h : p.Ledger) :
    (deaths p.trace ++ p.roster).Perm (List.range p.nextId) := by
  rw [List.perm_iff_count]
  intro f
  rw [List.count_append, count_roster, h.gone f]
  split
  · next hf => exact (List.count_eq_one_of_mem List.nodup_range (List.mem_range.mpr hf)).symm
  · next hf => exact (List.count_eq_zero.mpr fun hmem => hf (List.mem_range.mp hmem)).symm

/-- As many are alive as were made less those that went. -/
theorem Ledger.live (h : p.Ledger) (hlive : p.live = p.sum Thread.population) :
    p.live + (deaths p.trace).length = (births p.trace).length := by
  have hlength := h.settles.length_eq
  rw [List.length_append, length_roster, ← hlive, List.length_range] at hlength
  rw [h.made, List.length_reverse, List.length_range, Nat.add_comm]
  exact hlength

theorem Ledger.report {event : Status → Event} (h : p.Ledger) (hbooks : p.Books)
    (hevent : ∀ status, (event status).status? = some status) : (p.report event).Ledger := by
  have hstatus := hevent ⟨p.thread.current.getD 0, p.live⟩
  obtain ⟨hborn, hgone⟩ := report_untold hstatus
  refine ⟨h.level, (List.filterMap_cons_none hborn).trans h.made, fun f => ?_, ?_⟩
  · have hdeaths : deaths (p.report event).trace = deaths p.trace :=
      List.filterMap_cons_none hgone
    rw [hdeaths]
    exact h.gone f
  · intro event' earlier status hsuffix hstatus'
    rcases List.suffix_cons_iff.mp hsuffix with he | hsuffix
    · cases he
      cases hstatus.symm.trans hstatus'
      exact h.live hbooks.live
    · exact h.told event' earlier status hsuffix hstatus'

/-! ### Steps -/

theorem Ledger.effects (h : p.Ledger) (hbooks : p.Books)
    (hbelow : ∀ f x, p.thread.fibers.get? f = some x → f < p.nextId) (hq : p.Effects kind q) :
    q.Ledger := by
  cases hq with
  | edits hq => exact h.edited hq
  | records hq =>
    cases hq with
    | nothing hq => exact h.edited hq
    | report hr hevent hq =>
      subst hq
      exact (h.edited hr).report (hbooks.edited hbelow hr) hevent
  | ended _ hq => exact (h.report hbooks fun _ => rfl).edited hq
  | @launch r label program hr hq =>
    subst hq
    have hr := h.edited hr
    exact ⟨hr.level, hr.made, fun f => (congrArg (_ + ·) (Nat.zero_add _)).trans (hr.gone f),
      hr.told⟩
  | @join r joiner rest event _ hr hj hevent hq =>
    subst hq
    have hwithdrawn : p.withdrawn.Ledger := ⟨h.level, h.made, h.gone, h.told⟩
    have hledger := hwithdrawn.edited hr
    have hjoined : Ledger {r with
        thread := joiner.thread, joining := rest, ended := r.thread :: r.ended} :=
      ⟨hledger.level, hledger.made,
        fun f => (congrArg (_ + ·) (sum_join _ hj)).trans (hledger.gone f), hledger.told⟩
    exact hjoined.report ((hbooks.withdrawn.edited hbelow hr).join hj) hevent

theorem Ledger.chronicle (h : p.Ledger) (hlive : p.live = p.sum Thread.population) :
    p.Chronicle where
  made := h.made
  gone := (List.nodup_append'.mp (h.settles.nodup_iff.mpr List.nodup_range)).1
  live := h.live hlive
  told := h.told

/-- A fiber that was counted out, though it may not go, is told of as if it went. -/
theorem Ledger.stuck (h : p.Ledger) (hbooks : p.Books) (hq : p.Stuck q) : q.Chronicle := by
  have htold := hq.spares.told h.told
  obtain @⟨f, x, v, hx⟩ := hq
  have hspares : p.Spares {p.countOut f with thread := p.thread.bury f x} :=
    (countOut_spares p f).trans (spares_of_same rfl rfl rfl rfl rfl)
  have hpeopled : p.Peopled (p.otherThreads.map Thread.population).sum := hbooks.live
  have hburied := (h.tells (bury_tells hx) hspares).chronicle (hpeopled.bury hx)
  have hbirths :
      births (Act.logged (p.countOut f) (.violated v)) = births (p.countOut f).trace := by
    unfold Act.logged
    split <;> rfl
  have hdeaths :
      deaths (Act.logged (p.countOut f) (.violated v)) = deaths (p.countOut f).trace := by
    unfold Act.logged
    split <;> rfl
  refine ⟨hbirths.trans hburied.made, hdeaths ▸ hburied.gone, ?_, htold⟩
  rw [hbirths, hdeaths]
  exact hburied.live

theorem Ledger.breaks {halt : Halt} (h : p.Ledger) (hbooks : p.Books)
    (hbelow : ∀ f x, p.thread.fibers.get? f = some x → f < p.nextId)
    (hq : p.Breaks kind halt q) : q.Chronicle := by
  rcases hq.left with hq | ⟨r, hr, hq⟩
  · exact (h.edited hq).chronicle (hbooks.edited hbelow hq).live
  · exact (h.edited hr).stuck (hbooks.edited hbelow hr) hq

theorem Ledger.parts {halt : Halt} (h : p.Ledger) (hbooks : p.Books)
    (hbelow : ∀ f x, p.thread.fibers.get? f = some x → f < p.nextId)
    (hq : p.Parts kind halt q) : q.Chronicle := by
  cases hq with
  | breaks hq => exact h.breaks hbooks hbelow hq
  | ended _ hq => exact (h.report hbooks fun _ => rfl).breaks (hbooks.report .ended) hbelow hq
  | withdrawn hq =>
    have hwithdrawn : p.withdrawn.Ledger := ⟨h.level, h.made, h.gone, h.told⟩
    exact hwithdrawn.breaks hbooks.withdrawn hbelow hq

end Process

variable {s : Scenario} {p : Process}

theorem Scenario.Reaches.reckoned (h : s.Reaches p) : p.Reckoned := by
  obtain ⟨n, hrun⟩ := h
  have hboth : p.Lawful ∧ p.Reckoned := by
    refine Process.run_induction (P := fun p => p.Lawful ∧ p.Reckoned) (fun p q h hq => ?_)
      ⟨s.lawful, fun t ht => ?_⟩ hrun
    · obtain ⟨hturn, hlawful⟩ := h.1.step hq
      exact ⟨hlawful, h.2.turn hturn hlawful.ordered⟩
    · obtain rfl := List.mem_singleton.mp ht
      exact s.lawful.ordered.thread.toCounted
  exact hboth.2

theorem Scenario.Reaches.ledger (h : s.Reaches p) (hlevel : .debug ≤ s.level) : p.Ledger := by
  obtain ⟨n, hrun⟩ := h
  have hboth : s.Reaches p ∧ p.Ledger := by
    refine Process.run_induction (P := fun p => s.Reaches p ∧ p.Ledger) (fun p q h hq => ?_)
      ⟨⟨0, rfl⟩, hlevel, rfl, fun f => rfl, fun event earlier status hsuffix => ?_⟩ hrun
    · have hordered := h.1.lawful.ordered
      exact ⟨h.1.step hq, h.2.effects h.1.books hordered.thread.below
        ((Act.step_effects hordered).ok hq)⟩
    · cases List.suffix_nil.mp hsuffix
  exact hboth.2

/-- What there is to say of the fibers of a scenario after so many steps. -/
structure Scenario.Accounts (s : Scenario) (n : Nat) (p : Process) : Prop where
  /-- Fibers are made under the ids 0, 1, 2 and so on, in this order. -/
  made : s.process.made n = List.range p.nextId
  /-- Each of them went once or is still alive. -/
  destroyed : (s.process.destroyed n ++ p.roster).Perm (List.range p.nextId)
  /-- A fiber is alive exactly as long as somebody keeps a handle of it. -/
  alive : ∀ f, f ∈ p.roster ↔ 0 < p.sum (Thread.handlesOf f)
  live : p.live = ((List.range p.nextId).filter fun f => 0 < p.sum (Thread.handlesOf f)).length
  /-- A fiber that gets no stack takes no id. -/
  starved : ∀ error q, Act.step p = .error (.aborted (.noStack error)) q → p.Unaltered q
  chronicle : .debug ≤ s.level → p.Chronicle
  /-- The log is right also where the process halts. -/
  halted : .debug ≤ s.level → ∀ halt q, Act.step p = .error halt q → q.Chronicle

/-- **Ids and the live count.** Over the whole run of a scenario, on all its threads, fibers come
under consecutive ids and go once at most, as many are counted alive as somebody keeps a handle
of, and every report tells as many alive as the log had come less those that it had go. Both counts
are of unbounded numbers here; counters of 64 bits come to the same up to 2^64 fibers. -/
theorem Scenario.accounts (s : Scenario) (n : Nat) (hrun : s.process.run n = (none, p)) :
    s.Accounts n p := by
  have hp : s.Reaches p := ⟨n, hrun⟩
  have hlawful := hp.lawful
  have hmade := s.lawful.made_run hrun
  exact {
    made := hmade
    destroyed := (s.lawful.destroyed_run hrun).trans (hmade ▸ .refl _)
    alive := fun f => hp.reckoned.alive_iff
    live := hp.reckoned.live hlawful hp.books
    starved := fun error q hq => Act.step_starved hlawful.ordered hq
    chronicle := fun hlevel => (hp.ledger hlevel).chronicle hp.books.live
    halted := fun hlevel halt q hq => (hp.ledger hlevel).parts hp.books
      hlawful.ordered.thread.below ((Act.step_effects hlawful.ordered).error hq) }

/-- Two fibers are made on two threads, and there is no stack for a third one. -/
def Scenario.shortage : Scenario where
  level := .debug
  program := [
    .on "new" "f" (.create "f" (.inline []) 16384 false none),
    .on "resume" "f" (.resume "f"),
    .on "drop" "f" (.drop "f"),
    .on "thread" "t" (.runThread (.inline [
      .on "new" "g" (.create "g" (.inline [.on "yield" "g" .yield]) 16384 false none),
      .on "resume" "g" (.resume "g")])),
    .on "tally" "t" (.makeTally "t" .heap (some 0)),
    .on "new" "h" (.create "h" (.inline []) 16384 false (some (.tally "t")))]

/-- The program is about to make the third fiber. -/
def Process.short : Process := (Scenario.shortage.process.run 20).2

open Process in
/-- The first fiber and the root of the second thread are gone, and the fiber that was left
suspended there is not. -/
theorem shortage_accounts : Scenario.shortage.process.run 20 = (none, short) ∧
    Scenario.shortage.process.made 20 = [0, 1, 2, 3] ∧
    (Scenario.shortage.process.destroyed 20 ++ short.roster).Perm [0, 1, 2, 3] ∧
    short.roster = [1, 2] ∧ 0 < short.sum (Thread.handlesOf 2) ∧ short.live = 2 ∧
    ∃ error q, Act.step short = .error (.aborted (.noStack error)) q ∧ q.nextId = 4 ∧
      births q.trace = [3, 2, 1, 0] ∧ 2 + (deaths q.trace).length = 4 := by
  have hnone : (Scenario.shortage.process.run 20).1 = none := by decide +kernel
  have hrun : Scenario.shortage.process.run 20 = (none, short) := by
    rw [short, ← hnone]
  have hid : short.nextId = 4 := by decide +kernel
  have hlive : short.live = 2 := by decide +kernel
  have hroster : short.roster = [1, 2] := by decide +kernel
  obtain ⟨q, hq⟩ : ∃ q, Act.step short =
      .error (.aborted (.noStack (.stackAllocation 16384 .outOfMemory))) q :=
    ⟨_, halt_of_run (by decide +kernel)⟩
  have haccounts := Scenario.accounts Scenario.shortage 20 hrun
  have hsame := haccounts.starved _ _ hq
  have hchronicle := haccounts.halted (by decide) _ _ hq
  have hmade := haccounts.made
  have hdestroyed := haccounts.destroyed
  have hbirths := hchronicle.made
  have htold := hchronicle.live
  rw [hid] at hmade hdestroyed
  rw [hsame.nextId, hid] at hbirths
  rw [hbirths, hsame.live, hlive] at htold
  refine ⟨hrun, hmade, hdestroyed, hroster, (haccounts.alive 2).mp (by simp [hroster]), hlive,
    _, q, hq, hsame.nextId.trans hid, hbirths, htold⟩

end Fibers
