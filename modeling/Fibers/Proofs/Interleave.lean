import Fibers.Proofs.Abort
import Fibers.Proofs.Visit

/-! The coroutine law.

The program of a thread resumes fibers with straight callbacks, in any order and each as often as
it has parts. Then every `resume` performs exactly the next part of the fiber it names, and
everything the run performs is what `interleave` says of independent coroutines
(`coroutines_interleave`). -/
namespace Fibers
namespace Process

/-- Parts of the callbacks of a family of fibers are left, the program has this to do, and the
other fibers are as they were. -/
structure Scheduled (p : Process) (frame : Frame) (todo : List Task) (family : List Nat)
    (left : Nat → List (List Op)) (q : Process) : Prop where
  slots : q.thread.slots = p.thread.slots
  hub : q.thread.hub = p.thread.hub
  code : q.thread.running.code = .active {frame with todo}
  stands : ∀ f ∈ family, q.thread.Stands f (left f)
  others : ∀ g x, g ∉ family → p.thread.fibers.get? g = some x → q.thread.fibers.get? g = some x

/-- The family can be scheduled: each callback is straight as far as it is left, and none of the
fibers is the hub. -/
structure Schedulable (p : Process) (family : List Nat) (left : Nat → List (List Op)) : Prop where
  stands : ∀ f ∈ family, p.thread.Stands f (left f)
  straight : ∀ f ∈ family, left f = [] ∨ Straight (left f)
  hub : ∀ f ∈ family, p.thread.hub ≠ some f

/-- The operation resumes a fiber of the family. -/
def Resumes (slots : Table String Nat) (family : List Nat) (op : Op) : Prop :=
  ∃ s f, op.action = .resume s ∧ slots.get? s = some f ∧ f ∈ family

variable {p q : Process} {s : Scenario} {frame : Frame} {rest : List Task} {op : Op} {f : Nat}
  {slot : String} {slots : Table String Nat} {schedule earlier later : List Op}
  {family : List Nat} {left parts : Nat → List (List Op)}

theorem target_of_resume (ha : op.action = .resume slot) (hs : slots.get? slot = some f) :
    op.target? slots = some f := by
  rw [Op.target?, ha]
  exact hs

theorem resumptions_cons (h : op.target? slots = some f) :
    resumptions slots f (op :: schedule) = resumptions slots f schedule + 1 := by
  rw [resumptions, List.countP_cons_of_pos (by simpa using h)]
  rfl

/-- A `resume` of the schedule leaves one part less of one fiber. -/
theorem Schedulable.resume (h : p.Schedulable family left) (hp : s.Reaches p)
    (hop : p.thread.Performs op frame rest) (ho : frame.origin = .program)
    (ha : op.action = .resume slot) (hs : p.thread.slots.get? slot = some f) (hf : f ∈ family)
    (hleft : left f ≠ []) :
    ∃ q log, p.Plays (op.performs p.thread.slots left) q ∧ p.Back frame rest f q ∧
      q.answers = (op.label, .state (if (left f).tail = [] then .term else .ready)) :: log ∧
      q.Schedulable family (op.spend p.thread.slots left) := by
  have htarget := target_of_resume ha hs
  obtain ⟨part, more, hparts⟩ := List.exists_cons_of_ne_nil hleft
  have hstraight := (h.straight f hf).resolve_left hleft
  have hstands := h.stands f hf
  rw [hparts] at hstraight hstands
  obtain ⟨q, log, hplays, hback, hq, hanswer⟩ :=
    resume_plays hp hop ho ha hs (h.hub f hf) hstands hstraight
  refine ⟨q, log, ?_, hback, by rwa [hparts], ⟨fun g hg => ?_, fun g hg => ?_, fun g hg => ?_⟩⟩
  · simpa [Op.performs, htarget, hparts] using hplays
  · by_cases hgf : f = g
    · subst hgf
      simpa [Op.spend, htarget, hparts] using hq
    · obtain ⟨x, hx, hx'⟩ := h.stands g hg
      exact ⟨x, hback.others g x (Ne.symm hgf) hx, by simpa [Op.spend, htarget, hgf] using hx'⟩
  · by_cases hgf : f = g
    · subst hgf
      simpa [Op.spend, htarget, hparts] using hstraight.drop 1
    · simpa [Op.spend, htarget, hgf] using h.straight g hg
  · rw [hback.hub]
    exact h.hub g hg

/-- A schedule leaves what coroutines have left. -/
theorem Schedulable.plays (h : p.Schedulable family left) (hp : s.Reaches p)
    (hcode : p.thread.running.code = .active frame) (ho : frame.origin = .program)
    (htodo : frame.todo = Task.ofOps schedule ++ rest)
    (hschedule : ∀ op ∈ schedule, Resumes p.thread.slots family op)
    (hcount : ∀ f ∈ family, resumptions p.thread.slots f schedule ≤ (left f).length) :
    ∃ q, p.Plays (interleave p.thread.slots left schedule) q ∧
      p.Scheduled frame rest family (remaining p.thread.slots left schedule) q ∧
      q.Schedulable family (remaining p.thread.slots left schedule) := by
  induction schedule generalizing p frame left with
  | nil =>
    exact ⟨p, .refl p, ⟨rfl, rfl, by rw [hcode, ← show frame.todo = rest from htodo], h.stands,
      fun _ _ _ hx => hx⟩, h⟩
  | cons op schedule ih =>
    obtain ⟨slot, f, ha, hs, hf⟩ := hschedule op (List.mem_cons_self ..)
    have htarget := target_of_resume ha hs
    have hpositive := hcount f hf
    rw [resumptions_cons htarget] at hpositive
    obtain ⟨q, -, hplays, hback, -, hq⟩ := h.resume hp ⟨hcode, htodo⟩ ho ha hs hf
      (List.ne_nil_of_length_pos (by omega))
    have hcount' : ∀ g ∈ family, resumptions q.thread.slots g schedule ≤
        (op.spend p.thread.slots left g).length := fun g hg => by
      have := hcount g hg
      rw [hback.slots, Op.spend, htarget]
      by_cases hgf : f = g
      · subst hgf
        rw [if_pos rfl, List.length_tail]
        omega
      · rw [if_neg (by simpa using hgf)]
        rw [resumptions, List.countP_cons_of_neg (by simpa [htarget] using hgf)] at this
        exact this
    obtain ⟨r, hplays', hr, hschedulable⟩ := ih hq (hp.plays hplays) hback.code ho rfl
      (fun op hmem => hback.slots ▸ hschedule op (List.mem_cons_of_mem _ hmem)) hcount'
    rw [hback.slots] at hplays' hr hschedulable
    rw [← remaining_cons] at hr hschedulable
    refine ⟨r, hplays.trans hplays', ⟨hr.slots.trans hback.slots, hr.hub.trans hback.hub, hr.code,
      hr.stands, fun g x hg hx => ?_⟩, hschedulable⟩
    exact hr.others g x hg (hback.others g x (fun h => hg (h ▸ hf)) hx)

/-- A fiber of the family has terminated exactly when its callback has no parts left. -/
theorem state_remaining {n : Nat} (hn : n = resumptions slots f earlier)
    (hle : n < (parts f).length) :
    ((remaining slots parts earlier f).tail = []) ↔ n + 1 = (parts f).length := by
  rw [remaining, ← hn, List.tail_drop, List.drop_eq_nil_iff]
  omega

/-- What a schedule of resumes does with fibers whose callbacks have these parts. -/
structure Interleaves (p : Process) (frame : Frame) (rest : List Task) (family : List Nat)
    (parts : Nat → List (List Op)) (schedule : List Op) : Prop where
  /-- However far the schedule has got, what was performed is what coroutines perform. -/
  runs : ∀ earlier later, schedule = earlier ++ later →
    ∃ q, p.Plays (interleave p.thread.slots parts earlier) q ∧
      p.Scheduled frame (Task.ofOps later ++ rest) family
        (remaining p.thread.slots parts earlier) q
  /-- Of each callback these are its parts from the first on, each once and in order. -/
  order : ∀ earlier later, schedule = earlier ++ later → ∀ f ∈ family,
    ofCallback f (interleave p.thread.slots parts earlier) =
      ((parts f).take (resumptions p.thread.slots f earlier)).flatten
  /-- Each `resume` performs the next part of its fiber and nothing else, leaves all other fibers
  as they were, and returns with the root current. -/
  resume : ∀ earlier op later slot f n, schedule = earlier ++ op :: later →
    op.action = .resume slot → p.thread.slots.get? slot = some f →
    n = resumptions p.thread.slots f earlier →
    ∃ q r x log, p.Plays (interleave p.thread.slots parts earlier) q ∧
      q.Plays ((.program, op) :: ((parts f).getD n []).map (.callback f, ·)) r ∧
      q.Back frame (Task.ofOps later ++ rest) f r ∧ r.thread.fibers.get? f = some x ∧
      x.state = (if n + 1 = (parts f).length then .term else .ready) ∧
      r.answers = (op.label, .state x.state) :: log
  /-- A fiber that was resumed as often as it has parts cannot be resumed again. -/
  spent : ∀ op todo slot f, rest = .perform op :: todo → op.action = .resume slot →
    p.thread.slots.get? slot = some f → f ∈ family →
    resumptions p.thread.slots f schedule = (parts f).length →
    ∃ q, p.Plays (interleave p.thread.slots parts schedule) q ∧
      Act.step.halt? q = some (.aborted (.resumedWhile f .term))

end Process

open Process in
/-- **The coroutine law.** A thread's program resumes fibers with straight callbacks, none of which
is the hub, each at most as often as its callback has parts. Then the run performs what independent
coroutines perform under the same schedule: every `resume` the next part of its fiber, and nothing
else. -/
theorem coroutines_interleave (s : Scenario) {p : Process} (hp : s.Reaches p) {frame : Frame}
    {schedule : List Op} {rest : List Task} (hcode : p.thread.running.code = .active frame)
    (ho : frame.origin = .program) (htodo : frame.todo = Task.ofOps schedule ++ rest)
    (family : List Nat) (parts : Nat → List (List Op))
    (hstraight : ∀ f ∈ family, Straight (parts f))
    (hfresh : ∀ f ∈ family, p.thread.Fresh f (parts f).flatten)
    (hhub : ∀ f ∈ family, p.thread.hub ≠ some f)
    (hschedule : ∀ op ∈ schedule, Resumes p.thread.slots family op)
    (hcount : ∀ f ∈ family, resumptions p.thread.slots f schedule ≤ (parts f).length) :
    p.Interleaves frame rest family parts schedule := by
  have hfamily : p.Schedulable family parts := ⟨fun f hf => (hfresh f hf).stands hp.primed.thread
    (by simp [hcode]) (hstraight f hf).ne_nil, fun f hf => .inr (hstraight f hf), hhub⟩
  have hsplit : ∀ earlier later, schedule = earlier ++ later →
      ∃ q, p.Plays (interleave p.thread.slots parts earlier) q ∧
        p.Scheduled frame (Task.ofOps later ++ rest) family
          (remaining p.thread.slots parts earlier) q ∧
        q.Schedulable family (remaining p.thread.slots parts earlier) := by
    rintro earlier later rfl
    refine hfamily.plays hp hcode ho (by rw [htodo, Task.ofOps, List.map_append, ← Task.ofOps,
      ← Task.ofOps, List.append_assoc]) (fun op hop => hschedule op (List.mem_append_left _ hop))
      fun f hf => ?_
    have := hcount f hf
    rw [resumptions, List.countP_append] at this
    exact Nat.le_trans (Nat.le_add_right ..) this
  refine ⟨fun earlier later h => ?_, fun earlier later _ f _ => ofCallback_interleave,
    fun earlier op later slot f n h ha hs hn => ?_, fun op todo slot f h ha hs hf hall => ?_⟩
  · obtain ⟨q, hplays, hq, -⟩ := hsplit earlier later h
    exact ⟨q, hplays, hq⟩
  · obtain ⟨q, hplays, hq, hleft⟩ := hsplit earlier (op :: later) h
    obtain ⟨slot', f', ha', hs', hf⟩ := hschedule op (by rw [h]; simp)
    cases ha.symm.trans ha'
    cases hs.symm.trans hs'
    have htarget := target_of_resume ha hs
    have hlt : n < (parts f).length := by
      have := hcount f hf
      rw [h, resumptions, List.countP_append,
        List.countP_cons_of_pos (by simpa using htarget)] at this
      unfold resumptions at hn
      omega
    have hne : remaining p.thread.slots parts earlier f ≠ [] := by
      rw [remaining, ← hn, ne_eq, List.drop_eq_nil_iff]
      omega
    obtain ⟨r, log, hplays', hback, hanswer, hr⟩ := hleft.resume (hp.plays hplays)
      ⟨hq.code, rfl⟩ ho ha (hq.slots ▸ hs) hf hne
    obtain ⟨x, hx, -, hstate, -⟩ := hr.stands f hf
    rw [Op.spend, hq.slots, if_pos htarget] at hstate
    rw [← hstate] at hanswer
    have hpart : (remaining p.thread.slots parts earlier f).headD [] = (parts f).getD n [] := by
      rw [remaining, ← hn, List.headD_eq_head?_getD, List.head?_drop, List.getD_eq_getElem?_getD]
    refine ⟨q, r, x, log, hplays, ?_, ⟨hback.slots, hback.hub, hback.code, hback.current,
      hback.others⟩, hx, ?_, hanswer⟩
    · rw [hq.slots, Op.performs, htarget] at hplays'
      rwa [← hpart]
    · rw [hstate]
      simp only [state_remaining hn hlt]
  · obtain ⟨q, hplays, hq, hleft⟩ := hsplit schedule [] (List.append_nil _).symm
    refine ⟨q, hplays, ?_⟩
    obtain ⟨x, hx, -, hstate, -⟩ := hleft.stands f hf
    rw [remaining, hall, List.drop_length, if_pos rfl] at hstate
    have hop : q.thread.Performs op {frame with todo := rest} todo := ⟨hq.code, by rw [h]⟩
    rw [Act.step_resume_halt? (hp.plays hplays).lawful.ordered hop ha (hq.slots ▸ hs) hx,
      Thread.resumeRefusal?, hstate]
    rfl

/-- Parts of two callbacks, each with a yield in between. -/
def Scenario.duetParts : Nat → List (List Op)
  | 0 => [[.mk ⟨"note", none⟩ .note, .mk ⟨"yield", none⟩ .yield],
      [.on "add" "n" (.add "n" 1)]]
  | 1 => [[.on "add" "n" (.add "n" 2), .mk ⟨"yield", none⟩ .yield],
      [.mk ⟨"note", none⟩ .note]]
  | _ => []

/-- The two are resumed in turns, and one of them once more than it can be. -/
def Scenario.duet : Scenario where
  program := [
    .on "new" "a" (.create "a" (.inline (duetParts 0).flatten) 16384 false none),
    .on "new" "b" (.create "b" (.inline (duetParts 1).flatten) 16384 true none),
    .on "resume" "a" (.resume "a"),
    .on "resume" "b" (.resume "b"),
    .on "resume" "b" (.resume "b"),
    .on "resume" "a" (.resume "a"),
    .on "resume" "b" (.resume "b")]

/-- The program is about to resume the first of them. -/
def Process.scheduling : Process := (Scenario.duet.process.run 3).2

open Process Scenario in
theorem duet_coroutines_interleave : duet.Reaches scheduling ∧
    ∃ q, scheduling.Plays [
      (.program, .on "resume" "a" (.resume "a")),
      (.callback 0, .mk ⟨"note", none⟩ .note), (.callback 0, .mk ⟨"yield", none⟩ .yield),
      (.program, .on "resume" "b" (.resume "b")),
      (.callback 1, .on "add" "n" (.add "n" 2)), (.callback 1, .mk ⟨"yield", none⟩ .yield),
      (.program, .on "resume" "b" (.resume "b")), (.callback 1, .mk ⟨"note", none⟩ .note),
      (.program, .on "resume" "a" (.resume "a")), (.callback 0, .on "add" "n" (.add "n" 1))] q ∧
    Act.step.halt? q = some (.aborted (.resumedWhile 1 .term)) := by
  have hp : duet.Reaches scheduling := Scenario.reaches_run (by decide +kernel)
  have ha : scheduling.thread.slots.get? "a" = some 0 := rfl
  have hb : scheduling.thread.slots.get? "b" = some 1 := rfl
  have hcode : scheduling.thread.running.code =
      .active ⟨.program, [], Task.ofOps (duet.program.drop 2)⟩ := rfl
  have htodo : Task.ofOps (duet.program.drop 2) = Task.ofOps ((duet.program.drop 2).take 4) ++
      [.perform (.on "resume" "b" (.resume "b"))] := rfl
  have h := coroutines_interleave duet hp hcode rfl htodo [0, 1] duetParts
    (by
      rintro f hf
      rcases List.mem_pair.mp hf with rfl | rfl
      · exact @Straight.next [_] _ _ (by simp [Op.action, Action.Local])
          (.last (by simp [Op.on, Op.action, Action.Local]))
      · exact @Straight.next [_] _ _ (by simp [Op.on, Op.action, Action.Local])
          (.last (by simp [Op.action, Action.Local])))
    (by
      rintro f hf
      rcases List.mem_pair.mp hf with rfl | rfl
      · exact ⟨_, rfl, Option.some_ne_none _, rfl⟩
      · exact ⟨_, rfl, Option.some_ne_none _, rfl⟩)
    (fun f _ => (Option.some_ne_none f).symm)
    (by
      rintro op hop
      rcases List.mem_cons.mp hop with rfl | hop
      · exact ⟨"a", 0, rfl, ha, by decide⟩
      rcases List.mem_cons.mp hop with rfl | hop
      · exact ⟨"b", 1, rfl, hb, by decide⟩
      rcases List.mem_pair.mp hop with rfl | rfl
      · exact ⟨"b", 1, rfl, hb, by decide⟩
      · exact ⟨"a", 0, rfl, ha, by decide⟩)
    (by
      rintro f hf
      rcases List.mem_pair.mp hf with rfl | rfl
      · decide +kernel
      · decide +kernel)
  exact ⟨hp, h.spent _ _ "b" 1 rfl rfl hb (by decide) (by decide +kernel)⟩

end Fibers
