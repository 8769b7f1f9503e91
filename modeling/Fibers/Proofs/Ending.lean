import Fibers.Proofs.Home

/-! The last handle of a fiber that ends.

The code of a callback keeps one handle of its own fiber and gives it up when the callback has
completed, before it yields for good. That is safe while the fiber is current: the code that
resumed it is still waiting and keeps a handle. Code that was parked in a foreign fiber may be
continued after the `resume` that began it has returned. If its handle is the last one by then,
the fiber is destroyed under the code. -/
namespace Fibers

/-- Whose script has come to its end, if one has. -/
def Code.returned? : Code → Option (Origin × Outcome)
  | .returned origin outcome => some (origin, outcome)
  | _ => none

theorem Code.of_returned? {code : Code} {origin : Origin} {outcome : Outcome}
    (h : code.returned? = some (origin, outcome)) : code = .returned origin outcome := by
  unfold Code.returned? at h
  split at h
  · cases h
    rfl
  · cases h

/-- How many handles of a fiber there are besides those of the executing code. -/
def Thread.keptElsewhere (f : Nat) (t : Thread) : Nat :=
  t.slots.total (fun g => [g].count f) + t.root.toList.count f +
    (t.fibers.total (Fiber.weigh fun k => k.code.handles.count f) +
      (t.lost.map fun k => k.code.handles.count f).sum)

namespace Thread

theorem handlesOf_eq (f : Nat) (t : Thread) :
    t.handlesOf f = t.keptElsewhere f + t.running.code.handles.count f := by
  unfold handlesOf keptElsewhere weigh
  dsimp only
  omega

end Thread

namespace Process

variable {p : Process} {f : Nat} {x : Fiber}

/-- The fiber of code that has come to its end, with its handles. -/
theorem Ordered.ending {outcome : Outcome} (h : p.Ordered)
    (hcode : p.thread.running.code = .returned (.callback f) outcome) :
    ∃ x, p.thread.fibers.get? f = some x ∧ x.stack ≠ none ∧
      x.handles = p.thread.keptElsewhere f + 1 := by
  obtain ⟨x, hx, hstack, -⟩ := h.thread.toSound.returned hcode
  refine ⟨x, hx, hstack, ?_⟩
  rw [h.thread.toCounted.handles_eq hx, Thread.handlesOf_eq, hcode]
  show _ + [f].count f + 0 = _
  rw [List.count_singleton_self]

/-- While the fiber is current, whoever resumed it waits and keeps a handle. -/
theorem Ordered.awaited_kept (h : p.Ordered) (hc : p.thread.current = some f)
    (hx : p.thread.fibers.get? f = some x) (hstack : x.stack ≠ none) :
    0 < p.thread.keptElsewhere f := by
  obtain ⟨k, hk, ha⟩ := h.thread.awaited f hc fun hr =>
    hstack ((h.thread.root_iff f x hx).mpr hr)
  have := hk.kept ha
  rw [Thread.handlesOf_eq] at this
  omega

end Process

open Process in
/-- **The last handle.** When the code of a callback gives up its handle of its fiber, the fiber
survives exactly if another handle is kept somewhere; with the last handle it is destroyed and
the yield that follows finds it gone. One is kept as long as the fiber is current, and it is
unless some code has yielded a fiber other than the current one before. -/
theorem last_handle (s : Scenario) {p : Process} (hp : s.Reaches p) {f : Nat} {outcome : Outcome}
    (hcode : p.thread.running.code = .returned (.callback f) outcome) :
    ∃ x, p.thread.fibers.get? f = some x ∧ x.stack ≠ none ∧
      x.handles = p.thread.keptElsewhere f + 1 ∧
      (0 < p.thread.keptElsewhere f → ∃ q y, Act.step p = .ok () q ∧
        q.thread.fibers.get? f = some y ∧ y.state = .term ∧ y.stack = x.stack ∧
        y.handles = p.thread.keptElsewhere f) ∧
      (p.thread.keptElsewhere f = 0 → ∃ q, Act.step p = .error (.aborted (.rootYielded f)) q ∧
        q.thread.fibers.get? f = none) ∧
      (p.thread.current = some f → 0 < p.thread.keptElsewhere f) ∧
      (s.ReachesAtHome p → p.thread.current = some f) := by
  have hordered := hp.lawful.ordered
  obtain ⟨x, hx, hstack, hn⟩ := hordered.ending hcode
  have hstep := Act.step_finish_leads hordered hcode hx
  refine ⟨x, hx, hstack, hn, fun hkept => ?_, fun hkept => ?_,
    fun hc => hordered.awaited_kept hc hx hstack,
    fun hhome => hhome.homed.thread.running f (by rw [hcode]; rfl)⟩
  · cases hq : Act.step p with
    | ok _ q =>
      obtain ⟨y, hy, hterm, hstack, hhandles⟩ := (hstep.ok hq).2.1.left hx
      exact ⟨q, y, rfl, hy, hterm, hstack, by omega⟩
    | error halt q =>
      have := (hstep.error hq).1
      omega
  · cases hq : Act.step p with
    | ok _ q =>
      have := (hstep.ok hq).1
      omega
    | error halt q =>
      obtain ⟨-, rfl, hgone⟩ := hstep.error hq
      exact ⟨q, rfl, hgone⟩

/-- A callback that does nothing is resumed once. -/
def Scenario.errand : Scenario where
  program := [
    .on "new" "f" (.create "f" (.inline []) 16384 false none),
    .on "resume" "f" (.resume "f")]

/-- That callback has completed. -/
def Process.errandEnding : Process := (Scenario.errand.process.run 6).2

open Process in
/-- The resumer's handle keeps the fiber. -/
theorem errand_last_handle : Scenario.errand.Reaches errandEnding ∧
    0 < errandEnding.thread.keptElsewhere 0 ∧ ∃ q y, Act.step errandEnding = .ok () q ∧
      q.thread.fibers.get? 0 = some y ∧ y.state = .term := by
  have hp : Scenario.errand.Reaches errandEnding := Scenario.reaches_run (by decide +kernel)
  have hcode : errandEnding.thread.running.code = .returned (.callback 0) .finished :=
    Code.of_returned? (by decide +kernel)
  have hcurrent : errandEnding.thread.current = some 0 := by decide +kernel
  obtain ⟨x, -, -, -, hkept, -, hawaited, -⟩ := last_handle _ hp hcode
  obtain ⟨q, y, hq, hy, hterm, -⟩ := hkept (hawaited hcurrent)
  exact ⟨hp, hawaited hcurrent, q, y, hq, hy, hterm⟩

/-- The callback of `f` yields `g`, whose own callback has been parked since it resumed `k`.
That ends the `resume` of `f`, and the slot is emptied. Then resuming `g` continues the
callback of `f`, which completes. -/
def Scenario.stray : Scenario where
  program := [
    .on "new" "k" (.create "k" (.inline [.mk ⟨"yield", none⟩ .yield]) 65536 false none),
    .on "new" "g" (.create "g" (.inline [.on "resume" "k" (.resume "k")]) 65536 false none),
    .on "resume" "g" (.resume "g"),
    .on "new" "f" (.create "f" (.inline [.on "yield_of" "g" (.yieldOf "g")]) 65536 false none),
    .on "set_hub" "f" (.setHub "f"),
    .on "resume" "f" (.resume "f"),
    .on "drop" "f" (.drop "f"),
    .on "resume" "g" (.resume "g")]

/-- The callback of `f` has completed. -/
def Process.strayEnding : Process := (Scenario.stray.process.run 20).2

open Process in
/-- Nobody else keeps a handle then, and the fiber is destroyed under its code. -/
theorem stray_last_handle : Scenario.stray.Reaches strayEnding ∧
    strayEnding.thread.running.code = .returned (.callback 3) .finished ∧
    strayEnding.thread.keptElsewhere 3 = 0 ∧
    (strayEnding.run 1).1 = some (.aborted (.rootYielded 3)) ∧
    ¬(strayEnding.run 1).2.thread.Alive 3 := by
  refine ⟨Scenario.reaches_run (by decide +kernel), Code.of_returned? (by decide +kernel),
    by decide +kernel, by decide +kernel, by decide +kernel⟩

end Fibers
