import Fibers.Proofs.Itself
import Fibers.Proofs.Tandem

/-! One fiber in another's place.

Where one process has a fiber under an old id, another may have it under a new one, and all fibers
to come under the ids after that. Processes that differ in nothing else go on together: the same
happens in both from then on, but for the ids (`run_shifted`). -/
namespace Fibers

/-- The ids where the next one was given to the fiber `f`. -/
def shift (f next g : Nat) : Nat := if g = f then next else if g < next then g else g + 1

theorem shift_old (f next : Nat) : shift f next f = next := if_pos rfl

theorem shift_other {f next g : Nat} (hg : g ≠ f) (hlt : g < next) : shift f next g = g := by
  rw [shift, if_neg hg, if_pos hlt]

theorem shift_later {f next g : Nat} (hf : f < next) (hg : next ≤ g) : shift f next g = g + 1 := by
  rw [shift, if_neg (by omega), if_neg (by omega)]

theorem shift_injective (f next : Nat) : Function.Injective (shift f next) := by
  intro g h heq
  unfold shift at heq
  split at heq <;> split at heq <;> (try split at heq) <;> (try split at heq) <;> omega

/-- Nothing but ids and blocks is different. -/
def Variation.shift (f next : Nat) (scripts : List (String × List Op)) : Variation where
  id := Fibers.shift f next
  injective := shift_injective f next
  flags flag flag' := flag' = flag
  hubs := True
  scripts
  scripts' := scripts
  cuts := False
  broken _ := False

section Variation

variable {f next : Nat} {scripts : List (String × List Op)}

theorem strict_shift : (Variation.shift f next scripts).Strict where
  flags _ _ h := h
  hubs := trivial

theorem whole_shift : (Variation.shift f next scripts).Whole where
  flags _ := rfl
  unbroken _ h := h

theorem fit_shift : (Variation.shift f next scripts).Fit := whole_shift.fit rfl

end Variation

/-! ### What happens from then on -/

/-- Since the two traces were what they were, events correspond one by one. -/
def Since (R : Event → Event → Prop) (before before' trace trace' : List Event) : Prop :=
  ∃ events events', trace = events ++ before ∧ trace' = events' ++ before' ∧
    List.Forall₂ R events events'

section Since

variable {R S : Event → Event → Prop} {before before' trace trace' : List Event}

theorem Since.start : Since R before before' before before' := ⟨[], [], rfl, rfl, .nil⟩

theorem Since.cons {event event' : Event} (hevent : R event event')
    (h : Since R before before' trace trace') :
    Since R before before' (event :: trace) (event' :: trace') := by
  obtain ⟨events, events', rfl, rfl, h⟩ := h
  exact ⟨event :: events, event' :: events', rfl, rfl, .cons hevent h⟩

theorem Since.imp (h : Since R before before' trace trace') (hRS : ∀ a b, R a b → S a b) :
    Since S before before' trace trace' := by
  obtain ⟨events, events', ht, ht', h⟩ := h
  exact ⟨events, events', ht, ht', h.imp hRS⟩

theorem Since.logOn {v : Variation} {w : Pairing} {level : Level} {record record' : Record}
    (hrecord : record.Alike v w record') (h : Since (Event.Alike v w) before before' trace trace') :
    Since (Event.Alike v w) before before' (record.logOn level trace)
      (record'.logOn level trace') := by
  rw [Record.logOn, Record.logOn, hrecord.level]
  split
  · exact h.cons (.logged hrecord)
  · exact h

end Since

/-- Processes of which the one has under another id what the other has under the old one, since
their traces were what they are given. -/
def Likeness.shift (f next : Nat) (scripts : List (String × List Op)) (level : Level)
    (before before' : List Event) : Likeness where
  toVariation := .shift f next scripts
  fit := fit_shift
  unscheduled := rfl
  moved := True
  level
  level' := level
  traces w trace trace' := Since (Event.Alike (.shift f next scripts) w) before before' trace trace'
  ends w halt trace halt' trace' := halt.Alike (.shift f next scripts) halt' ∧
    Since (Event.Alike (.shift f next scripts) w) before before' trace trace'
  mono hwu h := h.imp fun _ _ h => h.mono hwu
  ended hhalt _ h := ⟨hhalt, h⟩
  aborted violation h := ⟨.aborted violation, h.logOn (.renamed fun _ _ h => nomatch h)⟩
  logged hrecord h := h.logOn hrecord

section Runs

variable {f next : Nat} {scripts : List (String × List Op)} {level : Level}
  {before before' : List Event} {w : Pairing} {p p' : Process}

theorem shift_reports : (Likeness.shift f next scripts level before before').Reports :=
  fun h _ htrace => htrace.cons h

theorem not_differs_shift (h : (Likeness.shift f next scripts level before before').Alike w p p') :
    ¬p.Differs (.shift f next scripts level before before') p' := by
  intro hdiffers
  cases hdiffers with
  | resume _ _ hm => exact hm strict_shift
  | hub _ _ hm => exact hm trivial
  | leave hcode hcode' =>
    have halike := h.thread.running.code
    rw [hcode, hcode'] at halike
    cases halike with
    | leaving _ _ h =>
      cases h with
      | cut _ hcuts => exact hcuts

open Process Act in
/-- **Runs** of processes that differ in ids and blocks come to the same, but for ids and blocks. -/
theorem run_shifted (h : (Likeness.shift f next scripts level before before').Alike w p p')
    (n : Nat) : Match
      (fun q q' => ∃ u, w ⊆ u ∧ (Likeness.shift f next scripts level before before').Alike u q q')
      (fun halt q halt' q' => halt.Alike (.shift f next scripts) halt' ∧
        ∃ u, w ⊆ u ∧ Since (Event.Alike (.shift f next scripts) u) before before' q.trace q'.trace)
      (p.run n) (p'.run n) := by
  refine (run_abreast (X := fun _ _ => False) (fun q q' ⟨u, hwu, hu⟩ => .inl ?_)
    ⟨w, List.Subset.refl w, h⟩ n).resolve_right fun ⟨_, _, _, _, hparting⟩ => hparting.parts
  refine (step_agrees shift_reports hu (not_differs_shift hu)).run.imp
    (fun r r' _ _ ⟨u', hu', hr⟩ => ⟨u', List.Subset.trans hwu hu', hr⟩)
    fun halt r halt' r' ⟨u', hu', _, hhalt, htrace⟩ =>
      ⟨hhalt, u', List.Subset.trans hwu hu', htrace⟩

end Runs
end Fibers
