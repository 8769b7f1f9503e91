import Mathlib
import Fibers.Table

/-! Sums over a table.

A weight on the values of a table gives the table a total. Setting and erasing a key
change the total by the weights of what comes and goes, and tables that bind the same
keys to the same values have the same totals. -/
namespace Fibers.Table

variable {κ α : Type}

/-- The sum of a weight over the values bound. -/
def total (w : α → Nat) (t : Table κ α) : Nat := (t.values.map w).sum

theorem length_keys (t : Table κ α) : t.keys.length = t.total fun _ => 1 := by
  simp [keys, total, values, Function.comp_def]

variable [DecidableEq κ]

/-- What a key is bound to after a setting. -/
theorem set_cases {t : Table κ α} {k j : κ} {a b : α} (h : (t.set k a).get? j = some b) :
    j = k ∧ b = a ∨ j ≠ k ∧ t.get? j = some b := by
  rw [get?_set] at h
  split at h
  · next hk =>
    cases h
    exact .inl ⟨hk, rfl⟩
  · next hk => exact .inr ⟨hk, h⟩

/-- What is bound after an erasure was bound before. -/
theorem erase_cases {t : Table κ α} {k j : κ} {b : α} (h : (t.erase k).get? j = some b) :
    j ≠ k ∧ t.get? j = some b := by
  rw [get?_erase] at h
  split at h
  · cases h
  · next hk => exact ⟨hk, h⟩

theorem mem_entries {t : Table κ α} {k : κ} {a : α} :
    (k, a) ∈ t.entries ↔ t.get? k = some a := by
  obtain ⟨entries, nodup⟩ := t
  simp only [get?]
  induction entries with
  | nil => simp
  | cons e rest ih =>
    obtain ⟨j, b⟩ := e
    obtain ⟨hj, hrest⟩ := List.nodup_cons.mp nodup
    rw [List.mem_cons, ih hrest, List.find?_cons]
    by_cases h : j = k
    · subst h
      have hnone : rest.find? (fun e => e.1 = j) = none := by
        rw [List.find?_eq_none]
        intro e he hk
        exact hj (List.mem_map.mpr ⟨e, he, by simpa using hk⟩)
      rw [hnone]
      simp [eq_comm (a := a)]
    · simp [h, Ne.symm h]

theorem sum_filter_ne (w : α → Nat) (k : κ) (entries : List (κ × α))
    (nodup : (entries.map Prod.fst).Nodup) :
    ((entries.filter fun e => e.1 ≠ k).map fun e => w e.2).sum +
        ((entries.find? fun e => e.1 = k).map Prod.snd).elim 0 w =
      (entries.map fun e => w e.2).sum := by
  induction entries with
  | nil => rfl
  | cons e rest ih =>
    obtain ⟨he, hrest⟩ := List.nodup_cons.mp nodup
    have ih := ih hrest
    by_cases h : e.1 = k
    · have hfilter : rest.filter (fun e => e.1 ≠ k) = rest := by
        rw [List.filter_eq_self]
        intro d hd
        have : d.1 ≠ k := fun hdk => he (h ▸ hdk ▸ List.mem_map_of_mem hd)
        simpa using this
      simp only [List.filter_cons, List.find?_cons, h, ne_eq, not_true_eq_false, decide_false,
        decide_true, Bool.false_eq_true, if_false, hfilter, Option.map_some, Option.elim_some,
        List.map_cons, List.sum_cons]
      omega
    · simp only [List.filter_cons, List.find?_cons, h, ne_eq, not_false_eq_true, decide_true,
        decide_false, if_true, List.map_cons, List.sum_cons] at ih ⊢
      omega

/-- An erasure takes the weight of the value that goes. -/
theorem total_erase (w : α → Nat) (t : Table κ α) (k : κ) :
    (t.erase k).total w + (t.get? k).elim 0 w = t.total w := by
  simp only [total, values, erase, get?, List.map_map]
  exact sum_filter_ne w k t.entries t.nodup

/-- A setting adds the weight of the new value and takes that of the old one. -/
theorem total_set (w : α → Nat) (t : Table κ α) (k : κ) (a : α) :
    (t.set k a).total w + (t.get? k).elim 0 w = t.total w + w a := by
  have he := total_erase w t k
  simp only [total, values, set, List.map_cons, List.sum_cons] at he ⊢
  omega

/-- A total depends only on what its weight reads of the values bound. -/
theorem total_congr {β : Type} (g : α → β) (w : β → Nat) {t u : Table κ α}
    (h : ∀ k, (u.get? k).map g = (t.get? k).map g) :
    u.total (fun a => w (g a)) = t.total fun a => w (g a) := by
  let read (t : Table κ α) : List (κ × β) := t.entries.map fun e => (e.1, g e.2)
  have hnodup (t : Table κ α) : (read t).Nodup := by
    have hkeys : ((read t).map Prod.fst).Nodup := by
      simpa only [read, List.map_map, Function.comp_def] using t.nodup
    exact List.Pairwise.of_map Prod.fst (fun _ _ hne he => hne (congrArg Prod.fst he)) hkeys
  have hmem (t : Table κ α) (k : κ) (b : β) :
      (k, b) ∈ read t ↔ (t.get? k).map g = some b := by
    simp only [read, List.mem_map, Prod.mk.injEq, Prod.exists, Option.map_eq_some_iff]
    constructor
    · rintro ⟨_, a, ha, rfl, rfl⟩
      exact ⟨a, mem_entries.mp ha, rfl⟩
    · rintro ⟨a, ha, rfl⟩
      exact ⟨k, a, mem_entries.mpr ha, rfl, rfl⟩
  have hperm : (read u).Perm (read t) := by
    rw [List.perm_ext_iff_of_nodup (hnodup u) (hnodup t)]
    rintro ⟨k, b⟩
    rw [hmem, hmem, h]
  have hsum := ((hperm.map Prod.snd).map w).sum_nat
  simpa only [total, values, read, List.map_map, Function.comp_def] using hsum

/-- Weights that agree on the values bound have the same total. -/
theorem total_weight {w w' : α → Nat} {t : Table κ α}
    (h : ∀ k a, t.get? k = some a → w a = w' a) : t.total w = t.total w' := by
  unfold total values
  rw [List.map_map, List.map_map]
  congr 1
  apply List.map_congr_left
  rintro ⟨k, a⟩ hmem
  exact h k a (mem_entries.mp hmem)

/-- Where a total is not zero, some bound value has a weight. -/
theorem exists_of_total {w : α → Nat} {t : Table κ α} (h : 0 < t.total w) :
    ∃ k a, t.get? k = some a ∧ 0 < w a := by
  by_contra hnone
  push Not at hnone
  have hzero : t.total w = t.total fun _ => 0 :=
    total_weight fun k a ha => Nat.le_zero.mp (hnone k a ha)
  rw [hzero] at h
  simp [total] at h

theorem le_total (w : α → Nat) {t : Table κ α} {k : κ} {a : α} (h : t.get? k = some a) :
    w a ≤ t.total w := by
  have he := total_erase w t k
  rw [h, Option.elim_some] at he
  omega

/-- The weights of two bound values are both in the total. -/
theorem add_le_total (w : α → Nat) {t : Table κ α} {j k : κ} {a b : α} (hj : t.get? j = some a)
    (hk : t.get? k = some b) (h : j ≠ k) : w a + w b ≤ t.total w := by
  have he := total_erase w t k
  have hj' : (t.erase k).get? j = some a := by rw [get?_erase, if_neg h, hj]
  have := le_total w hj'
  rw [hk, Option.elim_some] at he
  omega

/-! ### Keys -/

theorem mem_keys {t : Table κ α} {k : κ} : k ∈ t.keys ↔ ∃ a, t.get? k = some a := by
  simp only [keys, List.mem_map, Prod.exists, exists_and_right, exists_eq_right, mem_entries]

theorem count_keys (t : Table κ α) (k : κ) : t.keys.count k = (t.get? k).elim 0 fun _ => 1 := by
  cases h : t.get? k with
  | none => exact List.count_eq_zero.mpr fun hk => by simp [mem_keys, h] at hk
  | some a => exact List.count_eq_one_of_mem t.nodup (mem_keys.mpr ⟨a, h⟩)

end Fibers.Table
