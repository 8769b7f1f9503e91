/-! Finite tables.

A table binds each of finitely many keys to one value. Its entries are kept in a
list in which no key occurs twice, so that the values bound are exactly the second
components of the entries and can be counted there. The three lemmas on `get?` say
all that setting and erasing do. -/
namespace Fibers

/-- Keys bound to values, each key at most once. -/
structure Table (κ α : Type) where
  entries : List (κ × α) := []
  nodup : (entries.map Prod.fst).Nodup := by exact .nil

namespace Table

variable {κ α : Type} [DecidableEq κ]

/-- The table that binds no key. -/
def empty : Table κ α := {}

/-- The value bound to `k`. -/
def get? (t : Table κ α) (k : κ) : Option α :=
  (t.entries.find? fun e => e.1 = k).map Prod.snd

/-- The table without `k`. -/
def erase (t : Table κ α) (k : κ) : Table κ α where
  entries := t.entries.filter fun e => e.1 ≠ k
  nodup := t.nodup.sublist (List.filter_sublist.map _)

/-- The table with `k` bound to `a`, whatever it was bound to. -/
def set (t : Table κ α) (k : κ) (a : α) : Table κ α where
  entries := (k, a) :: (t.erase k).entries
  nodup := by
    refine List.nodup_cons.mpr ⟨?_, (t.erase k).nodup⟩
    simp [erase]

/-- The values bound. -/
def values (t : Table κ α) : List α := t.entries.map Prod.snd

/-- The keys bound. -/
def keys (t : Table κ α) : List κ := t.entries.map Prod.fst

@[simp] theorem get?_empty (k : κ) : (empty : Table κ α).get? k = none := rfl

/-- After an erasure the erased key is unbound and the others are as they were. -/
theorem get?_erase (t : Table κ α) (k j : κ) :
    (t.erase k).get? j = if j = k then none else t.get? j := by
  unfold get? erase
  rw [List.find?_filter]
  by_cases h : j = k
  · subst h
    simp
  · rw [if_neg h]
    congr 2
    funext e
    by_cases he : e.1 = j <;> simp [he, h]

/-- After setting a key it is bound to the new value and the others are as they were. -/
theorem get?_set (t : Table κ α) (k : κ) (a : α) (j : κ) :
    (t.set k a).get? j = if j = k then some a else t.get? j := by
  have he := get?_erase t k j
  unfold get? at he ⊢
  simp only [set, List.find?_cons]
  by_cases h : k = j
  · simp [h]
  · simp [h, he, Ne.symm h]

end Table
end Fibers
