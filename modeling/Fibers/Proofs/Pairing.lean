import Fibers.Proofs.Itself

/-! The blocks at one moment.

A pairing grows as stacks are made. The system may use again what came back, so in the course of
time one block may have stood for several. At any one moment it does not: the stacks that have
owners lie in different blocks (`Stocked.nodup_blocks`), and the owners say which block stands for
which. -/
namespace Fibers

theorem rel_imp {α β : Type} {R S : α → β → Prop} {a : Option α} {b : Option β}
    (h : Option.Rel R a b) (hS : ∀ x y, a = some x → b = some y → R x y → S x y) :
    Option.Rel S a b := by
  cases h with
  | none => exact .none
  | some h => exact .some (hS _ _ rfl rfl h)

namespace Pairing

variable {w u : Pairing} {l l' k k' : List Nat}

/-- Blocks of the one list are paired with blocks of the other. -/
def Within (w : Pairing) (l l' : List Nat) : Prop := ∀ y ∈ w, y.1 ∈ l ∧ y.2 ∈ l'

theorem Within.append (h : w.Within l l') (h' : u.Within k k') :
    Within (w ++ u) (l ++ k) (l' ++ k') := by
  intro y hy
  rcases List.mem_append.mp hy with hy | hy
  · exact ⟨List.mem_append_left _ (h y hy).1, List.mem_append_left _ (h y hy).2⟩
  · exact ⟨List.mem_append_right _ (h' y hy).1, List.mem_append_right _ (h' y hy).2⟩

/-- What is paired apart is so together. -/
theorem OneToOne.append (hw : w.OneToOne) (hu : u.OneToOne) (h : w.Within l l')
    (h' : u.Within k k') (hapart : l.Disjoint k) (hapart' : l'.Disjoint k') :
    OneToOne (w ++ u) := by
  have hne {x y : Nat × Nat} (hx : x ∈ w) (hy : y ∈ u) : x.1 ≠ y.1 ∧ x.2 ≠ y.2 :=
    ⟨fun he => hapart (h x hx).1 (he ▸ (h' y hy).1),
      fun he => hapart' (h x hx).2 (he ▸ (h' y hy).2)⟩
  intro x hx y hy
  rcases List.mem_append.mp hx with hx | hx <;> rcases List.mem_append.mp hy with hy | hy
  · exact hw x hx y hy
  · exact iff_of_false (hne hx hy).1 (hne hx hy).2
  · exact iff_of_false (hne hy hx).1.symm (hne hy hx).2.symm
  · exact hu x hx y hy

end Pairing

/-! ### Owners -/

/-- What the owner of a stack is called in the other process. -/
def Owner.rename (v : Variation) : Owner → Owner
  | .fiber f => .fiber (v.id f)
  | .name s => .name s

theorem Owner.rename_injective (v : Variation) : Function.Injective (Owner.rename v)
  | .fiber _, .fiber _, h => congrArg Owner.fiber (v.injective (Owner.fiber.inj h))
  | .name _, .name _, h => h

namespace Thread

variable {v : Variation} {w u : Pairing} {t t' : Thread} {o : Owner} {stack stack' : Memory.Stack}

/-- An owner has one stack. -/
theorem Owns.same (h : t.Owns o stack) (h' : t.Owns o stack') : stack' = stack := by
  cases h with
  | fiber hx hs =>
    cases h' with
    | fiber hy hs' =>
      obtain rfl := Option.some.inj (hx.symm.trans hy)
      exact Option.some.inj (hs'.symm.trans hs)
  | kept hs =>
    cases h' with
    | kept hs' => exact Option.some.inj (hs'.symm.trans hs)

/-- The blocks of the stacks of the thread. -/
def blocks (t : Thread) : List Nat := t.owned.map Memory.Stack.block

/-- A block is that of one owner. -/
theorem owner_of_block {o' : Owner} (hnodup : t.blocks.Nodup) (ho : t.Owns o stack)
    (ho' : t.Owns o' stack') (hblock : stack.block = stack'.block) : o = o' := by
  have hsame := List.inj_on_of_nodup_map hnodup (mem_owned.mpr ⟨o, ho⟩) (mem_owned.mpr ⟨o', ho'⟩)
    hblock
  exact owns_unique hnodup.of_map ho (hsame ▸ ho')

/-- What is alike under a pairing is so under another that has the same pairs for every owner. -/
theorem Alike.restrict (h : t.Alike v w t')
    (hu : ∀ o stack stack', t.Owns o stack → t'.Owns (o.rename v) stack' →
      (stack.block, stack'.block) ∈ w → (stack.block, stack'.block) ∈ u) : t.Alike v u t' :=
  {h with
    fibers := fun f => rel_imp (h.fibers f) fun _ _ hx hx' hfiber => {hfiber with
      stack := rel_imp hfiber.stack fun _ _ hs hs' hstack => {hstack with
        block := hu (.fiber f) _ _ (.fiber hx hs) (.fiber hx' hs') hstack.block}}
    kept := fun name => rel_imp (h.kept name) fun _ _ hs hs' hstack => {hstack with
      block := hu (.name name) _ _ (.kept hs) (.kept hs') hstack.block}}

/-- The pairs of a thread at the moment are one to one. -/
theorem Alike.now (h : t.Alike v w t') (hnodup : t.blocks.Nodup) (hnodup' : t'.blocks.Nodup) :
    ∃ u ⊆ w, u.OneToOne ∧ u.Within t.blocks t'.blocks ∧ t.Alike v u t' := by
  classical
  let now (y : Nat × Nat) : Prop := ∃ o stack stack', t.Owns o stack ∧
    t'.Owns (o.rename v) stack' ∧ y = (stack.block, stack'.block)
  refine ⟨w.filter now, List.filter_subset_self _, fun x hx y hy => ?_, fun y hy => ?_,
    h.restrict fun o stack stack' ho ho' hmem => ?_⟩
  · obtain ⟨o, s, s', ho, ho', rfl⟩ := of_decide_eq_true (List.mem_filter.mp hx).2
    obtain ⟨e, r, r', he, he', rfl⟩ := of_decide_eq_true (List.mem_filter.mp hy).2
    constructor
    · intro hblock
      obtain rfl := owner_of_block hnodup ho he hblock
      exact congrArg Memory.Stack.block (he'.same ho')
    · intro hblock
      obtain rfl := Owner.rename_injective v (owner_of_block hnodup' ho' he' hblock)
      exact congrArg Memory.Stack.block (he.same ho)
  · obtain ⟨o, s, s', ho, ho', rfl⟩ := of_decide_eq_true (List.mem_filter.mp hy).2
    exact ⟨List.mem_map_of_mem (mem_owned.mpr ⟨o, ho⟩),
      List.mem_map_of_mem (mem_owned.mpr ⟨_, ho'⟩)⟩
  · exact List.mem_filter.mpr ⟨hmem, decide_eq_true ⟨o, stack, stack', ho, ho', rfl⟩⟩

end Thread

/-- So are those of several threads. -/
theorem threads_now {v : Variation} {w : Pairing} {l l' : List Thread}
    (h : List.Forall₂ (Thread.Alike v w) l l') (hnodup : (l.flatMap Thread.blocks).Nodup)
    (hnodup' : (l'.flatMap Thread.blocks).Nodup) : ∃ u ⊆ w, u.OneToOne ∧
      u.Within (l.flatMap Thread.blocks) (l'.flatMap Thread.blocks) ∧
      List.Forall₂ (Thread.Alike v u) l l' := by
  induction h with
  | nil => exact ⟨[], List.nil_subset _, (fun _ hx => nomatch hx), (fun _ hy => nomatch hy), .nil⟩
  | cons ht _ ih =>
    rw [List.flatMap_cons, List.nodup_append'] at hnodup hnodup'
    obtain ⟨hhead, htail, hapart⟩ := hnodup
    obtain ⟨hhead', htail', hapart'⟩ := hnodup'
    obtain ⟨u, hu, hone, hwithin, ht⟩ := ht.now hhead hhead'
    obtain ⟨u', hu', hone', hwithin', hrest⟩ := ih htail htail'
    refine ⟨u ++ u', List.append_subset.mpr ⟨hu, hu'⟩,
      hone.append hone' hwithin hwithin' hapart hapart', hwithin.append hwithin', .cons ?_ ?_⟩
    · exact ht.mono (List.subset_append_left ..)
    · exact hrest.imp fun _ _ h => h.mono (List.subset_append_right ..)

/-- The stacks of the threads that may go on lie in different blocks. -/
theorem Process.Stocked.nodup_threads {p : Process} (h : p.Stocked) :
    (p.threads.flatMap Thread.blocks).Nodup := by
  have hnodup := h.nodup_blocks
  rw [Process.blocks, Process.everyThread, List.flatMap_append] at hnodup
  exact hnodup.of_append_left

theorem joining_alike {v : Variation} {w u : Pairing} {l l' : List Joiner}
    (h : List.Forall₂ (Joiner.Alike v w) l l')
    (hthreads : List.Forall₂ (Thread.Alike v u) (l.map Joiner.thread) (l'.map Joiner.thread)) :
    List.Forall₂ (Joiner.Alike v u) l l' := by
  induction h with
  | nil => exact .nil
  | cons h _ ih =>
    cases hthreads with
    | cons ht hrest => exact .cons ⟨ht, h.label⟩ (ih hrest)

end Fibers
