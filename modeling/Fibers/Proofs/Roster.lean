import Fibers.Proofs.Books
import Fibers.Proofs.Create
import Fibers.Proofs.Alter

/-! Who is alive.

The roster of a process lists the fibers that are alive on its threads, those that ended
included. A fiber is on it exactly as long as somebody keeps a handle of it, and there are as many
on it as are counted alive. A step adds at most one to it, under the next id, and what is taken
off it never comes back: so over a whole run fibers come in the order of their ids, and each goes
once at most. -/
namespace Fibers

namespace Process

/-- The fibers that are alive, on whatever thread they are. -/
def roster (p : Process) : List Nat := p.everyThread.flatMap fun t => t.fibers.keys

/-- The fibers that are alive then and were not before. -/
def comers (p q : Process) : List Nat := q.roster.filter (· ∉ p.roster)

/-- The fibers that were alive and are not any more. -/
def goers (p q : Process) : List Nat := p.roster.filter (· ∉ q.roster)

/-- What the first steps of a process bring about, one after another. -/
def tell {α : Type} (news : Process → Process → List α) : Nat → Process → List α
  | 0, _ => []
  | n + 1, p =>
    match Act.step p with
    | .ok _ q => news p q ++ q.tell news n
    | .error .. => []

/-- The fibers made in the first steps, in that order. -/
def made (n : Nat) (p : Process) : List Nat := p.tell comers n

/-- The fibers destroyed in the first steps, in that order. -/
def destroyed (n : Nat) (p : Process) : List Nat := p.tell goers n

variable {p q r : Process} {f : Nat} {x : Fiber} {kind : Kind}

theorem mem_roster : f ∈ p.roster ↔ ∃ x, p.Has f x := by
  simp only [roster, List.mem_flatMap, Table.mem_keys, Has]
  constructor
  · intro hf
    obtain ⟨t, ht, x, hx⟩ := hf
    exact ⟨x, t, ht, hx⟩
  · intro hf
    obtain ⟨x, t, ht, hx⟩ := hf
    exact ⟨t, ht, x, hx⟩

theorem length_roster (p : Process) : p.roster.length = p.sum Thread.population := by
  simp only [roster, List.length_flatMap, Table.length_keys]
  rfl

theorem count_roster (p : Process) (f : Nat) : p.roster.count f = p.sum (Thread.lives f) := by
  simp only [roster, List.count_flatMap, Function.comp_def, Table.count_keys]
  rfl

theorem Lawful.nodup_roster (h : p.Lawful) : p.roster.Nodup := by
  rw [List.nodup_iff_count_le_one]
  intro f
  have := h.ids f
  rw [count_roster]
  split at this <;> omega

theorem Lawful.lt_of_roster (h : p.Lawful) (hf : f ∈ p.roster) : f < p.nextId := by
  obtain ⟨x, hx⟩ := mem_roster.mp hf
  exact (h.has_unique hx hx).2

/-! ### Handles -/

/-- Handles are counted exactly on all threads, those that ended included. -/
def Reckoned (p : Process) : Prop := ∀ t ∈ p.everyThread, t.Counted []

theorem Reckoned.turn (h : p.Reckoned) (ht : p.Turn q) (hq : q.Ordered) : q.Reckoned :=
  ht.everyThread h (fun t hmem => (hq t hmem).toCounted) fun _ hclosed => hclosed.counted

/-- A fiber is alive exactly as long as there is a handle of it. -/
theorem Reckoned.alive_iff (h : p.Reckoned) : f ∈ p.roster ↔ 0 < p.sum (Thread.handlesOf f) := by
  rw [mem_roster]
  constructor
  · intro hf
    obtain ⟨x, t, ht, hx⟩ := hf
    have hhandles := (h t ht).handles_eq hx
    have hpositive := (h t ht).positive f x hx
    have hle : t.handlesOf f ≤ p.sum (Thread.handlesOf f) :=
      List.single_le_sum (fun _ _ => Nat.zero_le _) _ (List.mem_map_of_mem ht)
    rw [List.count_nil] at hhandles
    omega
  · intro hsum
    obtain ⟨n, hmem, hn⟩ := List.exists_mem_ne_zero_of_sum_ne_zero (Nat.ne_of_gt hsum)
    obtain ⟨t, ht, rfl⟩ := List.mem_map.mp hmem
    obtain ⟨x, hx⟩ := (h t ht).alive (f := f) (by omega)
    exact ⟨x, t, ht, hx⟩

/-- As many fibers are alive as somebody keeps a handle of. -/
theorem Reckoned.live (h : p.Reckoned) (hp : p.Lawful) (hbooks : p.Books) :
    p.live = ((List.range p.nextId).filter fun f => 0 < p.sum (Thread.handlesOf f)).length := by
  rw [hbooks.live, ← length_roster]
  apply List.Perm.length_eq
  rw [List.perm_ext_iff_of_nodup hp.nodup_roster (List.nodup_range.filter _)]
  intro f
  rw [List.mem_filter, List.mem_range, decide_eq_true_iff, ← h.alive_iff]
  exact ⟨fun hf => ⟨hp.lt_of_roster hf, hf⟩, fun hf => hf.2⟩

/-! ### Who comes -/

/-- Besides the making of a task fiber, only the root of the thread ever comes, and then it is
the root. -/
inductive Roots (kind : Kind) (p q : Process) : Prop
  | same (hid : q.nextId = p.nextId) (hc : p.thread.current ≠ none → q.thread.current ≠ none)
  | root (hk : kind = .usual) (hid : q.nextId = p.nextId + 1)
    (hr : q.thread.root = some p.nextId) (hc : q.thread.current ≠ none)

theorem Roots.next (h : p.Roots kind q) (hid : r.nextId = q.nextId)
    (hr : r.thread.root = q.thread.root) (hc : q.thread.current ≠ none → r.thread.current ≠ none) :
    p.Roots kind r := by
  cases h with
  | same hid' hc' => exact .same (hid.trans hid') fun h => hc (hc' h)
  | root hk hid' hr' hc' => exact .root hk (hid.trans hid') (hr.trans hr') (hc hc')

theorem Roots.allocates {stack : Memory.Stack} (h : p.Roots kind q) (hr : q.Allocates stack r) :
    p.Roots kind r := by
  obtain ⟨-, -⟩ := hr
  obtain ⟨tallies, hbook⟩ := q.thread.book_eq Memory.Tally.recordAllocated stack
  exact h.next rfl (by rw [hbook]) (by rw [hbook]; exact id)

theorem Roots.recover (h : p.Roots kind q) (stack : Memory.Stack) :
    p.Roots kind (q.recover stack) := by
  obtain ⟨tallies, hbook⟩ := q.thread.book_eq Memory.Tally.recordReleased stack
  refine h.next rfl ?_ ?_
  · show (q.thread.book Memory.Tally.recordReleased stack).root = _
    rw [hbook]
  · show _ → (q.thread.book Memory.Tally.recordReleased stack).current ≠ none
    rw [hbook]
    exact id

theorem Roots.edit (h : p.Roots kind q) (hr : q.Edit kind r) (hk : kind ≠ .making) :
    p.Roots kind r := by
  cases hr with
  | thread _ hroot _ hcurrent => exact h.next rfl hroot hcurrent
  | root hk hcurrent =>
    cases h with
    | same hid _ =>
      exact .root hk (congrArg (· + 1) hid) (congrArg some hid) (Option.some_ne_none _)
    | root _ _ _ hc => exact (hc hcurrent).elim
  | task _ _ hk' => exact (hk hk').elim
  | destroyTask =>
    refine Roots.recover ?_ _
    exact h.next rfl rfl id
  | keep _ hq => exact (h.allocates hq).next rfl rfl id
  | replace _ hq =>
    refine Roots.recover ?_ _
    exact (h.allocates hq).next rfl rfl id
  | free =>
    refine Roots.recover ?_ _
    exact h.next rfl rfl id
  | _ => exact h.next rfl rfl id

theorem Roots.of_report {event : Status → Event} (h : (p.report event).Roots kind q) :
    p.Roots kind q := by
  cases h with
  | same hid hc => exact .same hid hc
  | root hk hid hr hc => exact .root hk hid hr hc

theorem Edited.roots (h : p.Edited kind q) (hk : kind ≠ .making) : p.Roots kind q := by
  induction h with
  | refl => exact .same rfl id
  | tail _ h ih => exact ih.edit h hk

theorem Makes.nextId {callback : List Op} {size : Nat} {scheduled : Bool}
    {allocator : Memory.Allocator} {stack : Memory.Stack}
    (h : p.Makes callback size scheduled allocator stack q) : q.nextId = p.nextId + 1 := by
  obtain ⟨hp, hq, -, -⟩ := h
  obtain ⟨stackSize, trace, rfl⟩ := hp.same
  obtain ⟨-, -⟩ := hq
  rfl

/-- The fiber that is made is in a slot then. -/
theorem Creates.comes {label : Label} {s : String} {script : Script} {size : Nat}
    {scheduled : Bool} {supply : Option Supply}
    (h : p.Creates label s script size scheduled supply q) :
    q.nextId = p.nextId ∨ q.nextId = p.nextId + 1 ∧ q.thread.slots.get? s = some p.nextId := by
  cases h with
  | absent hq =>
    subst hq
    exact .inl rfl
  | @made _ _ _ p₁ p₂ _ _ hp h hs hq =>
    subst hq
    have hid : p₂.nextId = p₁.nextId := by
      cases h.roots (by simp) with
      | same hid => exact hid
      | root hk => cases hk
    exact .inr ⟨hid.trans hp.nextId, hs⟩

/-- The root of a thread that may go on is alive. -/
theorem Ordered.root_roster {t : Thread} (h : p.Ordered) (ht : t ∈ p.threads)
    (hr : t.root = some f) : f ∈ p.roster := by
  obtain ⟨x, hx⟩ := (h t ht).toCounted.root_alive hr
  exact mem_roster.mpr ⟨x, t, List.mem_append_left _ ht, hx⟩

/-- A step makes one fiber at most, which is alive then. -/
theorem Lawful.step_comes (h : p.Lawful) (hq : Act.step p = .ok () q) :
    q.nextId = p.nextId ∨ q.nextId = p.nextId + 1 ∧ p.nextId ∈ q.roster := by
  obtain ⟨hturn, hlawful⟩ := h.step hq
  have hordered := hlawful.ordered
  have here : q.thread ∈ q.threads := List.mem_cons_self ..
  by_cases hk : p.kind = .making
  · obtain ⟨op, frame, rest, s, script, size, scheduled, supply, hop, ha⟩ := performs_of_making hk
    refine ((Act.step_create_leads hop ha).ok hq).comes.imp id fun hcomes => ⟨hcomes.1, ?_⟩
    obtain ⟨x, hx⟩ := hordered.slot_alive hcomes.2
    exact mem_roster.mpr ⟨x, has_here hx⟩
  · have hcomes {r : Process} (hr : p.Roots p.kind r) (hid : q.nextId = r.nextId)
        (ht : r.thread ∈ q.threads) :
        q.nextId = p.nextId ∨ q.nextId = p.nextId + 1 ∧ p.nextId ∈ q.roster := by
      cases hr with
      | same hid' => exact .inl (hid.trans hid')
      | root _ hid' hr => exact .inr ⟨hid.trans hid', hordered.root_roster ht hr⟩
    cases (Act.step_effects h.ordered).ok hq with
    | edits hedited => exact hcomes (hedited.roots hk) rfl here
    | records hrecords =>
      cases hrecords with
      | nothing hedited => exact hcomes (hedited.roots hk) rfl here
      | report hedited _ hq =>
        subst hq
        exact hcomes (hedited.roots hk) rfl here
    | ended _ hedited => exact hcomes (hedited.roots hk).of_report rfl here
    | launch hedited hq =>
      subst hq
      exact hcomes (hedited.roots hk) rfl (List.mem_cons_of_mem _ (List.mem_cons_self ..))
    | @join r joiner rest event hprogram hedited hj _ hq =>
      subst hq
      cases hedited.roots hk with
      | same hid => exact .inl hid
      | root _ _ hr =>
        -- The thread has ended, so that it has no root.
        rcases hturn.ended_cases with he | ⟨p₁, hclosed, he⟩
        · have hsame : r.ended = p.ended := hedited.spares.ended
          have hlength := congrArg List.length (show r.thread :: r.ended = p.ended from he)
          simp [hsame] at hlength
        · obtain ⟨hthread, -⟩ :=
            List.cons.inj (show r.thread :: r.ended = p₁.thread :: p.ended from he)
          rw [hthread, hclosed.root] at hr
          cases hr

/-! ### Over a whole run -/

/-- A step adds at most one fiber, under the next id. -/
theorem Lawful.step_comers (h : p.Lawful) (hq : Act.step p = .ok () q) :
    p.comers q = [] ∧ q.nextId = p.nextId ∨
      p.comers q = [p.nextId] ∧ q.nextId = p.nextId + 1 := by
  obtain ⟨hturn, hlawful⟩ := h.step hq
  have hnew {f : Nat} (hf : f ∈ p.comers q) : p.nextId ≤ f ∧ f < q.nextId := by
    obtain ⟨hf, hnot⟩ := List.mem_filter.mp hf
    obtain ⟨y, hy⟩ := mem_roster.mp hf
    refine ⟨?_, hlawful.lt_of_roster hf⟩
    rcases hturn.descends h.ordered hy with ⟨x, hx, -⟩ | hborn
    · exact absurd (mem_roster.mpr ⟨x, hx⟩) (of_decide_eq_true hnot)
    · exact hborn.low
  rcases h.step_comes hq with hid | ⟨hid, halive⟩
  · refine .inl ⟨List.eq_nil_iff_forall_not_mem.mpr fun f hf => ?_, hid⟩
    have := hnew hf
    omega
  · have hnodup : (p.comers q).Nodup := hlawful.nodup_roster.filter _
    refine .inr ⟨List.perm_singleton.mp ?_, hid⟩
    rw [List.perm_ext_iff_of_nodup hnodup (List.nodup_singleton _)]
    intro f
    rw [List.mem_singleton]
    constructor
    · intro hf
      have := hnew hf
      omega
    · rintro rfl
      refine List.mem_filter.mpr ⟨halive, decide_eq_true fun hf => ?_⟩
      exact Nat.lt_irrefl _ (h.lt_of_roster hf)

theorem tell_succ {α : Type} {n : Nat} {news : Process → Process → List α}
    (hq : Act.step p = .ok () q) : p.tell news (n + 1) = news p q ++ q.tell news n := by
  rw [tell, hq]

/-- Fibers come in the order of their ids, none is missed and none comes twice. -/
theorem Lawful.made_run {n : Nat} (h : p.Lawful) (hrun : p.run n = (none, q)) :
    List.range p.nextId ++ p.made n = List.range q.nextId := by
  induction n generalizing p with
  | zero =>
    cases hrun
    exact List.append_nil _
  | succ n ih =>
    obtain ⟨r, hr, hrest⟩ := run_uncons hrun
    rw [made, tell_succ hr]
    have hrange := ih (h.step hr).2 hrest
    rcases h.step_comers hr with ⟨hnone, hid⟩ | ⟨hone, hid⟩
    · rw [hnone, List.nil_append, ← hid]
      exact hrange
    · rw [hid, List.range_succ, List.append_assoc] at hrange
      rw [hone]
      exact hrange

/-- What was alive before a step and what comes is what goes and what is alive then. -/
theorem Lawful.goers_roster (h : p.Lawful) (hq : q.Lawful) :
    (p.goers q ++ q.roster).Perm (p.roster ++ p.comers q) := by
  have hgoers : (p.goers q ++ q.roster).Nodup :=
    (h.nodup_roster.filter _).append hq.nodup_roster fun f hf hmem =>
      of_decide_eq_true (List.mem_filter.mp hf).2 hmem
  have hcomers : (p.roster ++ p.comers q).Nodup :=
    h.nodup_roster.append (hq.nodup_roster.filter _) fun f hmem hf =>
      of_decide_eq_true (List.mem_filter.mp hf).2 hmem
  rw [List.perm_ext_iff_of_nodup hgoers hcomers]
  intro f
  simp only [List.mem_append, goers, comers, List.mem_filter, decide_eq_true_iff]
  by_cases hp : f ∈ p.roster <;> by_cases hq : f ∈ q.roster <;> simp [hp, hq]

/-- What was alive and what was made is what was destroyed and what is still alive. -/
theorem Lawful.destroyed_run {n : Nat} (h : p.Lawful) (hrun : p.run n = (none, q)) :
    (p.destroyed n ++ q.roster).Perm (p.roster ++ p.made n) := by
  induction n generalizing p with
  | zero =>
    cases hrun
    rw [destroyed, made, tell, tell, List.nil_append, List.append_nil]
  | succ n ih =>
    obtain ⟨r, hr, hrest⟩ := run_uncons hrun
    have hlawful := (h.step hr).2
    rw [destroyed, made, tell_succ hr, tell_succ hr]
    calc p.goers r ++ r.destroyed n ++ q.roster
      _ = p.goers r ++ (r.destroyed n ++ q.roster) := List.append_assoc ..
      List.Perm _ (p.goers r ++ (r.roster ++ r.made n)) := (ih hlawful hrest).append_left _
      _ = p.goers r ++ r.roster ++ r.made n := (List.append_assoc ..).symm
      List.Perm _ (p.roster ++ p.comers r ++ r.made n) := (h.goers_roster hlawful).append_right _
      _ = p.roster ++ (p.comers r ++ r.made n) := List.append_assoc ..

end Process
end Fibers
