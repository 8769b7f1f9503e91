import Fibers.Proofs.Tandem
import Fibers.Proofs.Transfer

/-! Anchoring.

On its way into a fiber `resume` finds the anchor of that fiber: it takes handles of the root and of
the hub, perhaps remarks that the caller is neither, and gives the handles back. `approach_cases`
says that it either aborts, over a fiber which would anchor itself, or leaves nothing behind but
that remark (`Borrowed`), whatever flag and hub decided. -/
namespace Fibers

/-! ### What shows of a flag -/

/-- What can be seen of a fiber but its scheduler flag. -/
def Fiber.View.masked (x : Fiber.View) : Fiber.View := {x with scheduled := false}

def Answer.masked : Answer → Answer
  | .view x => .view x.masked
  | .inspection x => .inspection x.masked
  | a => a

/-- An event without flags. That a fiber is resumed from elsewhere than its anchor is none. -/
def Event.masked? : Event → Option Event
  | .logged (.foreignAnchor ..) => none
  | .done label status a => some (.done label status a.masked)
  | event => some event

/-- What happened, but for anchors and flags. -/
def shown (events : List Event) : List Event := events.filterMap Event.masked?

theorem shown_cons (event : Event) (events : List Event) :
    shown (event :: events) = event.masked?.toList ++ shown events := by
  rw [shown, List.filterMap_cons]
  cases event.masked? <;> rfl

theorem shown_suffix {events events' : List Event} (h : events <:+ events') :
    shown events <:+ shown events' := h.filterMap _

namespace Process

/-- The process with some more handles out, and nothing else but remarks about anchors. -/
structure Borrowed (extra : List Nat) (p q : Process) : Prop where
  others : ∃ fibers trace, q = {p with thread := {p.thread with fibers}, trace}
  fibers : ∀ f, q.thread.fibers.get? f =
    (p.thread.fibers.get? f).map fun x => {x with handles := x.handles + extra.count f}
  trace : shown q.trace = shown p.trace

/-- There is a root, and every fiber that is alive has a handle. -/
structure Standing (p : Process) : Prop where
  root : ∃ r x, p.thread.root = some r ∧ p.thread.fibers.get? r = some x
  positive : ∀ f x, p.thread.fibers.get? f = some x → 0 < x.handles

variable {p q : Process} {extra extra' : List Nat} {f c : Nat} {x : Fiber}

theorem Borrowed.perm (h : Borrowed extra p q) (hp : extra.Perm extra') : Borrowed extra' p q :=
  {h with fibers := fun f => by rw [h.fibers, hp.count_eq]}

theorem Borrowed.get? (h : Borrowed extra p q) (hx : p.thread.fibers.get? f = some x) :
    q.thread.fibers.get? f = some {x with handles := x.handles + extra.count f} := by
  rw [h.fibers, hx]
  rfl

theorem Borrowed.root (h : Borrowed extra p q) : q.thread.root = p.thread.root := by
  obtain ⟨fibers, trace, rfl⟩ := h.others
  rfl

theorem Borrowed.livingHub (h : Borrowed extra p q) : q.thread.livingHub = p.thread.livingHub := by
  have hfibers := h.fibers
  obtain ⟨fibers, trace, rfl⟩ := h.others
  ext b
  rw [Thread.livingHub_eq_some, Thread.livingHub_eq_some, hfibers]
  cases p.thread.fibers.get? b <;> simp

/-- With all handles given back, the fibers are as they were. -/
theorem Borrowed.settled (h : Borrowed [] p q) (f : Nat) :
    q.thread.fibers.get? f = p.thread.fibers.get? f := by
  rw [h.fibers]
  cases p.thread.fibers.get? f <;> rfl

/-- The process with a handle given back. -/
def giveBackOne (p : Process) (f : Nat) (x : Fiber) : Process :=
  {p with thread := p.thread.setFiber f {x with handles := x.handles - 1}}

/-- Before the handle was given back. -/
theorem borrowed_giveBackOne (hx : p.thread.fibers.get? f = some x) (hpos : 0 < x.handles) :
    Borrowed [f] (p.giveBackOne f x) p where
  others := ⟨p.thread.fibers, p.trace, rfl⟩
  fibers g := by
    rw [giveBackOne, Thread.get?_setFiber]
    split
    · next hg =>
      rw [hg, hx, Option.map_some, List.count_singleton_self]
      dsimp only
      rw [Nat.sub_add_cancel hpos]
    · next hg =>
      rw [List.count_singleton, if_neg (by simpa using Ne.symm hg)]
      cases p.thread.fibers.get? g <;> rfl
  trace := rfl

theorem standing_giveBackOne (h : p.Standing) (htwo : 2 ≤ x.handles) :
    (p.giveBackOne f x).Standing where
  root := by
    obtain ⟨r, z, hr, hz⟩ := h.root
    by_cases he : r = f
    · exact ⟨r, _, hr, Thread.get?_setFiber.trans (if_pos he)⟩
    · exact ⟨r, z, hr, Thread.get?_setFiber.trans ((if_neg he).trans hz)⟩
  positive g y hy := by
    obtain ⟨-, rfl⟩ | ⟨-, hy⟩ := Table.set_cases hy
    · exact Nat.sub_pos_of_lt htwo
    · exact h.positive g y hy

end Process

namespace Act
open Process

variable {p q : Process} {E : Halt → Process → Prop} {extra : List Nat} {f c : Nat} {x : Fiber}

theorem borrowed_setFiber {extra' : List Nat} (h : Borrowed extra p q)
    (hx : p.thread.fibers.get? f = some x) {n : Nat} (hn : n = x.handles + extra'.count f)
    (hcount : ∀ g, g ≠ f → extra'.count g = extra.count g) :
    (setFiber f {x with handles := n}).Leads q (fun _ r => Borrowed extra' p r) E := by
  refine leads_setFiber.mpr ⟨?_, fun g => ?_, h.trace⟩
  · obtain ⟨fibers, trace, rfl⟩ := h.others
    exact ⟨_, _, rfl⟩
  · rw [Table.get?_set]
    split
    · next hg => rw [hg, hx, hn, Option.map_some]
    · next hg => rw [h.fibers, hcount g hg]

theorem borrowed_retain (h : Borrowed extra p q) (hx : p.thread.fibers.get? f = some x) :
    (retain f).Leads q (fun _ r => Borrowed (f :: extra) p r) E := by
  refine leads_bind.mpr ((leads_fiber (h.get? hx)).mpr ?_)
  refine borrowed_setFiber h hx ?_ fun g hg => List.count_cons_of_ne (Ne.symm hg)
  rw [List.count_cons_self]
  rfl

theorem borrowed_release (h : Borrowed (f :: extra) p q) (hx : p.thread.fibers.get? f = some x)
    (hpos : 0 < x.handles) : (release f).Leads q (fun _ r => Borrowed extra p r) E := by
  refine leads_bind.mpr ((leads_fiber (h.get? hx)).mpr ?_)
  rw [List.count_cons_self, if_neg (show ¬ x.handles + (extra.count f + 1) ≤ 1 by omega)]
  exact borrowed_setFiber h hx rfl fun g hg => (List.count_cons_of_ne (Ne.symm hg)).symm

theorem borrowed_hubFiber (h : Borrowed extra p q) : hubFiber.Leads q (fun hub r =>
      (∀ b, hub = some b → ∃ x, p.thread.fibers.get? b = some x) ∧
        Borrowed (hub.toList ++ extra) p r) E := by
  unfold hubFiber
  refine leads_bind.mpr (leads_thread.mpr ?_)
  rw [h.livingHub]
  cases hb : p.thread.livingHub with
  | none => exact leads_pure.mpr ⟨fun _ hb => (nomatch hb), h⟩
  | some b =>
    obtain ⟨-, x, hx⟩ := Thread.livingHub_eq_some.mp hb
    refine Leads.bind (borrowed_retain h hx) fun _ r hr => ⟨fun _ h => ?_, hr⟩
    cases h
    exact ⟨x, hx⟩

/-- An abort over a fiber that would anchor itself, with nothing else to show. -/
def Snagged (f : Nat) (p : Process) (halt : Halt) (q : Process) : Prop :=
  halt = .aborted (.anchorsItself f) ∧
    ∃ trace, q.trace = .logged (.violated (.anchorsItself f)) :: trace ∧ shown trace = shown p.trace

theorem logged_violated (p : Process) (v : Violation) :
    logged p (.violated v) = .logged (.violated v) :: p.trace :=
  if_pos (Nat.zero_le _)

theorem borrowed_anchorTo {a : Nat} {q : Process} (ha : ∃ x, p.thread.fibers.get? a = some x)
    (h : Borrowed (a :: extra) p q) : (anchorTo f a).Leads q
      (fun a r => (∃ x, p.thread.fibers.get? a = some x) ∧ Borrowed (a :: extra) p r)
      (Snagged f p) :=
  leads_bind.mpr (leads_ensure.mpr ⟨fun _ => ⟨ha, h⟩, fun _ =>
    ⟨rfl, q.trace, logged_violated q _, h.trace⟩⟩)

theorem borrowed_anchor (flag : Bool) (hp : p.Standing) (h : Borrowed extra p q) :
    (anchor f flag).Leads q
      (fun a r => (∃ x, p.thread.fibers.get? a = some x) ∧ Borrowed (a :: extra) p r)
      (Snagged f p) := by
  obtain ⟨r, z, hr, hz⟩ := hp.root
  rw [anchor_eq]
  refine leads_bind.mpr (leads_thread.mpr ?_)
  rw [h.root, hr]
  refine Leads.bind (borrowed_retain h hz) fun _ q₁ h₁ => ?_
  cases flag with
  | false => exact borrowed_anchorTo ⟨z, hz⟩ h₁
  | true =>
    refine Leads.bind (borrowed_hubFiber h₁) fun hub q₂ ⟨halive, h₂⟩ => ?_
    cases hub with
    | none => exact borrowed_anchorTo ⟨z, hz⟩ h₂
    | some b =>
      exact Leads.bind (borrowed_release (h₂.perm (.swap ..)) hz (hp.positive r z hz))
        fun _ q₃ h₃ => borrowed_anchorTo (halive b rfl) h₃

theorem borrowed_remark (h : Borrowed extra p q) (f c a : Nat) :
    (log (.foreignAnchor f c a)).Leads q (fun _ r => Borrowed extra p r) E := by
  refine leads_log.mpr ⟨?_, h.fibers, ?_⟩
  · obtain ⟨fibers, trace, rfl⟩ := h.others
    exact ⟨_, _, rfl⟩
  · rw [← h.trace, logged]
    split
    · exact shown_cons _ _
    · rfl

/-- Whatever anchors the fiber, one handle of the caller is given back and nothing else is changed,
unless the fiber would anchor itself. -/
theorem approach_cases (f : Nat) (flag : Bool) (next : Act Unit) (hp : p.Standing)
    (hx : p.thread.fibers.get? c = some x) (htwo : 2 ≤ x.handles) :
    (∃ q, Borrowed [] (p.giveBackOne c x) q ∧ approach f c flag next p = next q) ∨
    ∃ halt q, Snagged f p halt q ∧ approach f c flag next p = .error halt q := by
  have hlent := borrowed_giveBackOne hx (Nat.lt_of_succ_lt htwo)
  have hstanding : (p.giveBackOne c x).Standing := standing_giveBackOne hp htwo
  have hback {a : Nat} {q : Process} (ha : ∃ x', (p.giveBackOne c x).thread.fibers.get? a = some x')
      (h : Borrowed [a, c] (p.giveBackOne c x) q) :
      ∃ r, Borrowed [] (p.giveBackOne c x) r ∧
        handBack c a next q = next r := by
    obtain ⟨z, hz⟩ := ha
    have hc : (p.giveBackOne c x).thread.fibers.get? c = some {x with handles := x.handles - 1} :=
      Thread.get?_setFiber.trans (if_pos rfl)
    obtain ⟨_, q₁, h₁, hq₁⟩ := (borrowed_release (E := fun _ _ => False) (h.perm (.swap ..)) hc
      (Nat.sub_pos_of_lt htwo)).answers
    obtain ⟨_, q₂, h₂, hq₂⟩ := (borrowed_release (E := fun _ _ => False) hq₁ hz
      (hstanding.positive a z hz)).answers
    exact ⟨q₂, hq₂, (bind_ok h₁).trans (bind_ok h₂)⟩
  have hanchor := borrowed_anchor (f := f) flag hstanding hlent
  unfold approach
  cases hr : anchor f flag p with
  | error halt q => exact .inr ⟨halt, q, hanchor.error hr, bind_error hr⟩
  | ok a q =>
    obtain ⟨ha, hq⟩ := hanchor.ok hr
    left
    rw [bind_ok hr]
    dsimp only
    split
    · obtain ⟨_, q₁, h₁, hq₁⟩ := (borrowed_remark (E := fun _ _ => False) hq f c a).answers
      rw [bind_ok h₁]
      exact hback ha hq₁
    · exact hback ha hq

end Act
end Fibers
