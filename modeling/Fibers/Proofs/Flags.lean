import Fibers.Proofs.Anchor
import Fibers.Proofs.Itself

/-! The scheduler flag is a label.

Two scenarios that differ in nothing but the scheduler flags of the fibers they create run step for
step alike, and so do two processes that differ in nothing but the hub, as long as nobody asks for
it. The flag and the hub decide the anchor of a resume, and that decides what is remarked and
whether the resume is allowed, never where control goes or who keeps a handle. -/
namespace Fibers

/-! ### Scripts without flags -/

mutual

/-- The operation with no fiber in a scheduler. -/
def Op.masked : Op → Op
  | .mk label action => .mk label action.masked

def Action.masked : Action → Action
  | .create s callback size _ supply => .create s callback.masked size false supply
  | .reset s callback => .reset s callback.masked
  | .resetInPlace s callback => .resetInPlace s callback.masked
  | .runThread program => .runThread program.masked
  | .times count body => .times count body.masked
  | .untilTerm s body => .untilTerm s body.masked
  | .whenState s state body otherwise => .whenState s state body.masked otherwise.masked
  | action => action

def Script.masked : Script → Script
  | .inline ops => .inline (Op.allMasked ops)
  | .named name => .named name

def Op.allMasked : List Op → List Op
  | [] => []
  | op :: rest => op.masked :: Op.allMasked rest

end

/-- The scenario with no fiber in a scheduler. -/
def Scenario.masked (s : Scenario) : Scenario :=
  {s with
    scripts := s.scripts.map fun named => (named.1, Op.allMasked named.2)
    program := Op.allMasked s.program}

/-- The same fibers and scripts, but for flags, and for hubs if those do not count. -/
def Variation.flagged (hubs : Prop) (scripts scripts' : List (String × List Op)) : Variation where
  id f := f
  injective _ _ h := h
  flags _ _ := True
  hubs
  scripts
  scripts'
  cuts := False
  broken _ := False

section Masked

variable {hubs : Prop} {scripts scripts' : List (String × List Op)}

/-- An action that contains no script has no flag either. -/
theorem Action.alike_scriptless {v : Variation} {a a' : Action} (h : a'.masked = a.masked)
    (ha : a.Scriptless) : Action.Alike v a a' := by
  have hmasked : a.masked = a := by
    cases a <;> first | rfl | exact ha.elim
  rw [hmasked] at h
  have heq : a' = a := by
    cases a' with
    | create | reset | resetInPlace | runThread | times | untilTerm | whenState =>
      subst h
      exact ha.elim
    | _ => exact h
  rw [heq]
  exact .plain ha

mutual

theorem Op.alike_of_masked : ∀ (op op' : Op), op'.masked = op.masked →
    Op.Alike (.flagged hubs scripts scripts') op op'
  | .mk label action, .mk label' action', h => by
    simp only [Op.masked, Op.mk.injEq] at h
    obtain ⟨rfl, h⟩ := h
    exact .mk _ (Action.alike_of_masked action action' h)

theorem Action.alike_of_masked : ∀ (action action' : Action), action'.masked = action.masked →
    Action.Alike (.flagged hubs scripts scripts') action action'
  | .create s c size _ supply, a', h => by
    cases a' <;> simp only [Action.masked, reduceCtorEq, Action.create.injEq] at h
    obtain ⟨rfl, hc, rfl, -, rfl⟩ := h
    exact .create _ _ _ (Script.alike_of_masked c _ hc).answers trivial
  | .reset s c, a', h => by
    cases a' <;> simp only [Action.masked, reduceCtorEq, Action.reset.injEq] at h
    obtain ⟨rfl, hc⟩ := h
    exact .reset _ (Script.alike_of_masked c _ hc).answers
  | .resetInPlace s c, a', h => by
    cases a' <;> simp only [Action.masked, reduceCtorEq, Action.resetInPlace.injEq] at h
    obtain ⟨rfl, hc⟩ := h
    exact .resetInPlace _ (Script.alike_of_masked c _ hc).answers
  | .runThread c, a', h => by
    cases a' <;> simp only [Action.masked, reduceCtorEq, Action.runThread.injEq] at h
    exact .runThread (Script.alike_of_masked c _ h)
  | .times n c, a', h => by
    cases a' <;> simp only [Action.masked, reduceCtorEq, Action.times.injEq] at h
    obtain ⟨rfl, hc⟩ := h
    exact .times _ (Script.alike_of_masked c _ hc)
  | .untilTerm s c, a', h => by
    cases a' <;> simp only [Action.masked, reduceCtorEq, Action.untilTerm.injEq] at h
    obtain ⟨rfl, hc⟩ := h
    exact .untilTerm _ (Script.alike_of_masked c _ hc)
  | .whenState s state c d, a', h => by
    cases a' <;> simp only [Action.masked, reduceCtorEq, Action.whenState.injEq] at h
    obtain ⟨rfl, rfl, hc, hd⟩ := h
    exact .whenState _ _ (Script.alike_of_masked c _ hc) (Script.alike_of_masked d _ hd)
  | .nothing, _, h | .resume _, _, h | .yield, _, h | .yieldOf _, _, h | .current _, _, h
  | .clone _ _, _, h | .drop _, _, h | .hold _, _, h | .state _, _, h | .view _, _, h
  | .inspect _, _, h | .same _ _, _, h | .setHub _, _, h | .clearHub, _, h | .hub _, _, h
  | .currentId, _, h | .panic _, _, h | .note, _, h | .add _ _, _, h | .install _, _, h
  | .readEnvironment, _, h | .stackSize, _, h | .setEnvironment _, _, h | .makeTally _ _ _, _, h
  | .readTally _, _, h | .makeStack _ _ _, _, h | .freeStack _, _, h =>
    Action.alike_scriptless h trivial

theorem Script.alike_of_masked : ∀ (c c' : Script), c'.masked = c.masked →
    Script.Alike (.flagged hubs scripts scripts') c c'
  | .inline ops, .inline ops', h => by
    simp only [Script.masked, Script.inline.injEq] at h
    exact .ops rfl rfl (Op.allAlike_of_masked ops ops' h)
  | .named name, .named name', h => by
    simp only [Script.masked, Script.named.injEq] at h
    subst h
    exact .named id
  | .inline _, .named _, h => by simp [Script.masked] at h
  | .named _, .inline _, h => by simp [Script.masked] at h

theorem Op.allAlike_of_masked : ∀ (ops ops' : List Op), Op.allMasked ops' = Op.allMasked ops →
    List.Forall₂ (Op.Alike (.flagged hubs scripts scripts')) ops ops'
  | [], [], _ => .nil
  | op :: rest, op' :: rest', h => by
    simp only [Op.allMasked, List.cons.injEq] at h
    exact .cons (Op.alike_of_masked op op' h.1) (Op.allAlike_of_masked rest rest' h.2)
  | [], _ :: _, h => by simp [Op.allMasked] at h
  | _ :: _, [], h => by simp [Op.allMasked] at h

end

/-- Scripts have the same names. -/
theorem lookup_alike {v : Variation} (hv : ∀ ops ops', Op.allMasked ops' = Op.allMasked ops →
      List.Forall₂ (Op.Alike v) ops ops') : ∀ {l l' : List (String × List Op)},
    l'.map (fun named => (named.1, Op.allMasked named.2)) =
      l.map (fun named => (named.1, Op.allMasked named.2)) → ∀ name,
    Option.Rel (List.Forall₂ (Op.Alike v)) (l.lookup name) (l'.lookup name)
  | [], [], _, _ => .none
  | (key, ops) :: l, (key', ops') :: l', h, name => by
    simp only [List.map_cons, List.cons.injEq, Prod.mk.injEq] at h
    obtain ⟨⟨rfl, hops⟩, h⟩ := h
    rw [List.lookup_cons, List.lookup_cons]
    split
    · exact .some (hv _ _ hops)
    · exact lookup_alike hv h name
  | [], _ :: _, h, _ => by simp at h
  | _ :: _, [], h, _ => by simp at h

end Masked

/-! ### Processes without flags -/

section Names

variable {hubs : Prop} {scripts scripts' : List (String × List Op)} {w : Pairing}

theorem faithful_flagged : (Variation.flagged hubs scripts scripts').Faithful := fun _ => rfl

theorem Event.masked_flagged (hw : w.Diagonal) {event event' : Event}
    (h : event.Alike (.flagged hubs scripts scripts') w event') :
    event'.masked? = event.masked? := by
  cases h with
  | logged h => rw [Record.eq_of_faithful faithful_flagged hw h]
  | began h => rw [Status.eq_of_faithful faithful_flagged h]
  | ended h => rw [Status.eq_of_faithful faithful_flagged h]
  | @done label status _ a a' h ha =>
    have hanswer : a'.masked = a.masked :=
      Answer.eq_of_faithful faithful_flagged hw (fun _ _ _ => rfl) (fun _ _ _ => rfl) ha
    rw [Status.eq_of_faithful faithful_flagged h]
    exact congrArg (fun a => some (Event.done label status a)) hanswer

end Names

/-- Two ends are the same but for anchors and flags. An abort is the last thing that is logged. -/
structure SameEnd (halt : Halt) (trace : List Event) (halt' : Halt) (trace' : List Event) :
    Prop where
  reason : halt' = halt
  shown : shown trace' = shown trace
  last : ∀ violation, halt = .aborted violation →
    ∃ earlier, trace = .logged (.violated violation) :: earlier

/-- Processes at one level that differ in flags, and in hubs if those do not count. -/
def Likeness.flagged (hubs : Prop) (level : Level) {scripts scripts' : List (String × List Op)}
    (h : scripts'.map (fun named => (named.1, Op.allMasked named.2)) =
      scripts.map (fun named => (named.1, Op.allMasked named.2))) : Likeness where
  toVariation := .flagged hubs scripts scripts'
  fit :=
    have hlookup := lookup_alike Op.allAlike_of_masked h
    ⟨fun name => rel_mono (hlookup name) fun _ _ h => .inl h, fun name _ => hlookup name⟩
  unscheduled := trivial
  moved := False
  level
  level' := level
  traces w trace trace' := w.Diagonal → shown trace' = shown trace
  ends w halt trace halt' trace' := w.Diagonal → SameEnd halt trace halt' trace'
  mono hwu h hu := h fun x hx => hu x (hwu hx)
  ended hhalt hnone h hw :=
    ⟨Halt.eq_of_faithful faithful_flagged hhalt, h hw,
      fun violation hv => (hnone violation hv).elim⟩
  aborted {w trace trace'} violation h hw := by
    have hlogged (violation : Violation) (trace : List Event) :
        (Record.violated violation).logOn level trace = .logged (.violated violation) :: trace :=
      if_pos (Nat.zero_le _)
    rw [Violation.rename_faithful faithful_flagged, hlogged, hlogged]
    refine ⟨rfl, by rw [shown_cons, shown_cons, h hw], fun v hv => ?_⟩
    cases hv
    exact ⟨trace, rfl⟩
  logged := by
    intro w record record' trace trace' hrecord h hw
    rw [Record.logOn, Record.logOn, hrecord.level]
    split
    · rw [shown_cons, shown_cons, Event.masked_flagged hw (.logged hrecord), h hw]
    · exact h hw

section Steps

variable {hubs : Prop} {level : Level} {scripts scripts' : List (String × List Op)}
  {hscripts : scripts'.map (fun named => (named.1, Op.allMasked named.2)) =
    scripts.map (fun named => (named.1, Op.allMasked named.2))}
  {w : Pairing} {p p' q q' : Process}

theorem flagged_reports : (Likeness.flagged hubs level hscripts).Reports := by
  intro w event event' trace trace' h _ htrace hw
  rw [shown_cons, shown_cons, Event.masked_flagged hw h, htrace hw]

theorem shown_of_flagged (h : (Likeness.flagged hubs level hscripts).Alike w p p') :
    shown p'.trace = shown p.trace :=
  h.trace (h.memory.resolve_left id).2

/-- Fibers have the same names. -/
theorem fibers_flagged (h : (Likeness.flagged hubs level hscripts).Alike w p p') (f : Nat) :
    Option.Rel (Fiber.Alike (.flagged hubs scripts scripts') w) (p.thread.fibers.get? f)
      (p'.thread.fibers.get? f) := h.thread.fibers f

theorem fiber_flagged (h : (Likeness.flagged hubs level hscripts).Alike w p p') {f : Nat}
    {x : Fiber} (hx : p.thread.fibers.get? f = some x) : ∃ x',
      p'.thread.fibers.get? f = some x' ∧ x.Alike (.flagged hubs scripts scripts') w x' := by
  have hfiber := fibers_flagged h f
  rw [hx] at hfiber
  cases hx' : p'.thread.fibers.get? f <;> rw [hx'] at hfiber <;> cases hfiber
  next hxx' => exact ⟨_, rfl, hxx'⟩

open Process

theorem standing_flagged (h : (Likeness.flagged hubs level hscripts).Alike w p p')
    (hp : p.Standing) : p'.Standing where
  root := by
    obtain ⟨r, x, hr, hx⟩ := hp.root
    obtain ⟨x', hx', -⟩ := fiber_flagged h hx
    exact ⟨r, x', h.thread.root.trans (congrArg (Option.map _) hr), hx'⟩
  positive f x' hx' := by
    have hfiber := fibers_flagged h f
    cases hx : p.thread.fibers.get? f <;> rw [hx, hx'] at hfiber <;> cases hfiber
    next hxx' => exact hxx'.handles ▸ hp.positive f _ hx

/-- Handles that are out and remarks on anchors make no difference. -/
theorem flagged_borrowed (h : (Likeness.flagged hubs level hscripts).Alike w p p')
    (hq : Borrowed [] p q) (hq' : Borrowed [] p' q') :
    (Likeness.flagged hubs level hscripts).Alike w q q' := by
  have hfibers := hq.settled
  have hfibers' := hq'.settled
  have htrace := hq.trace
  have htrace' := hq'.trace
  obtain ⟨fibers, trace, rfl⟩ := hq.others
  obtain ⟨fibers', trace', rfl⟩ := hq'.others
  exact {h with
    thread := {h.thread with
      fibers := fun f => by
        rw [hfibers, hfibers']
        exact h.thread.fibers f
      others := fun f hf => (hfibers' f).trans (h.thread.others f hf) }
    trace := fun hw => by rw [htrace, htrace', h.trace hw] }

end Steps
end Fibers
