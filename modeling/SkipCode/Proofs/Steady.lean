import SkipCode.Proofs.Derivation

/-!
# Lowering leaves open what was open

Whatever a piece of the source opens it closes, so behind it the same scopes, loops, bodies and
regions are open as before it (`Lowers.steady`).
-/

namespace SkipCode

open Lower (Emits Closes noteCall)

/-- Giving slots back changes nothing that grows. -/
theorem Session.Grows.freed {owned : List (Pool × UInt32)} {a b : Session}
    (h : owned.foldlM Session.free a = .ok b) : a.Grows b := by
  induction owned generalizing a with
  | nil =>
    cases h
    exact .refl _
  | cons p rest ih =>
    rw [List.foldlM_cons] at h
    unfold Session.free at h
    cases hr : (a.slotPool p.1).release p.2 with
    | error e => simp [hr, Bind.bind, Except.bind] at h
    | ok q =>
      simp only [hr] at h
      exact (Session.Grows.setSlotPool _ q p.1).trans (ih h)

namespace UnitState.Steady

variable {s t u v : UnitState}

/-- A state stays steady with another list. -/
theorem withList (h : s.Steady t) (list : ActionList) : s.Steady (t.withList list) :=
  ⟨h.grows.trans (.withList t list), h.scopes, h.loops, h.frames, h.regions⟩

/-- It does not matter which list it came from. -/
theorem fromList {list : ActionList} (h : (s.withList list).Steady t) : s.Steady t :=
  ⟨(Grows.withList s list).trans h.grows, h.scopes, h.loops, h.frames, h.regions⟩

/-- Nor does a span. -/
theorem span (h : s.Steady t) (span : Source.Span) : s.Steady { t with span } :=
  ⟨h.grows.trans (.elsewhere ..), h.scopes, h.loops, h.frames, h.regions⟩

/-- Nor does the span it came from. -/
theorem fromSpan {span : Source.Span} (h : ({ s with span } : UnitState).Steady t) : s.Steady t :=
  ⟨.trans (.elsewhere ..) h.grows, h.scopes, h.loops, h.frames, h.regions⟩

/-- What a scope declared is gone when it is closed; what else was open has grown. -/
theorem pop {scope inner : Scope} {rest : List Scope} {list : ActionList} {session : Session}
    (h : ({ s with scopes := scope :: s.scopes } : UnitState).Steady t)
    (e : t.scopes = inner :: rest) (grows : t.session.Grows session) :
    s.Steady { t with scopes := rest, list, session } := by
  have same : rest = s.scopes := by
    have := h.scopes.tail_eq
    rw [e] at this
    exact this
  refine ⟨⟨h.grows.unit, h.grows.pool, h.grows.session.trans grows, h.grows.symbols,
    h.grows.hidden, h.grows.deferred⟩, ?_, h.loops, h.frames, h.regions⟩
  rw [same]
  exact .refl _

/-- A scope that is opened and closed. -/
theorem inScope {scope : Scope} {pops : List Action}
    (h : ({ s with scopes := scope :: s.scopes } : UnitState).Steady t) (closes : Closes t pops u) :
    s.Steady u := by
  obtain ⟨inner, rest, σ, e, -, freed, rfl⟩ := closes.closed
  exact h.pop e (.freed freed)

/-- A body that is entered and left. -/
theorem inBody {frame : Frame} (h : (s.entered frame).Steady t) (list : ActionList) :
    s.Steady (t.left list) := by
  refine ⟨.trans (.trans (.elsewhere ..) h.grows) (.elsewhere ..), h.scopes, h.loops, ?_, h.regions⟩
  obtain ⟨_, _, -, rest, e⟩ := List.forall₂_cons_left_iff.1 h.frames
  simp only [left, e]
  exact rest

/-- A loop that is opened and closed. -/
theorem inLoop {list : ActionList} (h : (s.looping list).Steady t) (list' : ActionList) :
    s.Steady (t.looped list') := by
  refine ⟨.trans (.trans (.elsewhere ..) h.grows) (.elsewhere ..), h.scopes, ?_, h.frames,
    h.regions⟩
  obtain ⟨_, _, -, rest, e⟩ := List.forall₂_cons_left_iff.1 h.loops
  simp only [looped, e]
  exact rest

/-- A region that is opened and closed. -/
theorem inRegion {region closing : Region} {regions : List Region}
    (h : (s.within region).Steady t)
    (closes : t.regions = closing :: regions) : s.Steady { t with regions } := by
  refine ⟨.trans (.trans (.elsewhere ..) h.grows) (.elsewhere ..), h.scopes, h.loops, h.frames, ?_⟩
  have := h.regions
  rw [closes] at this
  cases this with
  | cons _ rest => exact rest

/-- A region with the scope of the call that opens it. -/
theorem aroundRegion {frame : Frame} {region closing : Region} {regions : List Region}
    {list list' : ActionList} {pops : List Action} (opened : s.opened.Steady t)
    (inner : ((t.entered frame).within region).Steady u) (closing' : u.regions = closing :: regions)
    (closes : Closes ({ u.left list with regions }.withList list') pops v) : s.Steady v :=
  .inScope ((opened.trans (.inBody (.inRegion inner closing') list)).withList list') closes

/-- Noting a call keeps the frames and loops. -/
theorem noteCall (s : UnitState) (index continuation : Nat) :
    s.Steady (Lower.noteCall s index continuation) := by
  refine ⟨.elsewhere .., .refl _, List.forall₂_refl _, List.forall₂_refl _, ?_⟩
  rw [List.forall₂_iff_get]
  refine ⟨by simp [Lower.noteCall], fun i h₁ h₂ => ?_⟩
  simp only [Lower.noteCall, List.get_eq_getElem, List.getElem_modify]
  split
  · exact ⟨rfl, List.prefix_append _ _⟩
  · exact ⟨rfl, List.prefix_refl _⟩

end UnitState.Steady

/-- A frame that is reached is inside of the floor's loops. -/
theorem LoopStack.frame_ok {stack : LoopStack} {depth : UInt32} {floor : Nat} {name : String}
    {frame : LoopFrame} (h : stack.frame depth floor name = .ok frame) :
    floor + depth.toNat < stack.frames.length ∧ stack.frames[depth.toNat]? = some frame := by
  unfold LoopStack.frame at h
  split at h
  · next inside =>
    split at h
    · cases h
      exact ⟨inside, by assumption⟩
    · cases h
  · cases h

/-- A loop that grows leaves the others as they are. -/
theorem LoopStack.grows_set {s t : LoopStack} {depth : UInt32} {floor : Nat} {exit : String}
    {frame frame' : LoopFrame} (found : s.frame depth floor exit = .ok frame)
    (e : t = ⟨s.frames.set depth.toNat frame'⟩) (grows : frame.Grows frame') :
    List.Forall₂ LoopFrame.Grows s.frames t.frames := by
  subst e
  have at' := (frame_ok found).2
  rw [List.forall₂_iff_get]
  refine ⟨by simp, fun i h₁ h₂ => ?_⟩
  simp only [List.get_eq_getElem, List.getElem_set]
  split
  · next hi =>
    subst hi
    rw [List.getElem?_eq_getElem h₁] at at'
    cases at'
    exact grows
  · exact ⟨rfl, rfl⟩

/-- Noting a break makes its loop grow. -/
theorem LoopStack.grows_addBreak {s t : LoopStack} {depth : UInt32} {floor skip : Nat}
    (h : s.addBreak depth floor skip = .ok t) :
    List.Forall₂ LoopFrame.Grows s.frames t.frames := by
  unfold addBreak at h
  cases hf : s.frame depth floor "break" with
  | error e => simp [hf, Bind.bind, Except.bind] at h
  | ok frame =>
    rw [hf] at h
    exact grows_set hf (Except.ok.inj h).symm ⟨rfl, rfl⟩

/-- So does noting a continue. -/
theorem LoopStack.grows_addContinue {s t : LoopStack} {depth : UInt32} {floor skip : Nat}
    (h : s.addContinue depth floor skip = .ok t) :
    List.Forall₂ LoopFrame.Grows s.frames t.frames := by
  unfold addContinue at h
  cases hf : s.frame depth floor "continue" with
  | error e => simp [hf, Bind.bind, Except.bind] at h
  | ok frame =>
    rw [hf] at h
    exact grows_set hf (Except.ok.inj h).symm ⟨rfl, rfl⟩

/-- A state is steady while its loops grow. -/
theorem UnitState.Steady.ofLoops {s : UnitState} {list : ActionList} {loops : LoopStack}
    (h : List.Forall₂ LoopFrame.Grows s.loops.frames loops.frames) :
    s.Steady { s with list, loops } :=
  ⟨.elsewhere .., .refl _, h, List.forall₂_refl _, List.forall₂_refl _⟩

/-- Noting a return keeps it steady. -/
theorem UnitState.Steady.addReturn {s : UnitState} {frame : Frame} {frames : List Frame}
    (h : s.frames = frame :: frames) (list : ActionList) (returns : List Nat) :
    s.Steady { s with list, frames := { frame with returns } :: frames } := by
  refine ⟨.elsewhere .., .refl _, List.forall₂_refl _, ?_, List.forall₂_refl _⟩
  rw [h]
  exact .cons rfl (List.forall₂_refl _)

/-- Behind a piece of code the same things are open as before it. -/
theorem Lowers.steady {task : Task} {s t : UnitState} {c : Code} {xs : List Element}
    (h : Lowers task s c xs t) : s.Steady t := by
  -- on the derivation: whatever a construct opens it closes itself
  induction h with
  | nil | fields_nil | statics_nil | stmts_nil | arms_nil => exact .refl _
  | cons _ _ ih₁ ih₂ => exact ih₁.trans ih₂
  | node _ _ ih => exact ih
  | var e | this e | staticField e => exact e.extends'.steady
  | field _ e ih => exact ih.trans e.extends'.steady
  | actorVar _ _ ih => exact ih
  | call _ _ _ _ _ ih₁ ih₂ ih₃ => exact ih₁.trans (ih₂.trans ih₃)
  | new _ _ ih₁ ih₂ => exact ih₁.trans ih₂
  | body list e _ closes ih =>
    exact .inBody (.inScope (e.extends'.steady.trans ih) closes) list
  | inline _ e _ e' ih => exact e.extends'.steady.trans (ih.trans e'.extends'.steady)
  | reenter list continuation _ _ e =>
    exact (UnitState.Steady.noteCall _ _ _).trans (.fromList e.extends'.steady)
  | region list list' list'' _ _ e₁ e₂ e₃ _ open' closes e₄ ih =>
    have called := UnitState.Steady.aroundRegion e₃.extends'.steady ih open' closes
    exact e₁.extends'.steady.trans (e₂.extends'.steady.trans (called.trans
      (.fromList e₄.extends'.steady)))
  | make _ _ e₁ e₂ _ e₃ _ e₄ _ _ _ ih₁ ih₂ =>
    exact e₁.extends'.steady.trans (e₂.extends'.steady.trans (e₃.extends'.steady.trans
      (e₄.extends'.steady.trans (ih₁.trans ih₂))))
  | initials list _ closes ih => exact .inBody (.inScope ih closes) list
  | fields_cons list _ e _ ih₁ ih₂ =>
    exact ih₁.trans (e.extends'.steady.trans (.fromList ih₂))
  | statics_cons list _ e _ ih₁ ih₂ => exact ih₁.trans (e.extends'.steady.trans (.fromList ih₂))
  | stmt _ ih => exact (UnitState.Steady.fromSpan ih).span _
  | stmts_cons _ _ ih₁ ih₂ => exact ih₁.trans ih₂
  | block _ closes ih => exact .inScope ih closes
  | define _ e ih => exact ih.trans e.extends'.steady
  | assign list _ _ e _ _ ih₁ ih₂ ih₃ =>
    exact (ih₁.trans (ih₂.trans (e.extends'.steady.trans ih₃))).withList list
  | assignActor list _ _ _ _ _ ih₁ ih₂ ih₃ => exact (ih₁.trans (ih₂.trans ih₃)).withList list
  | cond list _ ih => exact ih.withList list
  | «while» _ ih => exact ih
  | «for» _ _ closes ih₁ ih₂ => exact .inScope (ih₁.trans ih₂) closes
  | forEach list list' list'' _ e₁ e₂ _ _ closes _ closes' ih₁ ih₂ =>
    have inner := UnitState.Steady.inLoop (.fromList (.inScope ih₂ closes)) list''
    exact ih₁.trans (.inScope (e₁.extends'.steady.trans (e₂.extends'.steady.trans inner)) closes')
  | «break» _ _ _ _ added => exact .ofLoops (LoopStack.grows_addBreak added)
  | «continue» _ _ _ _ added => exact .ofLoops (LoopStack.grows_addContinue added)
  | «return» list skip _ frame ih => exact ih.trans (.addReturn frame _ _)
  | delete _ e ih => exact ih.trans e.extends'.steady
  | blockKind _ ih => exact ih
  | exprKind _ ih => exact ih
  | arms_otherwise _ ih => exact ih
  | arms_last list list' _ closes _ ih₁ ih₂ =>
    exact ((UnitState.Steady.inScope (ih₁.withList list) closes).trans ih₂).withList list'
  | arms_cons list list' _ closes _ _ ih₁ ih₂ ih₃ =>
    exact (UnitState.Steady.inScope (ih₁.withList list) closes).trans (ih₂.trans (.fromList ih₃))
  | loop list list' list'' list''' _ closes _ _ ih₁ ih₂ ih₃ =>
    have pass := (UnitState.Steady.inScope (ih₁.withList list') closes).trans ih₂
    exact ((UnitState.Steady.inLoop pass list'').trans ih₃).withList list'''

end SkipCode
