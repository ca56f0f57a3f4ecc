import SkipCode.Proofs.Steady

/-!
# Where lowered code comes to stand

While a unit is lowered its list grows and its skips get their counts one by one. `Fits` compares a
state in the middle with the finished list: what is written already is there, filled in at most,
and every skip that waits was led to where a plan says. The plan is known only at the end, so the
lemmas here go backward, from the state behind a step to the one before it: `Laid` says that a list
that fits what comes after a piece of code fits what comes before, and has the piece in between.
-/

namespace SkipCode

open Lower (Closes Emits Extends Settled)

/-! ## Lists that are filled in -/

/-- An action as it stands in the finished list: the same, or with the count that it waited for. -/
def Action.Fills (a a' : Action) : Prop :=
  a' = a ∨ a.isPending = true ∧ ∃ count, a' = a.withCount count

/-- A settled action is filled by itself only. -/
theorem Action.Fills.settled {a a' : Action} (h : a.Fills a') (settled : a.isPending = false) :
    a' = a := by
  rcases h with h | ⟨h, -⟩
  · exact h
  · rw [settled] at h
    cases h

/-- A finished list that begins as another one does. -/
def Covers (F l : ActionList) : Prop :=
  ∀ i a, l.get? i = some a → ∃ a', F.get? i = some a' ∧ a.Fills a'

/-- The skip at a position was given the count that leads it to a target. -/
def Led (F : ActionList) (p target : Nat) : Prop :=
  target ≤ F.length ∧ ∃ a : Action, a.isPending = true ∧
    F.get? p = some (a.withCount (Action.skipDistance p target))

variable {F l l' : ActionList} {p q target : Nat}

/-- Positions where something stands are inside of the list. -/
theorem lt_of_get? {a : Action} (h : l.get? p = some a) : p < l.length :=
  (Array.getElem?_eq_some_iff.1 h).1

/-- A list that covers another is no shorter. -/
theorem Covers.length_le (h : Covers F l) : l.length ≤ F.length := by
  apply Nat.le_of_not_lt
  intro lt
  obtain ⟨a, ha⟩ : ∃ a, l.get? F.length = some a := ⟨_, Array.getElem?_eq_getElem lt⟩
  obtain ⟨a', ha', -⟩ := h _ _ ha
  exact absurd (lt_of_get? ha') (Nat.lt_irrefl _)

/-- What was written behind a list that is covered is covered too. -/
theorem Covers.of_append {actions : List Action} (h : Covers F l')
    (e : l'.toList = l.toList ++ actions) :
    Covers F l ∧ ∀ i (hi : i < actions.length),
      ∃ a', F.get? (l.length + i) = some a' ∧ actions[i].Fills a' := by
  have len : l.toList.length = l.length := l.length_toList
  constructor
  · intro i a ha
    apply h
    rw [ActionList.get?_eq_toList] at ha ⊢
    rw [e, List.getElem?_append_left (List.getElem?_eq_some_iff.1 ha).1]
    exact ha
  · intro i hi
    apply h
    rw [ActionList.get?_eq_toList, e, List.getElem?_append_right (by omega), len,
      Nat.add_sub_cancel_left, List.getElem?_eq_getElem hi]

/-- Actions that were written stand in the finished list as they are. -/
theorem Covers.actsAt {actions : List Action} (h : Covers F l')
    (e : l'.toList = l.toList ++ actions) (settled : Settled actions) :
    Covers F l ∧ ActsAt F l.length actions ∧ l'.length = l.length + actions.length := by
  obtain ⟨h₁, h₂⟩ := h.of_append e
  refine ⟨h₁, ?_, ?_⟩
  · intro i hi
    obtain ⟨a', found, fills⟩ := h₂ i hi
    rw [found, List.getElem?_eq_getElem hi, fills.settled (settled _ (List.getElem_mem hi))]
  · rw [← ActionList.length_toList, e, List.length_append, ActionList.length_toList]

/-- An action that was pushed stands there with its skip filled in. -/
theorem Covers.push {a : Action} (h : Covers F (l.push a)) :
    Covers F l ∧ ∃ a', F.get? l.length = some a' ∧ a.Fills a' := by
  obtain ⟨h₁, h₂⟩ := h.of_append (ActionList.toList_push l a)
  exact ⟨h₁, h₂ 0 (by simp)⟩

/-- Patching keeps the length. -/
theorem length_resolveHere (h : l.resolveHere p = .ok l') : l'.length = l.length := by
  obtain ⟨a, -, -, e⟩ := ActionList.resolve_eq_ok_iff.1 h
  rw [← ActionList.length_toList, e, List.length_set, ActionList.length_toList]

/-- A skip that waited has the count it was given. -/
theorem Action.skipCount?_withCount {a : Action} (pending : a.isPending = true) (count : Int32) :
    (a.withCount count).skipCount? = some (some count) := by
  cases a with
  | set _ _ _ _ => cases pending
  | skipIf _ _ => rfl
  | skip _ => rfl
  | abort => cases pending

/-- Giving a skip its count is read off the finished list. -/
theorem Covers.resolveHere (h : Covers F l') (resolved : l.resolveHere p = .ok l') :
    Covers F l ∧ Led F p l.length := by
  have len := length_resolveHere resolved
  obtain ⟨a, found, pending, e⟩ := ActionList.resolve_eq_ok_iff.1 resolved
  have hp : p < l.toList.length := by
    rw [ActionList.length_toList]
    exact lt_of_get? found
  -- only the skip at this position changes
  have here : l'.get? p = some (a.withCount (Action.skipDistance p l.length)) := by
    rw [ActionList.get?_eq_toList, e, List.getElem?_set_self hp]
  have there (i : Nat) (hi : i ≠ p) : l'.get? i = l.get? i := by
    rw [ActionList.get?_eq_toList, e, List.getElem?_set_ne (Ne.symm hi),
      ← ActionList.get?_eq_toList]
  obtain ⟨a', found', fills⟩ := h p _ here
  have filled := fills.settled (by
    rw [Action.isPending, Action.skipCount?_withCount pending]
    rfl)
  constructor
  · intro i b hb
    by_cases hi : i = p
    · subst hi
      rw [found] at hb
      cases hb
      exact ⟨a', found', Or.inr ⟨pending, _, filled⟩⟩
    · exact h i b ((there i hi).trans hb)
  · exact ⟨len ▸ h.length_le, a, pending, found'.trans (congrArg some filled)⟩

/-- So does patching many skips. -/
theorem length_resolveAll {positions : List Nat}
    (h : positions.foldlM ActionList.resolveHere l = .ok l') : l'.length = l.length := by
  induction positions generalizing l with
  | nil =>
    cases h
    rfl
  | cons p rest ih =>
    rw [List.foldlM_cons] at h
    cases hr : l.resolveHere p with
    | error e => simp [hr, bind, Except.bind] at h
    | ok l₁ =>
      rw [hr] at h
      exact (ih h).trans (length_resolveHere hr)

/-- Skips that were patched to here lead here in every finished list. -/
theorem Covers.resolveAll {positions : List Nat} (h : Covers F l')
    (resolved : positions.foldlM ActionList.resolveHere l = .ok l') :
    Covers F l ∧ ∀ p ∈ positions, Led F p l.length := by
  induction positions generalizing l with
  | nil =>
    cases resolved
    exact ⟨h, by simp⟩
  | cons p rest ih =>
    rw [List.foldlM_cons] at resolved
    cases hr : l.resolveHere p with
    | error e => simp [hr, bind, Except.bind] at resolved
    | ok l₁ =>
      rw [hr] at resolved
      obtain ⟨h₁, led⟩ := ih resolved
      obtain ⟨h₂, led'⟩ := h₁.resolveHere hr
      have := length_resolveHere hr
      refine ⟨h₂, ?_⟩
      intro p' hp'
      rcases List.mem_cons.1 hp' with rfl | hp'
      · exact led'
      · exact this ▸ led p' hp'

/-! ## Skips -/

/-- A distance below the limit of words leads back to its target. -/
theorem skipTarget?_skipDistance (short : F.length < 2 ^ 31) (hp : p ≤ F.length)
    (ht : target ≤ F.length) :
    Action.skipTarget? p (Action.skipDistance p target) F.length = some target := by
  rw [Action.skipTarget?_eq_some_iff (by omega) hp]
  refine ⟨?_, ht⟩
  rw [Action.skipDistance, Int32.toInt_ofInt_of_le (by omega) (by omega)]
  omega

/-- A skip that was led somewhere has the count for it. -/
theorem Led.skip (led : Led F p target) {a' : Action} (found : F.get? p = some a')
    (fills : (Action.skip none).Fills a') :
    F.get? p = some (.skip (some (Action.skipDistance p target))) := by
  obtain ⟨-, a, pending, found'⟩ := led
  rw [found] at found'
  cases found'
  rw [found]
  rcases fills with e | ⟨-, count, e⟩
  · have := Action.skipCount?_withCount pending (Action.skipDistance p target)
    rw [e] at this
    cases this
  · have := Action.skipCount?_withCount pending (Action.skipDistance p target)
    rw [e] at this
    cases this
    rw [e]
    rfl

/-- A skip that was led somewhere leads there. -/
theorem Led.skipAt (short : F.length < 2 ^ 31) (led : Led F p target) {a' : Action}
    (found : F.get? p = some a') (fills : (Action.skip none).Fills a') : SkipAt F p target := by
  have hp := lt_of_get? found
  exact ⟨Action.skipDistance p target, led.skip found fills,
    skipTarget?_skipDistance short (by omega) led.1⟩

/-- A guard that has led somewhere stands there as a guard. -/
theorem Led.guardAt (short : F.length < 2 ^ 31) (led : Led F p target) {exit : Element}
    {a' : Action} (found : F.get? p = some a') (fills : (Action.skipIf exit none).Fills a') :
    GuardAt F p exit target := by
  obtain ⟨inside, a, pending, found'⟩ := led
  have hp := lt_of_get? found
  rw [found] at found'
  cases found'
  refine ⟨Action.skipDistance p target, ?_, skipTarget?_skipDistance short (by omega) inside⟩
  rw [found]
  rcases fills with e | ⟨-, count, e⟩
  · have := Action.skipCount?_withCount pending (Action.skipDistance p target)
    rw [e] at this
    cases this
  · have := Action.skipCount?_withCount pending (Action.skipDistance p target)
    rw [e] at this
    cases this
    rw [e]
    rfl

/-- A skip that was pushed with its target known. -/
theorem Covers.pushSkipTo (short : F.length < 2 ^ 31) (h : Covers F (l.pushSkipTo target))
    (inside : target ≤ F.length) : Covers F l ∧ SkipAt F l.length target := by
  obtain ⟨h₁, a', found, fills⟩ := Covers.push h
  have := lt_of_get? found
  rw [fills.settled rfl] at found
  exact ⟨h₁, _, found, skipTarget?_skipDistance short (by omega) inside⟩

/-! ## Plans -/

/-- Where the returns of a body lead, and how many loops belong to its callers. -/
structure BodyTargets where
  ret : Nat
  floor : Nat

/-- Where everything leads that is open, innermost first. -/
structure Plan where
  loops : List LoopTargets
  bodies : List BodyTargets
  regions : List RegionTargets

namespace Plan

/-- What the code of the innermost body can reach. -/
def targets (P : Plan) : Targets :=
  match P.bodies with
  | body :: _ => ⟨P.loops.take (P.loops.length - body.floor), body.ret, P.regions⟩
  | [] => ⟨P.loops, 0, P.regions⟩

def Ok (P : Plan) : Prop := ∀ body ∈ P.bodies, body.floor ≤ P.loops.length

def inLoop (P : Plan) (loop : LoopTargets) : Plan := { P with loops := loop :: P.loops }

def inBody (P : Plan) (ret : Nat) : Plan :=
  { P with bodies := ⟨ret, P.loops.length⟩ :: P.bodies }

def inRegion (P : Plan) (ret : Nat) (region : RegionTargets) : Plan :=
  { P.inBody ret with regions := region :: P.regions }

/-- A plan stays sound inside of a loop. -/
theorem Ok.inLoop {P : Plan} (ok : P.Ok) (loop : LoopTargets) : (P.inLoop loop).Ok :=
  fun body h => Nat.le_succ_of_le (ok body h)

/-- So inside of a body. -/
theorem Ok.inBody {P : Plan} (ok : P.Ok) (ret : Nat) : (P.inBody ret).Ok := by
  intro body h
  rcases List.mem_cons.1 h with rfl | h
  · exact Nat.le_refl _
  · exact ok body h

/-- The targets inside of a loop are the plan's with the loop's. -/
theorem targets_inLoop {P : Plan} (ok : P.Ok) (loop : LoopTargets) :
    (P.inLoop loop).targets = P.targets.inLoop loop := by
  obtain ⟨loops, bodies, regions⟩ := P
  cases bodies with
  | nil => rfl
  | cons body rest =>
    have : body.floor ≤ loops.length := ok body (List.mem_cons_self ..)
    simp only [targets, inLoop, Targets.inLoop, List.length_cons]
    rw [show loops.length + 1 - body.floor = loops.length - body.floor + 1 by omega,
      List.take_succ_cons]

/-- So inside of a body. -/
theorem targets_inBody (P : Plan) (ret : Nat) : (P.inBody ret).targets = P.targets.inBody ret := by
  obtain ⟨loops, bodies, regions⟩ := P
  cases bodies <;> simp [targets, inBody, Targets.inBody]

/-- So inside of a region. -/
theorem targets_inRegion (P : Plan) (ret : Nat) (region : RegionTargets) :
    (P.inRegion ret region).targets = P.targets.inRegion ret region := by
  obtain ⟨loops, bodies, regions⟩ := P
  cases bodies <;> simp [targets, inRegion, inBody, Targets.inRegion]

end Plan

/-- The skips of a loop that wait were led to its ends. -/
structure LoopFits (F : ActionList) (target : LoopTargets) (frame : LoopFrame) : Prop where
  continues : ∀ p ∈ frame.continues, Led F p target.again
  breaks : ∀ p ∈ frame.breaks, Led F p target.leave

/-- The returns of a body that wait were led to its end. -/
structure BodyFits (F : ActionList) (target : BodyTargets) (frame : Frame) : Prop where
  returns : ∀ p ∈ frame.returns, Led F p target.ret
  floor : target.floor = frame.loopFloor

/-- The calls of a region that are written are the first of those in the finished list. -/
structure RegionFits (F : ActionList) (target : RegionTargets) (region : Region) : Prop where
  start : target.start = region.bodyStart
  inside : target.start ≤ F.length
  sites : region.callSites <+: target.sites

/-- A state on the way to a finished list. -/
structure Fits (F : ActionList) (P : Plan) (s : UnitState) : Prop where
  list : Covers F s.list
  loops : List.Forall₂ (LoopFits F) P.loops s.loops.frames
  bodies : List.Forall₂ (BodyFits F) P.bodies s.frames
  regions : List.Forall₂ (RegionFits F) P.regions s.regions

/-- The list got longer, and calls that were noted meanwhile go on inside it. -/
structure Advances (s s' : UnitState) : Prop where
  length : s.list.length ≤ s'.list.length
  sites : List.Forall₂ (fun a b : Region => ∀ x ∈ b.callSites, x ∈ a.callSites ∨
    x ≤ s'.list.length) s.regions s'.regions

/-- A piece of code stands between two states, in every list that fits the second. -/
structure Laid (s : UnitState) (c : Code) (s' : UnitState) : Prop where
  advances : Advances s s'
  fits : ∀ F P, F.length < 2 ^ 31 → P.Ok → Fits F P s' →
    Fits F P s ∧ Lays F P.targets s.list.length c s'.list.length

variable {s s' s'' : UnitState} {c d : Code} {actions : List Action}

namespace Advances

/-- Lowering that keeps the regions only advances. -/
theorem of_regions (length : s.list.length ≤ s'.list.length) (same : s'.regions = s.regions) :
    Advances s s' := by
  refine ⟨length, ?_⟩
  rw [same]
  exact List.forall₂_same.2 fun _ _ _ h => Or.inl h

/-- Only the lengths of the lists and the regions matter. -/
theorem congr {t t' : UnitState} (h : Advances s s') (length : t.list.length ≤ s.list.length)
    (regions : t.regions = s.regions) (length' : s'.list.length ≤ t'.list.length)
    (regions' : t'.regions = s'.regions) : Advances t t' := by
  refine ⟨Nat.le_trans length (Nat.le_trans h.length length'), ?_⟩
  rw [regions, regions']
  exact h.sites.imp fun _ _ g x hx => (g x hx).imp_right fun le => Nat.le_trans le length'

/-- States advance through a third. -/
theorem trans (h₁ : Advances s s') (h₂ : Advances s' s'') : Advances s s'' := by
  refine ⟨Nat.le_trans h₁.length h₂.length, ?_⟩
  have long := h₂.length
  have first := h₁.sites
  have second := h₂.sites
  generalize s.regions = a at first
  generalize s'.regions = b at first second
  generalize s''.regions = c at second
  induction first generalizing c with
  | nil => exact second
  | cons h _ ih =>
    cases second with
    | cons h' rest =>
      refine .cons (fun x hx => ?_) (ih _ rest)
      rcases h' x hx with hx | hx
      · rcases h x hx with hx | hx
        · exact Or.inl hx
        · exact Or.inr (Nat.le_trans hx long)
      · exact Or.inr hx

end Advances

/-- A plan that fits behind actions fits before them, and the actions stand in between. -/
theorem Fits.extends {P : Plan} (fits : Fits F P s') (h : Extends s actions s') :
    Fits F P s ∧ ActsAt F s.list.length actions ∧
      s'.list.length = s.list.length + actions.length := by
  obtain ⟨covers, here, len⟩ := fits.list.actsAt h.list h.settled
  exact ⟨⟨covers, h.loops ▸ fits.loops, h.frames ▸ fits.bodies, h.regions ▸ fits.regions⟩, here,
    len⟩

/-- A longer list is no shorter. -/
theorem length_le_of_append {actions : List Action} (e : l'.toList = l.toList ++ actions) :
    l.length ≤ l'.length := by
  rw [← ActionList.length_toList, ← ActionList.length_toList l', e, List.length_append]
  exact Nat.le_add_right _ _

namespace Laid

/-- Actions that were written lay themselves out. -/
theorem acts (h : Extends s actions s') : Laid s (.acts actions) s' := by
  refine ⟨.of_regions (length_le_of_append h.list) h.regions, fun F P _ _ fits => ?_⟩
  obtain ⟨fits, here, len⟩ := fits.extends h
  exact ⟨fits, here, len⟩

/-- Without actions there is no code to lay out. -/
theorem nothing (s : UnitState) : Laid s (.acts []) s := Laid.acts (.refl s)

/-- Pieces of code are laid out in turn. -/
theorem seq (h₁ : Laid s c s') (h₂ : Laid s' d s'') : Laid s (.seq c d) s'' := by
  refine ⟨h₁.advances.trans h₂.advances, fun F P short ok fits => ?_⟩
  obtain ⟨fits, second⟩ := h₂.fits F P short ok fits
  obtain ⟨fits, first⟩ := h₁.fits F P short ok fits
  exact ⟨fits, _, first, second⟩

/-- Actions that are written while scopes are opened or closed. -/
theorem extend (settled : Settled actions) (list : s'.list = s.list.extend actions)
    (loops : s'.loops = s.loops) (frames : s'.frames = s.frames)
    (regions : s'.regions = s.regions) : Laid s (.acts actions) s' := by
  have e : s'.list.toList = s.list.toList ++ actions := by rw [list, ActionList.toList_extend]
  refine ⟨.of_regions (length_le_of_append e) regions, fun F P _ _ fits => ?_⟩
  obtain ⟨covers, here, len⟩ := fits.list.actsAt e settled
  exact ⟨⟨covers, loops ▸ fits.loops, frames ▸ fits.bodies, regions ▸ fits.regions⟩, here, len⟩

/-- Closing a scope lays out its pops. -/
theorem closes {pops : List Action} (h : Closes s pops s') : Laid s (.acts pops) s' := by
  obtain ⟨scope, rest, σ, -, rfl, -, rfl⟩ := h.closed
  exact extend (.flatMap (fun v => Lower.settled_pop v none) _) rfl rfl rfl rfl

/-- What is compared of two states does not have the scopes, the session or the position. -/
theorem congr {t t' : UnitState} (h : Laid s c s') (list : t.list = s.list)
    (loops : t.loops = s.loops) (frames : t.frames = s.frames) (regions : t.regions = s.regions)
    (list' : t'.list = s'.list) (loops' : t'.loops = s'.loops) (frames' : t'.frames = s'.frames)
    (regions' : t'.regions = s'.regions) : Laid t c t' := by
  refine ⟨⟨?_, ?_⟩, fun F P short ok fits => ?_⟩
  · rw [list, list']
    exact h.advances.length
  · rw [regions, regions', list']
    exact h.advances.sites
  · obtain ⟨fits, lays⟩ := h.fits F P short ok
      ⟨list' ▸ fits.list, loops' ▸ fits.loops, frames' ▸ fits.bodies, regions' ▸ fits.regions⟩
    rw [list, list']
    exact ⟨⟨list ▸ fits.list, loops ▸ fits.loops, frames ▸ fits.bodies, regions ▸ fits.regions⟩,
      lays⟩

end Laid

end SkipCode
