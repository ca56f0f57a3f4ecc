import SkipCode.Proofs.Placement

/-!
# Blocks in a finished list

How bodies, loops, conditionals and regions come to stand once all that waits in them is led to its
end. What a block leaves open while it is written, the skip of its guard or the skips to the end of
a chain, is no part of a state; so the parts of such a block are laid under the condition that these
skips were led where they have to (`Guarded`, `Joined`).
-/

namespace SkipCode

open Lower (Closes Emits Extends Settled)

variable {F l l' : ActionList} {P : Plan} {s s' t u : UnitState} {c d : Code}
  {actions : List Action} {g : Nat} {exit : Element}

/-- A plan that fits knows as many loops as are open. -/
theorem Fits.length_loops (fits : Fits F P s) : P.loops.length = s.loops.depth :=
  fits.loops.length_eq

/-- Lowering leaves as many loops open as it found. -/
theorem UnitState.Steady.depth_eq (h : s.Steady t) : t.loops.depth = s.loops.depth :=
  h.loops.length_eq.symm

/-! ## Bodies -/

/-- A body that was lowered in a frame of its own is a frame of code, once its returns are patched
to what follows. -/
theorem Laid.frame {frame frame' : Frame} {rest : List Frame} {list : ActionList}
    (laid : Laid (s.entered frame) c t) (steady : (s.entered frame).Steady t)
    (floor : frame.loopFloor = s.loops.depth) (found : t.frames = frame' :: rest)
    (resolved : frame'.returns.foldlM ActionList.resolveHere t.list = .ok list) :
    Laid s (.frame c) (t.left list) := by
  have len := length_resolveAll resolved
  have same : frame'.loopFloor = frame.loopFloor := by
    have grows := steady.frames
    rw [found] at grows
    cases grows with
    | cons h _ => rw [h]
  refine ⟨laid.advances.congr (Nat.le_refl _) rfl (Nat.le_of_eq len.symm) rfl,
    fun F P short ok fits => ?_⟩
  obtain ⟨covers, led⟩ := Covers.resolveAll fits.list resolved
  have bodies := fits.bodies
  simp only [UnitState.left, found, List.tail_cons] at bodies
  have deep : P.loops.length = frame'.loopFloor := by
    rw [same, floor, fits.length_loops]
    exact steady.depth_eq
  have fits' : Fits F (P.inBody t.list.length) t :=
    ⟨covers, fits.loops, found ▸ .cons ⟨led, deep⟩ bodies, fits.regions⟩
  obtain ⟨fits', lays⟩ := laid.fits F _ short (ok.inBody _) fits'
  refine ⟨⟨fits'.list, fits'.loops, (List.forall₂_cons.1 fits'.bodies).2, fits'.regions⟩, ?_⟩
  rw [Plan.targets_inBody] at lays
  change Lays F P.targets s.list.length (.frame c) list.length
  rw [len]
  exact lays

/-! ## Guards -/

/-- A pass of a loop, in every list in which the skip at `g` was led out of the loop. -/
structure Guarded (g : Nat) (s : UnitState) (c : Code) (s' : UnitState) : Prop where
  advances : Advances s s'
  fits : ∀ (F : ActionList) (P : Plan) (loop : LoopTargets), F.length < 2 ^ 31 → P.Ok →
    Led F g loop.ended →
    Fits F (P.inLoop loop) s' →
    Fits F (P.inLoop loop) s ∧ Lays F (P.targets.inLoop loop) s.list.length c s'.list.length

/-- A skip is written at the end. -/
theorem Advances.pushSkip (s : UnitState) (condition : Option Element) :
    Advances s (s.withList (s.list.pushSkip condition)) := by
  refine .of_regions ?_ rfl
  rw [UnitState.withList, ActionList.length_pushSkip]
  exact Nat.le_succ _

/-- The skip of a guard, read off the finished list. -/
theorem Fits.guard {target : Nat} (short : F.length < 2 ^ 31)
    (led : Led F s.list.length target)
    (fits : Fits F P (s.withList (s.list.pushSkip (some exit)))) :
    Fits F P s ∧ GuardAt F s.list.length exit target := by
  obtain ⟨covers, a', found, fills⟩ := Covers.push fits.list
  exact ⟨⟨covers, fits.loops, fits.bodies, fits.regions⟩, led.guardAt short found fills⟩

/-- A skip that has led somewhere stands where it was written. -/
theorem Fits.skip {target : Nat} (short : F.length < 2 ^ 31)
    (led : Led F s.list.length target)
    (fits : Fits F P (s.withList (s.list.pushSkip none))) :
    Fits F P s ∧ SkipAt F s.list.length target := by
  obtain ⟨covers, a', found, fills⟩ := Covers.push fits.list
  exact ⟨⟨covers, fits.loops, fits.bodies, fits.regions⟩, led.skipAt short found fills⟩

/-- A skip is one action. -/
theorem length_pushSkip (s : UnitState) (condition : Option Element) :
    (s.withList (s.list.pushSkip condition)).list.length = s.list.length + 1 := by
  rw [UnitState.withList, ActionList.length_pushSkip]

namespace Guarded

/-- A guard that was written is one whose skip waits at its own position. -/
theorem test (s : UnitState) (exit : Element) :
    Guarded s.list.length s (.test exit) (s.withList (s.list.pushSkip (some exit))) := by
  refine ⟨.pushSkip s _, fun F P loop short _ led fits => ?_⟩
  obtain ⟨fits, guard⟩ := fits.guard short led
  exact ⟨fits, loop.ended, rfl, guard, length_pushSkip s _⟩

/-- Code laid before a guard leaves the guard waiting. -/
theorem before (h₁ : Laid s c t) (h₂ : Guarded g t d u) : Guarded g s (.seq c d) u := by
  refine ⟨h₁.advances.trans h₂.advances, fun F P loop short ok led fits => ?_⟩
  obtain ⟨fits, second⟩ := h₂.fits F P loop short ok led fits
  obtain ⟨fits, first⟩ := h₁.fits F _ short (ok.inLoop loop) fits
  rw [Plan.targets_inLoop ok] at first
  exact ⟨fits, _, first, second⟩

/-- So does code laid behind it. -/
theorem after (h₁ : Guarded g s c t) (h₂ : Laid t d u) : Guarded g s (.seq c d) u := by
  refine ⟨h₁.advances.trans h₂.advances, fun F P loop short ok led fits => ?_⟩
  obtain ⟨fits, second⟩ := h₂.fits F _ short (ok.inLoop loop) fits
  obtain ⟨fits, first⟩ := h₁.fits F P loop short ok led fits
  rw [Plan.targets_inLoop ok] at second
  exact ⟨fits, _, first, second⟩

end Guarded

/-! ## Loops -/

/-- How a loop is closed: its rounds lead to the step, the step leads back, the guard leads to the
tail, and what leaves the loop leads behind it. -/
structure LoopCloses (g start : Nat) (tail : List Action) (passed stepped : ActionList)
    (frame : LoopFrame) (round done : ActionList) : Prop where
  rounds : frame.continues.foldlM ActionList.resolveHere passed = .ok round
  ended : ∃ l₁ l₂, (stepped.pushSkipTo start).resolveHere g = .ok l₁ ∧ l₂ = l₁.extend tail ∧
    frame.breaks.foldlM ActionList.resolveHere l₂ = .ok done

/-- Two passes over a loop's body and the patching of its own frame lay a loop out. -/
theorem Laid.loop {pass step : Code} {tail : List Action} {frame : LoopFrame}
    {rest : List LoopFrame} {list round done : ActionList}
    (first : Guarded g (s.looping list) pass t) (found : t.loops.frames = frame :: rest)
    (second : Laid (t.looped round) step u) (settled : Settled tail)
    (closes : LoopCloses g list.length tail t.list u.list frame round done) :
    Laid (s.withList list) (.loop pass step tail) (u.withList done) := by
  obtain ⟨l₁, l₂, ended, rfl, leaves⟩ := closes.ended
  have lenRound := length_resolveAll closes.rounds
  have lenDone := length_resolveAll leaves
  have lenOver := length_resolveHere ended
  have lenTail : (l₁.extend tail).length = l₁.length + tail.length := ActionList.length_extend ..
  have lenBack : (u.list.pushSkipTo list.length).length = u.list.length + 1 :=
    ActionList.length_pushSkipTo ..
  refine ⟨?_, fun F P short ok fits => ?_⟩
  · have a₁ : Advances (s.withList list) (t.looped round) :=
      first.advances.congr (Nat.le_refl _) rfl (Nat.le_of_eq lenRound.symm) rfl
    exact (a₁.trans second.advances).congr (Nat.le_refl _) rfl
      (by simp only [UnitState.withList]; omega) rfl
  · -- from the end of the loop back to its start: the breaks, the tail, the exit of the guard
    obtain ⟨covers, left⟩ := Covers.resolveAll fits.list leaves
    obtain ⟨covers, tailAt, -⟩ := covers.actsAt (ActionList.toList_extend _ _) settled
    obtain ⟨covers, overLed⟩ := covers.resolveHere ended
    have long : list.length ≤ t.list.length := first.advances.length
    have long' : t.list.length ≤ u.list.length := by
      have := second.advances.length
      simp only [UnitState.looped] at this
      omega
    have inside : list.length ≤ F.length := by
      have := covers.length_le
      omega
    -- the skip back, and the step before it, to which those that go on early lead
    obtain ⟨covers, back⟩ := covers.pushSkipTo short inside
    obtain ⟨fits, stepAt⟩ := second.fits F P short ok
      ⟨covers, fits.loops, fits.bodies, fits.regions⟩
    obtain ⟨covers, again⟩ := Covers.resolveAll fits.list closes.rounds
    have loops := fits.loops
    simp only [UnitState.looped, found, List.tail_cons] at loops
    have inner : Fits F (P.inLoop ⟨u.list.length + 1, t.list.length, done.length⟩) t :=
      ⟨covers, found ▸ .cons ⟨again, lenDone ▸ left⟩ loops, fits.bodies, fits.regions⟩
    obtain ⟨outer, passAt⟩ := first.fits F P _ short ok (lenBack ▸ overLed) inner
    refine ⟨⟨outer.list, (List.forall₂_cons.1 outer.loops).2, outer.bodies, outer.regions⟩,
      t.list.length, u.list.length, passAt, ?_, back, ?_, ?_⟩
    · rw [← lenRound]
      exact stepAt
    · rw [← lenBack, ← lenOver]
      exact tailAt
    · change done.length = _
      omega

/-! ## Conditionals -/

/-- The rest of a conditional, in every list in which the skips at `ends` were led behind it. -/
structure Joined (ends : List Nat) (s : UnitState) (c : Code) (s' : UnitState) : Prop where
  advances : Advances s s'
  fits : ∀ (F : ActionList) (P : Plan), F.length < 2 ^ 31 → P.Ok →
    (∀ p ∈ ends, Led F p s'.list.length) → Fits F P s' →
    Fits F P s ∧ Lays F P.targets s.list.length c s'.list.length

/-- Code without exits joins any ends. -/
theorem Laid.joined (h : Laid s c s') (ends : List Nat) : Joined ends s c s' :=
  ⟨h.advances, fun F P short ok _ fits => h.fits F P short ok fits⟩

/-- Code laid before code that joins its ends joins them too. -/
theorem Joined.before {ends : List Nat} (h₁ : Laid s c t) (h₂ : Joined ends t d u) :
    Joined ends s (.seq c d) u := by
  refine ⟨h₁.advances.trans h₂.advances, fun F P short ok led fits => ?_⟩
  obtain ⟨fits, second⟩ := h₂.fits F P short ok led fits
  obtain ⟨fits, first⟩ := h₁.fits F P short ok fits
  exact ⟨fits, _, first, second⟩

/-- Patching the ends to here makes it ordinary code. -/
theorem Joined.close {ends : List Nat} {list : ActionList} (h : Joined ends s c t)
    (resolved : ends.foldlM ActionList.resolveHere t.list = .ok list) :
    Laid s c (t.withList list) := by
  have len := length_resolveAll resolved
  refine ⟨h.advances.congr (Nat.le_refl _) rfl (Nat.le_of_eq len.symm) rfl,
    fun F P short ok fits => ?_⟩
  obtain ⟨covers, led⟩ := Covers.resolveAll fits.list resolved
  have := h.fits F P short ok led ⟨covers, fits.loops, fits.bodies, fits.regions⟩
  rw [UnitState.withList, len]
  exact this

/-- An empty piece in front adds nothing. -/
theorem Laid.of_nothing (h : Laid s (.seq (.acts []) c) s') : Laid s c s' := by
  refine ⟨h.advances, fun F P short ok fits => ?_⟩
  obtain ⟨fits, _, ⟨-, rfl⟩, lays⟩ := h.fits F P short ok fits
  exact ⟨fits, lays⟩

/-- Neither does one behind. -/
theorem Laid.toNothing (h : Laid s (.seq c (.acts [])) s') : Laid s c s' := by
  refine ⟨h.advances, fun F P short ok fits => ?_⟩
  obtain ⟨fits, _, lays, -, e⟩ := h.fits F P short ok fits
  rw [e]
  exact ⟨fits, lays⟩

/-- Two runs of actions are one. -/
theorem Laid.merge {first second : List Action}
    (h : Laid s (.seq (.acts first) (.acts second)) s') : Laid s (.acts (first ++ second)) s' := by
  refine ⟨h.advances, fun F P short ok fits => ?_⟩
  obtain ⟨fits, _, ⟨firstAt, rfl⟩, secondAt, len⟩ := h.fits F P short ok fits
  exact ⟨fits, ActsAt.append.2 ⟨firstAt, secondAt⟩, by rw [len, List.length_append]; omega⟩

/-- An arm is a guard over a body, patched to what follows the body. -/
theorem Laid.arm {list : ActionList}
    (body : Laid (s.withList (s.list.pushSkip (some exit))) c t)
    (resolved : t.list.resolveHere s.list.length = .ok list) :
    Laid s (.arm exit c) (t.withList list) := by
  have len := length_resolveHere resolved
  refine ⟨((Advances.pushSkip s _).trans body.advances).congr (Nat.le_refl _) rfl
    (Nat.le_of_eq len.symm) rfl, fun F P short ok fits => ?_⟩
  obtain ⟨covers, led⟩ := Covers.resolveHere fits.list resolved
  obtain ⟨fits, bodyAt⟩ := body.fits F P short ok
    ⟨covers, fits.loops, fits.bodies, fits.regions⟩
  obtain ⟨fits, guard⟩ := fits.guard short led
  rw [length_pushSkip] at bodyAt
  rw [UnitState.withList, len]
  exact ⟨fits, guard, bodyAt⟩

/-- An arm with others behind it leaves over the end of them all. -/
theorem Joined.choice {ends : List Nat} {list : ActionList}
    (body : Laid (s.withList (s.list.pushSkip (some exit))) c t)
    (resolved : (t.list.pushSkip none).resolveHere s.list.length = .ok list)
    (other : Joined ends (t.withList list) d u) :
    Joined (t.list.length :: ends) s (.choice exit c d) u := by
  have len : list.length = t.list.length + 1 := by
    rw [length_resolveHere resolved, ActionList.length_pushSkip]
  have longer : Advances t (t.withList list) :=
    .of_regions (by simp only [UnitState.withList]; omega) rfl
  -- the finished list is known at the end, so the parts are placed from the back
  refine ⟨((Advances.pushSkip s _).trans body.advances).trans (longer.trans other.advances),
    fun F P short ok led fits => ?_⟩
  obtain ⟨fits, otherAt⟩ := other.fits F P short ok
    (fun p hp => led p (List.mem_cons_of_mem _ hp)) fits
  obtain ⟨covers, guardLed⟩ := Covers.resolveHere fits.list resolved
  have skipped : Fits F P (t.withList (t.list.pushSkip none)) :=
    ⟨covers, fits.loops, fits.bodies, fits.regions⟩
  obtain ⟨fits, skip⟩ := skipped.skip short (led _ (List.mem_cons_self ..))
  obtain ⟨fits, bodyAt⟩ := body.fits F P short ok fits
  obtain ⟨fits, guard⟩ := fits.guard short guardLed
  rw [length_pushSkip] at bodyAt
  rw [ActionList.length_pushSkip] at guard
  simp only [UnitState.withList, len] at otherAt
  exact ⟨fits, _, guard, bodyAt, skip, otherAt⟩

/-! ## Exits -/

/-- What relates two lists item by item relates them after one item of the second was made weaker.
-/
theorem forall₂_of_set {α β : Type} {R : α → β → Prop} {as : List α} {bs : List β} {k : Nat}
    {b b' : β} (h : List.Forall₂ R as (bs.set k b')) (found : bs[k]? = some b)
    (weaken : ∀ a, R a b' → R a b) :
    List.Forall₂ R as bs ∧ ∃ a, as[k]? = some a ∧ R a b' := by
  induction bs generalizing as k with
  | nil => cases found
  | cons x rest ih =>
    cases k with
    | zero =>
      cases found
      cases h with
      | cons h t => exact ⟨.cons (weaken _ h) t, _, rfl, h⟩
    | succ k =>
      cases h with
      | cons h t =>
        obtain ⟨t, a, ha, hr⟩ := ih t found
        exact ⟨.cons h t, a, ha, hr⟩

/-- A loop inside of the frame is the same one for the frame's targets. -/
theorem Plan.targets_loop {depth : Nat} {frame : Frame} {rest : List Frame}
    (fits : Fits F P s) (found : s.frames = frame :: rest)
    (inside : frame.loopFloor + depth < s.loops.frames.length) :
    P.targets.loops[depth]? = P.loops[depth]? := by
  have deep := fits.loops.length_eq
  have bodies := fits.bodies
  rw [found] at bodies
  obtain ⟨loops, bodiesP, regions⟩ := P
  cases bodies with
  | cons h _ =>
    have := h.floor
    simp only [Plan.targets]
    rw [List.getElem?_take_of_lt]
    simp only at deep
    omega

/-- A skip that waits in the frame of a loop was led to a place of that loop. -/
theorem Fits.noted {k : Nat} {frame : Frame} {rest : List Frame} {target noted : LoopFrame}
    (fits : Fits F P { s with list := s.list.pushSkip none, loops := ⟨s.loops.frames.set k noted⟩ })
    (short : F.length < 2 ^ 31) (found : s.frames = frame :: rest)
    (inside : frame.loopFloor + k < s.loops.frames.length) (here : s.loops.frames[k]? = some target)
    (before : ∀ loop, LoopFits F loop noted → LoopFits F loop target) (place : LoopTargets → Nat)
    (waits : ∀ loop, LoopFits F loop noted → Led F s.list.length (place loop)) :
    Fits F P s ∧ ∃ loop, P.targets.loops[k]? = some loop ∧ SkipAt F s.list.length (place loop) := by
  obtain ⟨loops, loop, hloop, led⟩ := forall₂_of_set fits.loops here before
  have skipped : Fits F P (s.withList (s.list.pushSkip none)) :=
    ⟨fits.list, loops, fits.bodies, fits.regions⟩
  obtain ⟨fits, skip⟩ := skipped.skip short (waits loop led)
  exact ⟨fits, loop, (Plan.targets_loop fits found inside).trans hloop, skip⟩

/-- A break is a skip that waits with the loop it leaves. -/
theorem Laid.leave {depth : UInt32} {frame : Frame} {frames : List Frame} {target : LoopFrame}
    {loops : LoopStack} (found : s.frames = frame :: frames)
    (reached : s.loops.frame depth frame.loopFloor "break" = .ok target)
    (added : s.loops.addBreak depth frame.loopFloor s.list.length = .ok loops) :
    Laid s (.leave depth.toNat) { s with list := s.list.pushSkip none, loops } := by
  obtain ⟨inside, here⟩ := LoopStack.frame_ok reached
  simp only [LoopStack.addBreak, reached, Bind.bind, Except.bind, Pure.pure, Except.pure,
    Except.ok.injEq] at added
  subst added
  refine ⟨(Advances.pushSkip s none).congr (Nat.le_refl _) rfl (Nat.le_refl _) rfl,
    fun F P short ok fits => ?_⟩
  obtain ⟨fits, loop, hloop, skip⟩ := fits.noted short found inside here
    (fun _ h => ⟨h.continues, fun p hp => h.breaks p (List.mem_append_left _ hp)⟩) LoopTargets.leave
    fun _ h => h.breaks _ (by simp)
  refine ⟨fits, loop.leave, ?_, skip, length_pushSkip s none⟩
  rw [Targets.exit, hloop]
  rfl

/-- A continue is a skip that waits with the loop it goes round. -/
theorem Laid.again {depth : UInt32} {frame : Frame} {frames : List Frame} {target : LoopFrame}
    {loops : LoopStack} (found : s.frames = frame :: frames)
    (reached : s.loops.frame depth frame.loopFloor "continue" = .ok target)
    (added : s.loops.addContinue depth frame.loopFloor s.list.length = .ok loops) :
    Laid s (.again depth.toNat) { s with list := s.list.pushSkip none, loops } := by
  obtain ⟨inside, here⟩ := LoopStack.frame_ok reached
  simp only [LoopStack.addContinue, reached, Bind.bind, Except.bind, Pure.pure, Except.pure,
    Except.ok.injEq] at added
  subst added
  refine ⟨(Advances.pushSkip s none).congr (Nat.le_refl _) rfl (Nat.le_refl _) rfl,
    fun F P short ok fits => ?_⟩
  obtain ⟨fits, loop, hloop, skip⟩ := fits.noted short found inside here
    (fun _ h => ⟨fun p hp => h.continues p (List.mem_append_left _ hp), h.breaks⟩) LoopTargets.again
    fun _ h => h.continues _ (by simp)
  refine ⟨fits, loop.again, ?_, skip, length_pushSkip s none⟩
  rw [Targets.exit, hloop]
  rfl

/-- A return is a skip that waits with the frame. -/
theorem Laid.ret {frame : Frame} {frames : List Frame} (found : s.frames = frame :: frames) :
    Laid s .ret
      { s with
        list := s.list.pushSkip none
        frames := { frame with returns := frame.returns ++ [s.list.length] } :: frames } := by
  refine ⟨(Advances.pushSkip s none).congr (Nat.le_refl _) rfl (Nat.le_refl _) rfl,
    fun F P short ok fits => ?_⟩
  have bodies := fits.bodies
  obtain ⟨loops, bodiesP, regions⟩ := P
  cases bodies with
  | cons h rest =>
    next body _ =>
    have skipped : Fits F ⟨loops, body :: _, regions⟩ (s.withList (s.list.pushSkip none)) :=
      ⟨fits.list, fits.loops, found ▸ .cons
        ⟨fun p hp => h.returns p (List.mem_append_left _ hp), h.floor⟩ rest, fits.regions⟩
    obtain ⟨fits, skip⟩ := skipped.skip short (h.returns _ (by simp))
    exact ⟨fits, skip, length_pushSkip s none⟩

/-! ## Regions -/

/-- The list behind the dispatch of a region. -/
def dispatchOn (address : Element) : ActionList → Nat → List Nat → ActionList
  | list, _, [] => list
  | list, number, site :: rest =>
    dispatchOn address
      ((list.extend [.skipIf (.compare address .notEqual (.ofNat number))
        (some 1)]).pushSkipTo site)
      (number + 1) rest

/-- A dispatch takes two actions for each place it may go back to. -/
theorem length_dispatchOn (address : Element) (list : ActionList) (number : Nat)
    (sites : List Nat) :
    (dispatchOn address list number sites).length = list.length + 2 * sites.length := by
  induction sites generalizing list number with
  | nil => rfl
  | cons site rest ih =>
    rw [dispatchOn, ih, ActionList.length_pushSkipTo, ActionList.length_extend]
    simp only [List.length_cons, List.length_nil]
    omega

/-- A dispatch in a finished list compares the address with each number and goes to its site. -/
theorem Covers.dispatch {address : Element} {list : ActionList} {number : Nat} {sites : List Nat}
    (short : F.length < 2 ^ 31) (inside : ∀ site ∈ sites, site ≤ F.length)
    (covers : Covers F (dispatchOn address list number sites)) :
    Covers F list ∧ DispatchAt F address list.length number sites
      (dispatchOn address list number sites).length := by
  induction sites generalizing list number with
  | nil => exact ⟨covers, rfl⟩
  | cons site rest ih =>
    rw [dispatchOn] at covers ⊢
    have len : ((list.extend
        [.skipIf (.compare address .notEqual (.ofNat number)) (some 1)]).pushSkipTo site).length =
          list.length + 2 := by
      rw [ActionList.length_pushSkipTo, ActionList.length_extend]
      simp
    -- the sites behind this one come last in the list, so they are taken off first
    obtain ⟨covers, others⟩ := ih (fun s hs => inside s (List.mem_cons_of_mem _ hs)) covers
    rw [len] at others
    have whole := covers.length_le
    obtain ⟨covers, skip⟩ := covers.pushSkipTo short (inside _ (List.mem_cons_self ..))
    obtain ⟨covers, guard, len'⟩ := covers.actsAt (ActionList.toList_extend _ _) (by
      intro a ha
      rw [List.mem_singleton.1 ha]
      rfl)
    rw [len'] at skip
    refine ⟨covers, ⟨1, guard.head, ?_⟩, skip, others⟩
    rw [Action.skipTarget?_eq_some_iff (by omega) (by omega)]
    refine ⟨?_, by omega⟩
    rw [show (1 : Int32).toInt = 1 from rfl]
    omega

/-- A recursive body that is closed is a region: entry, body, dispatch. -/
theorem Laid.region {entry finish : List Action} (address : Element) {s₃ s₄ s₅ : UnitState}
    {region closing : Region} {regions : List Region} {frame frame' : Frame} {frames : List Frame}
    {list : ActionList} (entered : Laid s (.acts entry) s₃)
    (laid : Laid ((s₃.entered frame).within region) c s₄)
    (steady : ((s₃.entered frame).within region).Steady s₄)
    (floor : frame.loopFloor = s₃.loops.depth) (start : region.bodyStart = s₃.list.length)
    (fresh : region.callSites = []) (found : s₄.frames = frame' :: frames)
    (opened : s₄.regions = closing :: regions)
    (resolved : frame'.returns.foldlM ActionList.resolveHere s₄.list = .ok list)
    (finished : Laid { s₄.left list with regions } (.acts finish) s₅) :
    Laid s (.region entry c finish address)
      (s₅.withList (dispatchOn address s₅.list 0 closing.callSites)) := by
  have len := length_resolveAll resolved
  -- the frame and the region at the end are those of the start, with more returns and calls noted
  have same : frame'.loopFloor = frame.loopFloor := by
    have grows := steady.frames
    rw [found] at grows
    cases grows with
    | cons h _ => rw [h]
  have sameRegion : closing.bodyStart = region.bodyStart := by
    have grows := steady.regions
    rw [opened] at grows
    cases grows with
    | cons h _ => rw [h.same]
  -- all calls that are noted were met in the body, so they go on before its end
  have advances := laid.advances.sites
  rw [opened] at advances
  have sites : ∀ x ∈ closing.callSites, x ≤ s₄.list.length := by
    cases advances with
    | cons h _ =>
      intro x hx
      rcases h x hx with hx | hx
      · rw [fresh] at hx
        cases hx
      · exact hx
  have whole : s₃.list.length ≤ s₄.list.length := laid.advances.length
  have inner : Advances s₃ { s₄.left list with regions } := by
    refine ⟨?_, ?_⟩
    · change s₃.list.length ≤ list.length
      omega
    · cases advances with
      | cons _ h =>
        refine h.imp fun _ _ g x hx => ?_
        rw [UnitState.left, len]
        exact g x hx
  have dispatched := length_dispatchOn address s₅.list 0 closing.callSites
  refine ⟨(entered.advances.trans (inner.trans finished.advances)).congr (Nat.le_refl _) rfl
    (by simp only [UnitState.withList]; omega) rfl, fun F P short ok fits => ?_⟩
  have long : s₄.list.length ≤ F.length := by
    have h₁ := fits.list.length_le
    have h₂ := finished.advances.length
    simp only [UnitState.withList, UnitState.left] at h₁ h₂
    omega
  -- from the end of the region back: the dispatch, what is done once, the body, the entry
  obtain ⟨covers, dispatchAt⟩ := Covers.dispatch short
    (fun x hx => Nat.le_trans (sites x hx) long) fits.list
  obtain ⟨fits, finishAt, ended⟩ := finished.fits F P short ok
    ⟨covers, fits.loops, fits.bodies, fits.regions⟩
  obtain ⟨covers, led⟩ := Covers.resolveAll fits.list resolved
  have bodies := fits.bodies
  simp only [UnitState.left, found, List.tail_cons] at bodies
  have deep : P.loops.length = frame'.loopFloor := by
    rw [same, floor, fits.length_loops]
    exact steady.depth_eq
  have inside : Fits F (P.inRegion s₄.list.length ⟨s₃.list.length, closing.callSites⟩) s₄ :=
    ⟨covers, fits.loops, found ▸ .cons ⟨led, deep⟩ bodies, opened ▸ .cons
      ⟨(sameRegion.trans start).symm, Nat.le_trans whole long, List.prefix_refl _⟩ fits.regions⟩
  have ok' : (P.inRegion s₄.list.length ⟨s₃.list.length, closing.callSites⟩).Ok := ok.inBody _
  obtain ⟨outer, bodyAt⟩ := laid.fits F _ short ok' inside
  rw [Plan.targets_inRegion] at bodyAt
  obtain ⟨fits, entryAt, begun⟩ := entered.fits F P short ok
    ⟨outer.list, outer.loops, (List.forall₂_cons.1 outer.bodies).2,
      (List.forall₂_cons.1 outer.regions).2⟩
  have begun' : s₃.list.length = s.list.length + entry.length := begun
  have ended' : s₅.list.length = s₄.list.length + finish.length := by
    rw [← len]
    exact ended
  change ActsAt F list.length finish at finishAt
  refine ⟨fits, closing.callSites, s₄.list.length, entryAt, ?_, len ▸ finishAt, ?_⟩
  · rw [← begun']
    exact bodyAt
  · rw [← ended']
    exact dispatchAt

/-- A call of an open body is an entry and a skip back to the beginning of the body. -/
theorem Laid.reenter {index : Nat} {region : Region} {entry : List Action}
    (found : s.regions[index]? = some region) (settled : Settled entry) :
    Laid s (.reenter index region.callSites.length entry)
      ((Lower.noteCall s index (s.list.length + entry.length + 1)).withList
        ((s.list.extend entry).pushSkipTo region.bodyStart)) := by
  have lenEntry : (s.list.extend entry).length = s.list.length + entry.length :=
    ActionList.length_extend ..
  have len : ((s.list.extend entry).pushSkipTo region.bodyStart).length =
      s.list.length + entry.length + 1 := by
    rw [ActionList.length_pushSkipTo, lenEntry]
  refine ⟨⟨?_, ?_⟩, fun F P short ok fits => ?_⟩
  · simp only [UnitState.withList]
    omega
  · rw [List.forall₂_iff_get]
    refine ⟨by simp [Lower.noteCall, UnitState.withList], fun i h₁ h₂ x hx => ?_⟩
    simp only [Lower.noteCall, UnitState.withList, List.get_eq_getElem, List.getElem_modify] at hx ⊢
    split at hx
    · rcases List.mem_append.1 hx with hx | hx
      · exact Or.inl hx
      · rw [List.mem_singleton.1 hx, len]
        exact Or.inr (Nat.le_refl _)
    · exact Or.inl hx
  · have regions := fits.regions
    simp only [UnitState.withList, Lower.noteCall] at regions
    have same : s.regions.modify index (fun region =>
        { region with callSites := region.callSites ++ [s.list.length + entry.length + 1] }) =
          s.regions.set index
            { region with
              callSites := region.callSites ++ [s.list.length + entry.length + 1] } := by
      rw [List.modify_eq_set_getElem?, found]
      rfl
    rw [same] at regions
    -- the region keeps its start, and the new call is the last of those it knows
    obtain ⟨regions, target, htarget, site⟩ := forall₂_of_set regions found fun a h =>
      ⟨h.start, h.inside, (List.prefix_append _ _).trans h.sites⟩
    obtain ⟨covers, skip⟩ := Covers.pushSkipTo short fits.list (site.start ▸ site.inside)
    obtain ⟨covers, entryAt, -⟩ := covers.actsAt (ActionList.toList_extend _ _) settled
    rw [lenEntry] at skip
    have number : target.sites[region.callSites.length]? =
        some (s.list.length + entry.length + 1) := by
      obtain ⟨more, e⟩ := site.sites
      rw [← e]
      simp
    have T : P.targets.regions = P.regions := by
      rw [Plan.targets]
      split <;> rfl
    refine ⟨⟨covers, fits.loops, fits.bodies, regions⟩, target, by rw [T, htarget], ?_, entryAt, ?_,
      len⟩
    · rw [UnitState.withList, len]
      exact number
    · rw [site.start]
      exact skip

/-! ## Handles -/

/-- A guard that counts its skips leads as far as it counts. -/
theorem GuardAt.of_count {p n : Nat} {count : Int32} (short : F.length < 2 ^ 31)
    (found : F.get? p = some (.skipIf exit (some count))) (value : count.toInt = n)
    (inside : p + n + 1 ≤ F.length) : GuardAt F p exit (p + n + 1) := by
  refine ⟨count, found, ?_⟩
  rw [Action.skipTarget?_eq_some_iff (by omega) (by omega)]
  exact ⟨by omega, inside⟩

/-- Taking a handle lays out its own code. -/
theorem Laid.acquire {first : Option (List Action × Element)} {next mark : List Action}
    {full : Element} (h : Extends s (Lower.acquireActions first next full mark) s') :
    Laid s (Lower.acquireCode first next full mark) s' := by
  refine ⟨.of_regions (length_le_of_append h.list) h.regions, fun F P short ok fits => ?_⟩
  have covers := fits.list
  obtain ⟨fits, here, len⟩ := fits.extends h
  have long := covers.length_le
  refine ⟨fits, ?_⟩
  -- from the new handle on both kinds are the same
  have body (p : Nat)
      (inside : p + (next ++ [Action.skipIf full (some 1), Action.abort] ++ mark).length ≤ F.length)
      (at' : ActsAt F p (next ++ [Action.skipIf full (some 1), Action.abort] ++ mark)) :
      ActsAt F p next ∧ Lays F P.targets (p + next.length) (.seq (.arm full .abort) (.acts mark))
        (p + (next ++ [Action.skipIf full (some 1), Action.abort] ++ mark).length) := by
    simp only [List.length_append, List.length_cons, List.length_nil] at inside
    obtain ⟨h₁, markAt⟩ := ActsAt.append.1 at'
    obtain ⟨nextAt, guardAt⟩ := ActsAt.append.1 h₁
    refine ⟨nextAt, p + next.length + 2, ⟨?_, ?_, by omega⟩, ?_, ?_⟩
    · exact GuardAt.of_count (n := 1) short guardAt.head rfl (by omega)
    · exact guardAt.tail.head
    · rw [List.length_append] at markAt
      exact markAt
    · simp only [List.length_append, List.length_cons, List.length_nil]
      omega
  cases first with
  | none =>
    obtain ⟨nextAt, rest⟩ := body s.list.length (by
      simp only [Lower.acquireActions, List.nil_append] at len
      omega) (by simpa only [Lower.acquireActions, List.nil_append] using here)
    refine ⟨_, ⟨nextAt, rfl⟩, ?_⟩
    rw [len]
    exact rest
  | some pair =>
    obtain ⟨first, found⟩ := pair
    have e : Lower.acquireActions (some (first, found)) next full mark =
        first ++ ([.skipIf found (some (Int32.ofNat next.length))] ++
          (next ++ [Action.skipIf full (some 1), Action.abort] ++ mark)) := by
      simp [Lower.acquireActions]
    rw [e] at here len
    simp only [List.length_append, List.length_cons, List.length_nil] at len
    obtain ⟨firstAt, h₁⟩ := ActsAt.append.1 here
    obtain ⟨guardAt, h₂⟩ := ActsAt.append.1 h₁
    obtain ⟨nextAt, rest⟩ := body (s.list.length + first.length + 1) (by
      simp only [List.length_append, List.length_cons, List.length_nil]
      omega) h₂
    refine ⟨_, ⟨firstAt, rfl⟩, s.list.length + first.length + 1 + next.length,
      ⟨?_, nextAt, rfl⟩, ?_⟩
    · rw [show s.list.length + first.length + 1 + next.length =
        s.list.length + first.length + next.length + 1 by omega]
      refine GuardAt.of_count short guardAt.head ?_ (by omega)
      rw [Int32.toInt_ofNat_of_lt (by omega)]
    · simp only [List.length_append, List.length_cons, List.length_nil] at rest
      rw [len]
      rw [show
        s.list.length + (first.length + (0 + 1 + (next.length + (0 + 1 + 1) + mark.length))) =
        s.list.length + first.length + 1 + (next.length + (0 + 1 + 1) + mark.length) by omega]
      exact rest

end SkipCode
