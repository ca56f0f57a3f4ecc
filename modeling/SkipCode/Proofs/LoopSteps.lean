import SkipCode.Proofs.Lowering

/-!
# Steps of a loop that succeed

What the steps of a `LoopBlock` do to the list and the loop stack when they succeed.
-/

namespace SkipCode

namespace Lower

/-- A step of a loop changes the list and the loops alone. -/
theorem run_onLoop (block : LoopBlock) (m : LoopBlock.Step Unit) (s : UnitState) :
    run (onLoop block m) s =
      some ((Attempt.run m (block, ⟨s.list, s.loops⟩)).1.map fun _ =>
          (Attempt.run m (block, ⟨s.list, s.loops⟩)).2.1,
        { s with
          list := (Attempt.run m (block, ⟨s.list, s.loops⟩)).2.2.list
          loops := (Attempt.run m (block, ⟨s.list, s.loops⟩)).2.2.loops }) := rfl

/-- It succeeds as the step itself does. -/
theorem run_onLoop_ok {block block' : LoopBlock} {m : LoopBlock.Step Unit} {s s' : UnitState} :
    run (onLoop block m) s = some (.ok block', s') ↔
      ∃ flow, Attempt.run m (block, ⟨s.list, s.loops⟩) = (.ok (), block', flow) ∧
        s' = { s with list := flow.list, loops := flow.loops } := by
  rw [run_onLoop]
  rcases Attempt.run m (block, ⟨s.list, s.loops⟩) with ⟨r, b, flow⟩
  constructor
  · intro h
    cases r with
    | error e => cases h
    | ok _ =>
      cases h
      exact ⟨flow, rfl, rfl⟩
  · rintro ⟨flow', h, rfl⟩
    cases h
    rfl

end Lower

namespace LoopBlock

/-- What a loop over an array writes to its index. -/
def indexWrite (kind : LoopKind) (value : Element → Element) : Except LowerError (List Action) :=
  match kind with
  | .forEach _ index => index.set "foreach index" (value index.get) []
  | _ => .ok []

variable {b b' : LoopBlock} {flow flow' : Flow}

/-- Setting an index writes it and nothing else. -/
theorem run_setIndex_ok {value : Element → Element}
    (h : Attempt.run (setIndex value) (b, flow) = (.ok (), b', flow')) :
    ∃ actions, indexWrite b.kind value = .ok actions ∧ b' = b ∧
      flow' = ⟨flow.list.extend actions, flow.loops⟩ := by
  obtain ⟨_, _, ⟨⟩, h₁⟩ := Attempt.run_bind_ok.1 h
  dsimp only at h₁
  split at h₁
  · next array index e =>
    obtain ⟨actions, u, h₂, h₃⟩ := Attempt.run_bind_ok.1 h₁
    rw [Attempt.run_lift_ok] at h₂
    obtain ⟨h₂, rfl⟩ := h₂
    cases h₃
    refine ⟨actions, ?_, rfl, rfl⟩
    unfold indexWrite
    rw [e]
    exact h₂
  · next e =>
    cases h₁
    -- only a loop over an array has an index
    unfold indexWrite
    split
    · next array index e' => exact absurd e' (e array index)
    · exact ⟨[], rfl, rfl, rfl⟩

/-- A step in the stage that is expected changes nothing. -/
theorem run_expect_ok {stage : Stage} {step : String}
    (h : Attempt.run (expect stage step) (b, flow) = (.ok (), b', flow')) :
    b.stage = stage ∧ b' = b ∧ flow' = flow := by
  obtain ⟨_, _, ⟨⟩, h₁⟩ := Attempt.run_bind_ok.1 h
  dsimp only at h₁
  unfold expectStage at h₁
  split at h₁
  · next e =>
    cases h₁
    exact ⟨e, rfl, rfl⟩
  · cases h₁

/-- Setting up opens a frame at the position where the loop begins. -/
theorem run_setup_ok {kind : LoopKind} {depth : Nat}
    (h : Attempt.run (setup depth) (.new kind, flow) = (.ok (), b, flow')) :
    ∃ zero, indexWrite kind (fun _ => .ofNat 0) = .ok zero ∧
      b = { LoopBlock.new kind with start := (flow.list.extend zero).length, stage := .setup } ∧
      flow' = ⟨flow.list.extend zero,
        flow.loops.push (.new (flow.list.extend zero).length depth)⟩ := by
  obtain ⟨_, ⟨b₁, flow₁⟩, h₁, h₂⟩ := Attempt.run_bind_ok.1 h
  obtain ⟨-, rfl, rfl⟩ := run_expect_ok h₁
  obtain ⟨_, ⟨b₂, flow₂⟩, h₃, h₄⟩ := Attempt.run_bind_ok.1 h₂
  obtain ⟨zero, hzero, rfl, rfl⟩ := run_setIndex_ok h₃
  cases h₄
  exact ⟨zero, hzero, rfl, rfl⟩

/-- The guard waits at the end of the list. -/
theorem run_guard_ok {condition : Option Element}
    (h : Attempt.run (guard condition) (b, flow) = (.ok (), b', flow')) :
    ∃ exit, exitCondition b.kind condition = .ok exit ∧
      b' = { b with exit := some flow.list.length, stage := .guarded } ∧
      flow' = ⟨flow.list.pushSkip (some exit), flow.loops⟩ := by
  obtain ⟨_, ⟨b₁, flow₁⟩, h₁, h₂⟩ := Attempt.run_bind_ok.1 h
  obtain ⟨-, rfl, rfl⟩ := run_expect_ok h₁
  obtain ⟨_, _, ⟨⟩, h₃⟩ := Attempt.run_bind_ok.1 h₂
  dsimp only at h₃
  obtain ⟨exit, u, h₄, h₅⟩ := Attempt.run_bind_ok.1 h₃
  rw [Attempt.run_lift_ok] at h₄
  obtain ⟨h₄, rfl⟩ := h₄
  cases h₅
  exact ⟨exit, h₄, rfl, rfl⟩

/-- Patching to here patches each position. -/
theorem run_resolveAllHere_ok {positions : List Nat}
    (h : Attempt.run (resolveAllHere positions) (b, flow) = (.ok (), b', flow')) :
    ∃ l, positions.foldlM ActionList.resolveHere flow.list = .ok l ∧ b' = b ∧
      flow' = ⟨l, flow.loops⟩ := by
  induction positions generalizing flow with
  | nil =>
    cases h
    exact ⟨_, rfl, rfl, rfl⟩
  | cons p rest ih =>
    have h : Attempt.run ((do
        let s ← get
        set (s.1, { s.2 with list := ← (s.2.list.resolveHere p : Except LowerError _) })) >>=
          fun _ => resolveAllHere rest) (b, flow) = (.ok (), b', flow') := h
    obtain ⟨_, u, h₁, h₂⟩ := Attempt.run_bind_ok.1 h
    obtain ⟨_, _, ⟨⟩, h₃⟩ := Attempt.run_bind_ok.1 h₁
    dsimp only at h₃
    obtain ⟨l, v, h₄, h₅⟩ := Attempt.run_bind_ok.1 h₃
    rw [Attempt.run_lift_ok] at h₄
    obtain ⟨h₄, rfl⟩ := h₄
    cases h₅
    -- the others are resolved in the list that resolving the first one gave
    obtain ⟨l', hl', rfl, rfl⟩ := ih h₂
    refine ⟨l', ?_, rfl, rfl⟩
    rw [List.foldlM_cons, h₄]
    exact hl'

/-- The end of a body patches the loop's own continues and exits. -/
theorem run_epilogue_ok (h : Attempt.run epilogue (b, flow) = (.ok (), b', flow')) :
    b.stage = .guarded ∧ ∃ frame rest list, flow.loops.frames = frame :: rest ∧
      frame.start = b.start ∧
      frame.continues.foldlM ActionList.resolveHere flow.list = .ok list ∧
      b' = { b with breaks := frame.breaks, stage := .epilogue } ∧ flow' = ⟨list, ⟨rest⟩⟩ := by
  obtain ⟨_, ⟨b₁, flow₁⟩, h₁, h₂⟩ := Attempt.run_bind_ok.1 h
  obtain ⟨stage, rfl, rfl⟩ := run_expect_ok h₁
  refine ⟨stage, ?_⟩
  obtain ⟨frame, v, h₃, h₄⟩ := Attempt.run_bind_ok.1 h₂
  obtain ⟨_, _, ⟨⟩, h₅⟩ := Attempt.run_bind_ok.1 h₃
  dsimp only at h₅
  obtain ⟨p, u, h₆, h₇⟩ := Attempt.run_bind_ok.1 h₅
  rw [Attempt.run_lift_ok] at h₆
  obtain ⟨h₆, rfl⟩ := h₆
  cases h₇
  -- the innermost loop is taken off, which has to be this one
  unfold LoopStack.pop at h₆
  split at h₆
  · next frame rest e =>
    cases h₆
    obtain ⟨_, _, ⟨⟩, h₈⟩ := Attempt.run_bind_ok.1 h₄
    dsimp only at h₈
    split at h₈
    · -- the innermost loop is another one
      obtain ⟨_, _, h₉, -⟩ := Attempt.run_bind_ok.1 h₈
      cases h₉
    · next same =>
      obtain ⟨_, ⟨b₂, flow₂⟩, h₉, h₁₀⟩ := Attempt.run_bind_ok.1 h₈
      obtain ⟨l, hl, rfl, rfl⟩ := run_resolveAllHere_ok h₉
      cases h₁₀
      exact ⟨frame, rest, l, e, not_not.1 same, hl, rfl, rfl⟩
  · cases h₆

/-- The end of a loop whose body is closed. -/
theorem run_finish_ok {tail : List Action} (stage : b.stage = .epilogue)
    (h : Attempt.run (finish tail) (b, flow) = (.ok (), b', flow')) :
    ∃ next exit l₁ done, indexWrite b.kind (fun index => index.add (.ofNat 1)) = .ok next ∧
      b.exit = some exit ∧
      ((flow.list.extend next).pushSkipTo b.start).resolveHere exit = .ok l₁ ∧
      b.breaks.foldlM ActionList.resolveHere (l₁.extend tail) = .ok done ∧
      flow' = ⟨done, flow.loops⟩ := by
  obtain ⟨_, _, ⟨⟩, h₁⟩ := Attempt.run_bind_ok.1 h
  dsimp only at h₁
  rw [if_neg (by rw [stage]; decide)] at h₁
  obtain ⟨_, ⟨b₁, flow₁⟩, h₂, h₃⟩ := Attempt.run_bind_ok.1 h₁
  obtain ⟨-, rfl, rfl⟩ := run_expect_ok h₂
  obtain ⟨_, ⟨b₂, flow₂⟩, h₄, h₅⟩ := Attempt.run_bind_ok.1 h₃
  obtain ⟨next, hnext, rfl, rfl⟩ := run_setIndex_ok h₄
  obtain ⟨_, _, ⟨⟩, h₆⟩ := Attempt.run_bind_ok.1 h₅
  dsimp only at h₆
  obtain ⟨_, _, ⟨⟩, h₇⟩ := Attempt.run_bind_ok.1 h₆
  split at h₇
  · cases h₇
  · next exit e =>
    obtain ⟨_, _, ⟨⟩, h₈⟩ := Attempt.run_bind_ok.1 h₇
    obtain ⟨_, ⟨b₃, flow₃⟩, h₉, h₁₀⟩ := Attempt.run_bind_ok.1 h₈
    obtain ⟨l₁, hl₁, rfl, rfl⟩ := run_resolveAllHere_ok h₉
    obtain ⟨_, _, ⟨⟩, h₁₁⟩ := Attempt.run_bind_ok.1 h₁₀
    obtain ⟨_, _, ⟨⟩, h₁₂⟩ := Attempt.run_bind_ok.1 h₁₁
    obtain ⟨_, ⟨b₄, flow₄⟩, h₁₃, h₁₄⟩ := Attempt.run_bind_ok.1 h₁₂
    obtain ⟨done, hdone, rfl, rfl⟩ := run_resolveAllHere_ok h₁₃
    cases h₁₄
    refine ⟨next, exit, l₁, done, hnext, e, ?_, hdone, rfl⟩
    -- the exit of the guard is the only skip that is resolved before the tail
    rw [List.foldlM_cons] at hl₁
    cases hr : ActionList.resolveHere ((flow₁.list.extend next).pushSkipTo b₂.start) exit with
    | error e => simp [hr, Bind.bind, Except.bind] at hl₁
    | ok l =>
      simp only [hr] at hl₁
      cases hl₁
      rfl

/-- The end of a loop whose body is still open. -/
theorem run_finish_guarded {tail : List Action} (stage : b.stage = .guarded)
    (h : Attempt.run (finish tail) (b, flow) = (.ok (), b', flow')) :
    ∃ b₁ flow₁, Attempt.run epilogue (b, flow) = (.ok (), b₁, flow₁) ∧ b₁.stage = .epilogue ∧
      Attempt.run (finish tail) (b₁, flow₁) = (.ok (), b', flow') := by
  obtain ⟨_, _, ⟨⟩, h₁⟩ := Attempt.run_bind_ok.1 h
  dsimp only at h₁
  rw [if_pos stage] at h₁
  obtain ⟨_, ⟨b₁, flow₁⟩, h₂, h₃⟩ := Attempt.run_bind_ok.1 h₁
  obtain ⟨-, frame, rest, list, -, -, -, e, -⟩ := run_epilogue_ok h₂
  have closed : b₁.stage = .epilogue := by rw [e]
  refine ⟨b₁, flow₁, h₂, closed, Attempt.run_bind_ok.2 ⟨(b₁, flow₁), (b₁, flow₁), rfl, ?_⟩⟩
  dsimp only
  rw [if_neg (by rw [closed]; decide)]
  exact h₃

/-- The end of a loop whose body is closed does the rest; one whose body is open closes it first. -/
theorem run_finish_stage {b b' : LoopBlock} {flow flow' : Flow} {tail : List Action}
    (h : Attempt.run (finish tail) (b, flow) = (.ok (), b', flow')) :
    b.stage = .guarded ∨ b.stage = .epilogue := by
  obtain ⟨_, _, ⟨⟩, h⟩ := Attempt.run_bind_ok.1 h
  dsimp only at h
  by_cases guarded : b.stage = .guarded
  · exact Or.inl guarded
  · rw [if_neg guarded] at h
    obtain ⟨_, ⟨b₁, flow₁⟩, h₁, -⟩ := Attempt.run_bind_ok.1 h
    exact Or.inr (run_expect_ok h₁).1

end LoopBlock

end SkipCode
