import SkipCode.Proofs.Parts
import SkipCode.Proofs.StmtLayout

/-!
# Steps that have to do with no slot

Most steps of lowering write to the list, to the loops and to what is known of the open bodies, and
leave alone what the slots are about (`Lower.Aside`). Whatever is written stays: an action is at
most given its count, and a loop that is open lets more skips wait until it is closed
(`Flow.Evolves`). A step with both properties is `Slotless`.
-/

namespace SkipCode

/-! ## The list and the loops -/

/-- A skip that is resolved twice is resolved. -/
theorem Action.Fills.trans {a b c : Action} (h₁ : a.Fills b) (h₂ : b.Fills c) : a.Fills c := by
  rcases h₁ with rfl | ⟨pending, count, rfl⟩
  · exact h₂
  · -- a skip that has its count keeps it
    have settled : (a.withCount count).isPending = false := by
      rw [Action.isPending, Action.skipCount?_withCount pending]
      rfl
    exact Or.inr ⟨pending, count, h₂.settled settled⟩

namespace Covers

variable {F l l' : ActionList}

/-- What covers a cover covers what is below. -/
theorem trans (h₁ : Covers l' l) (h₂ : Covers F l') : Covers F l := by
  intro i a found
  obtain ⟨b, found', fills⟩ := h₁ i a found
  obtain ⟨c, found'', fills'⟩ := h₂ i b found'
  exact ⟨c, found'', fills.trans fills'⟩

/-- A list that goes on covers its beginning. -/
theorem appended {actions : List Action} (e : l'.toList = l.toList ++ actions) : Covers l' l :=
  ((Covers.refl l').of_append e).1

theorem extended (l : ActionList) (actions : List Action) : Covers (l.extend actions) l :=
  appended (ActionList.toList_extend l actions)

theorem pushed (l : ActionList) (a : Action) : Covers (l.push a) l :=
  appended (ActionList.toList_push l a)

/-- Resolving a skip covers the list in which it waited. -/
theorem resolved {p : Nat} (h : l.resolveHere p = .ok l') : Covers l' l :=
  ((Covers.refl l').resolveHere h).1

/-- So does resolving several. -/
theorem resolvedAll {positions : List Nat}
    (h : positions.foldlM ActionList.resolveHere l = .ok l') : Covers l' l :=
  ((Covers.refl l').resolveAll h).1

end Covers

/-- What is known of an open loop later on: at least the same skips wait. -/
structure LoopFrame.Waits (a b : LoopFrame) : Prop where
  start : a.start = b.start
  continues : a.continues ⊆ b.continues
  breaks : a.breaks ⊆ b.breaks

namespace LoopFrame.Waits

variable {a b c : LoopFrame}

theorem refl (a : LoopFrame) : a.Waits a := ⟨rfl, List.Subset.refl _, List.Subset.refl _⟩

/-- Exits that are noted stay noted. -/
theorem trans (h₁ : a.Waits b) (h₂ : b.Waits c) : a.Waits c :=
  ⟨h₁.start.trans h₂.start, List.Subset.trans h₁.continues h₂.continues,
    List.Subset.trans h₁.breaks h₂.breaks⟩

end LoopFrame.Waits

/-- What lies between two moments of a lowering that goes on: what is written is at most filled in,
and an open loop was opened since then, or it was open with as many loops around it. -/
structure Flow.Evolves (a b : Flow) : Prop where
  covers : Covers b.list a.list
  loops : ∀ i frame, b.loops.frames[i]? = some frame → a.list.length ≤ frame.start ∨
    ∃ j before, a.loops.frames[j]? = some before ∧
      j + b.loops.frames.length = i + a.loops.frames.length ∧ before.Waits frame

namespace Flow.Evolves

variable {a b c : Flow}

/-- Loops are at most closed, from the innermost one on. -/
theorem closing (covers : Covers b.list a.list) (loops : b.loops.frames <:+ a.loops.frames) :
    a.Evolves b := by
  obtain ⟨closed, e⟩ := loops
  refine ⟨covers, fun i frame found => Or.inr ⟨closed.length + i, frame, ?_, ?_, .refl frame⟩⟩
  · rw [← e, List.getElem?_append_right (Nat.le_add_right _ _), Nat.add_sub_cancel_left]
    exact found
  · rw [← e, List.length_append]
    omega

theorem refl (a : Flow) : a.Evolves a := closing (.refl _) (List.suffix_refl _)

/-- What evolves in two steps evolves. -/
theorem trans (h₁ : a.Evolves b) (h₂ : b.Evolves c) : a.Evolves c := by
  refine ⟨h₁.covers.trans h₂.covers, fun i frame found => ?_⟩
  obtain later | ⟨j, middle, found, around, waits⟩ := h₂.loops i frame found
  · exact Or.inl (Nat.le_trans h₁.covers.length_le later)
  · obtain later | ⟨k, first, found, around', waits'⟩ := h₁.loops j middle found
    · exact Or.inl (waits.start ▸ later)
    · exact Or.inr ⟨k, first, found, by omega, waits'.trans waits⟩

/-- Only the list is written to. -/
theorem written {l l' : ActionList} (covers : Covers l' l) (loops : LoopStack) :
    Evolves ⟨l, loops⟩ ⟨l', loops⟩ := closing covers (List.suffix_refl _)

end Flow.Evolves

/-! ## Steps of a loop -/

namespace LoopBlock

variable {α β : Type}

/-- A step of a loop that keeps what is written and what waits, when it succeeds. -/
def Evolves (m : Step α) : Prop :=
  ∀ x a y, Attempt.run m x = (.ok a, y) → Flow.Evolves x.2 y.2

namespace Evolves

theorem pure (a : α) : Evolves (Pure.pure a : Step α) := by
  intro x b y h
  cases h
  exact .refl _

/-- Steps of a loop that let the others evolve do so together. -/
theorem bind {m : Step α} {f : α → Step β} (hm : Evolves m) (hf : ∀ a, Evolves (f a)) :
    Evolves (m >>= f) := by
  intro x b y h
  obtain ⟨a, u, h₁, h₂⟩ := Attempt.run_bind_ok.1 h
  exact (hm x a u h₁).trans (hf a u b y h₂)

theorem get : Evolves (MonadState.get : Step (LoopBlock × Flow)) := by
  intro x b y h
  cases h
  exact .refl _

theorem lift (x : Except LowerError α) : Evolves (liftM x : Step α) := by
  intro s b y h
  obtain ⟨-, rfl⟩ := Attempt.run_lift_ok.1 h
  exact .refl _

theorem throw (e : LowerError) : Evolves (MonadExcept.throw e : Step α) := by
  intro x b y h
  cases h

/-- A change of the loop and of what it writes to. -/
theorem change {f : LoopBlock × Flow → LoopBlock × Flow} (h : ∀ x, Flow.Evolves x.2 (f x).2) :
    Evolves (modify f : Step PUnit) := by
  intro x b y e
  cases e
  exact h x

theorem expect (stage : Stage) (step : String) : Evolves (expect stage step) :=
  .bind .get fun _ => .lift _

/-- Another state of the block is none of the loops. -/
theorem modifyBlock (f : LoopBlock → LoopBlock) :
    Evolves (modifyBlock f) := .change fun _ => .refl _

theorem setIndex (value : Element → Element) : Evolves (setIndex value) := by
  rintro ⟨b, flow⟩ _ ⟨b', flow'⟩ h
  obtain ⟨actions, -, -, rfl⟩ := run_setIndex_ok h
  exact .written (.extended _ _) _

/-- A position that is resolved covers the list, and the loops stay. -/
theorem resolveAllHere (positions : List Nat) : Evolves (resolveAllHere positions) := by
  rintro ⟨b, flow⟩ _ ⟨b', flow'⟩ h
  obtain ⟨l, resolved, -, rfl⟩ := run_resolveAllHere_ok h
  exact .written (.resolvedAll resolved) _

/-- A loop that is opened starts behind all that is written. -/
theorem setup (depth : Nat) : Evolves (setup depth) := by
  refine .bind (.expect _ _) fun _ => .bind (.setIndex _) fun _ => .change fun x =>
    ⟨.refl _, fun i frame found => ?_⟩
  cases i with
  | zero =>
    cases found
    exact Or.inl (Nat.le_refl _)
  | succ i =>
    refine Or.inr ⟨i, frame, found, ?_, .refl frame⟩
    rw [show (x.2.loops.push _).frames.length = x.2.loops.frames.length + 1 from rfl]
    omega

theorem guard (condition : Option Element) : Evolves (guard condition) :=
  .bind (.expect _ _) fun _ => .bind .get fun _ => .bind (.lift _) fun _ =>
    .change fun _ => .written (.pushed _ _) _

/-- The innermost loop is taken away. -/
theorem takeFrame : Evolves takeFrame := by
  rintro ⟨b, flow⟩ frame ⟨b', flow'⟩ h
  obtain ⟨_, _, ⟨⟩, h₁⟩ := Attempt.run_bind_ok.1 h
  obtain ⟨⟨top, loops⟩, u, h₂, h₃⟩ := Attempt.run_bind_ok.1 h₁
  obtain ⟨popped, rfl⟩ := Attempt.run_lift_ok.1 h₂
  cases h₃
  refine .closing (.refl _) ?_
  -- the innermost loop is gone, the others are as they were
  unfold LoopStack.pop at popped
  split at popped
  · next first rest e =>
    cases popped
    show rest <:+ flow.loops.frames
    rw [e]
    exact List.suffix_cons _ _
  · cases popped

/-- The epilogue takes its own loop away, and resolves what goes on there. -/
theorem epilogue : Evolves epilogue := by
  refine .bind (.expect _ _) fun _ => .bind .takeFrame fun frame => .bind .get fun _ => ?_
  dsimp only
  split
  · exact .bind (.throw _) fun _ => .bind (.resolveAllHere _) fun _ => .modifyBlock _
  · exact .bind (.resolveAllHere _) fun _ => .modifyBlock _

/-- So does the end of the loop, and what leaves it is resolved behind it. -/
theorem finish (tail : List Action) : Evolves (finish tail) := by
  have ended {b b' : LoopBlock} {flow flow' : Flow} (stage : b.stage = .epilogue)
      (h : Attempt.run (LoopBlock.finish tail) (b, flow) = (.ok (), b', flow')) :
        flow.Evolves flow' := by
    obtain ⟨next, exit, list, done, -, -, guard, breaks, rfl⟩ := run_finish_ok stage h
    -- the index and the skip back, then the tail
    have again : Covers list flow.list :=
      .trans (.extended _ _) (.trans (.pushed _ _) (.resolved guard))
    exact .written (again.trans (.trans (.extended _ _) (.resolvedAll breaks))) _
  rintro ⟨b, flow⟩ _ ⟨b', flow'⟩ h
  obtain guarded | stage := run_finish_stage h
  · obtain ⟨b₁, flow₁, closed, stage, h₁⟩ := run_finish_guarded guarded h
    exact (epilogue _ _ _ closed).trans (ended stage h₁)
  · exact ended stage h

end Evolves

end LoopBlock

/-! ## Steps of lowering -/

/-- The list and the loops of a unit. -/
def UnitState.flow (s : UnitState) : Flow := ⟨s.list, s.loops⟩

/-- What the slots of a unit are about is the same. -/
structure UnitState.SameSlots (s t : UnitState) : Prop where
  session : t.session = s.session
  pool : t.pool = s.pool
  scopes : t.scopes = s.scopes
  symbols : t.symbols = s.symbols
  deferred : t.deferred = s.deferred
  span : t.span = s.span

namespace UnitState.SameSlots

variable {s t u : UnitState}

theorem refl (s : UnitState) : s.SameSlots s := ⟨rfl, rfl, rfl, rfl, rfl, rfl⟩

/-- What has the same slots twice has the same slots. -/
theorem trans (h₁ : s.SameSlots t) (h₂ : t.SameSlots u) : s.SameSlots u :=
  ⟨h₂.session.trans h₁.session, h₂.pool.trans h₁.pool, h₂.scopes.trans h₁.scopes,
    h₂.symbols.trans h₁.symbols, h₂.deferred.trans h₁.deferred, h₂.span.trans h₁.span⟩

end UnitState.SameSlots

namespace Lower

variable {α β γ : Type}

/-- A composed step fails in its first part, or comes to the second one. -/
theorem run_bind_cases {m : Lower α} {f : α → Lower β} {s t : UnitState} {r : Except LowerError β}
    (h : run (m >>= f) s = some (r, t)) :
    (∃ e, run m s = some (.error e, t) ∧ r = .error e) ∨
      ∃ a u, run m s = some (.ok a, u) ∧ run (f a) u = some (r, t) := by
  rw [run_bind] at h
  split at h
  · cases h
  · next a u first => exact Or.inr ⟨a, u, first, h⟩
  · next e u first =>
    cases h
    exact Or.inl ⟨e, first, rfl⟩

/-- A step that leaves alone what the slots are about, whatever its outcome. -/
def Aside (m : Lower α) : Prop :=
  ∀ (s : UnitState) r t, run m s = some (r, t) → s.SameSlots t

namespace Aside

theorem pure (a : α) : Aside (Pure.pure a : Lower α) := by
  intro s r t h
  cases h
  exact .refl _

/-- Steps aside from slots stay so together. -/
theorem bind {m : Lower α} {f : α → Lower β} (hm : Aside m) (hf : ∀ a, Aside (f a)) :
    Aside (m >>= f) := by
  intro s r t h
  obtain ⟨e, h₁, -⟩ | ⟨a, u, h₁, h₂⟩ := run_bind_cases h
  · exact hm s _ t h₁
  · exact (hm s _ u h₁).trans (hf a u r t h₂)

/-- With these rules steps are put together that have to do with no slot. -/
theorem composes : Composes Lower Aside := ⟨pure, bind⟩

theorem get : Aside (MonadState.get : Lower UnitState) := by
  intro s r t h
  cases h
  exact .refl _

theorem throw (e : LowerError) : Aside (MonadExcept.throw e : Lower α) := by
  intro s r t h
  cases h
  exact .refl _

theorem lift (x : Except LowerError α) : Aside (liftM x : Lower α) := by
  intro s r t h
  rw [run_lift] at h
  cases h
  exact .refl _

/-- A change of what the slots have nothing to do with. -/
theorem change {f : UnitState → UnitState} (h : ∀ s : UnitState, s.SameSlots (f s)) :
    Aside (modify f : Lower PUnit) := by
  intro s r t e
  cases e
  exact h s

/-- A new state that is made of the one before. -/
theorem replace {f : UnitState → Lower α}
    (h : ∀ (s : UnitState) r t, run (f s) s = some (r, t) → s.SameSlots t) :
    Aside (MonadState.get >>= f) := by
  intro s r t e
  rw [run_bind] at e
  exact h s r t e

/-- The list is aside from all slots. -/
theorem modifyList (f : ActionList → ActionList) : Aside (Lower.modifyList f) :=
  .change fun _ => ⟨rfl, rfl, rfl, rfl, rfl, rfl⟩

theorem resolveHere (position : Nat) : Aside (Lower.resolveHere position) :=
  .bind .get fun _ => .bind (.lift _) fun _ => .modifyList _

/-- So are the loops. -/
theorem onLoop (block : LoopBlock) (m : LoopBlock.Step Unit) : Aside (Lower.onLoop block m) := by
  intro s r t h
  rw [run_onLoop] at h
  cases h
  exact ⟨rfl, rfl, rfl, rfl, rfl, rfl⟩

end Aside

/-- A step that keeps what is written and what waits, when it succeeds. -/
def Evolves (m : Lower α) : Prop :=
  ∀ (s : UnitState) a t, run m s = some (.ok a, t) → s.flow.Evolves t.flow

namespace Evolves

theorem pure (a : α) : Evolves (Pure.pure a : Lower α) := by
  intro s b t h
  cases h
  exact .refl _

/-- Steps that let the unit evolve do so together. -/
theorem bind {m : Lower α} {f : α → Lower β} (hm : Evolves m) (hf : ∀ a, Evolves (f a)) :
    Evolves (m >>= f) := by
  intro s b t h
  obtain ⟨a, u, h₁, h₂⟩ := run_bind_ok.1 h
  exact (hm s a u h₁).trans (hf a u b t h₂)

/-- A plain step adds to the list. -/
theorem of_plain {m : Lower α} (plain : Plain m) : Evolves m := by
  intro s a t h
  obtain ⟨actions, adds⟩ := plain s a t h
  have same : t.loops.frames = s.loops.frames := congrArg LoopStack.frames adds.loops
  exact .closing (.appended adds.list) (same ▸ List.suffix_refl s.loops.frames)

end Evolves

/-- A step that has to do with no slot. -/
structure Slotless (m : Lower α) : Prop where
  aside : Aside m
  evolves : Evolves m

namespace Slotless

theorem pure (a : α) : Slotless (Pure.pure a : Lower α) := ⟨.pure a, .pure a⟩

/-- Steps that have to do with no slot have none together. -/
theorem bind {m : Lower α} {f : α → Lower β} (hm : Slotless m) (hf : ∀ a, Slotless (f a)) :
    Slotless (m >>= f) :=
  ⟨.bind hm.aside fun a => (hf a).aside, .bind hm.evolves fun a => (hf a).evolves⟩

/-- With these rules steps are put together without slots. -/
theorem composes : Composes Lower Slotless := ⟨pure, bind⟩

/-- What is aside from slots and writes settled code is slotless. -/
theorem of_plain {m : Lower α} (aside : Aside m) (plain : Plain m) : Slotless m :=
  ⟨aside, .of_plain plain⟩

/-! ## Steps that only look -/

theorem get : Slotless (MonadState.get : Lower UnitState) := .of_plain .get .get

theorem throw (e : LowerError) : Slotless (MonadExcept.throw e : Lower α) :=
  .of_plain (.throw e) (.throw e)

theorem lift (x : Except LowerError α) :
    Slotless (liftM x : Lower α) := .of_plain (.lift x) (.lift x)

theorem position : Slotless Lower.position := .bind .get fun _ => .pure _

theorem lookup (name : String) : Slotless (Lower.lookup name) := by
  refine .bind .get fun s => ?_
  dsimp only
  split
  · exact .pure _
  · exact .throw _

theorem frame : Slotless Lower.frame := by
  refine .bind .get fun s => ?_
  split
  · exact .pure _
  · exact .throw _

theorem expandedFrame (method : Option String) (result : Option IndexedVar) :
    Slotless (Lower.expandedFrame method result) := .bind .get fun _ => .pure _

theorem actorVar (name : String) : Slotless (Lower.actorVar name) := by
  refine .bind (.lookup name) fun v => ?_
  split
  · exact .pure _
  · exact .throw _

theorem resolveCallee (className : Option String) (method : String) :
    Slotless (Lower.resolveCallee className method) := by
  refine .bind .get fun s => ?_
  cases className with
  | none => exact .bind (.lift _) fun _ => .pure _
  | some className => exact .bind (.lift _) fun _ => .pure _

theorem checkArity (callee : Callee) (arguments : Nat) :
    Slotless (Lower.checkArity callee arguments) := by
  unfold Lower.checkArity
  split
  · exact .throw _
  · exact .pure _

/-! ## Steps that write -/

/-- A change of what neither the slots nor the list and the loops have to do with. -/
theorem change {f : UnitState → UnitState} (same : ∀ s : UnitState, s.SameSlots (f s))
    (flow : ∀ s : UnitState, (f s).flow = s.flow) : Slotless (modify f : Lower PUnit) := by
  refine ⟨.change same, fun s a t h => ?_⟩
  cases h
  rw [flow]
  exact .refl _

/-- A list may be changed in any way that covers it. -/
theorem modifyList {f : ActionList → ActionList} (covers : ∀ l, Covers (f l) l) :
    Slotless (Lower.modifyList f) := by
  refine ⟨.modifyList f, fun s a t h => ?_⟩
  cases h
  exact .written (covers _) _

/-- Emitting is slotless. -/
theorem emit (actions : List Action) : Slotless (Lower.emit actions) :=
  .modifyList fun l => .extended l actions

theorem pushSkip : Slotless Lower.pushSkip :=
  .bind .position fun _ => .bind (.modifyList fun l => .pushed l _) fun _ => .pure _

theorem pushSkipTo (target : Nat) : Slotless (Lower.modifyList (·.pushSkipTo target)) :=
  .modifyList fun l => .pushed l _

/-- So is resolving a position. -/
theorem resolveHere (position : Nat) : Slotless (Lower.resolveHere position) := by
  refine ⟨.resolveHere position, fun s a t h => ?_⟩
  obtain ⟨l, resolved, rfl⟩ := run_resolveHere_ok.1 h
  exact .written (.resolved resolved) _

/-- A list that is computed from the one before, with what else is computed. -/
theorem rewrite (g : ActionList → Except LowerError γ) (list : γ → ActionList)
    (covers : ∀ l x, g l = .ok x → Covers (list x) l) : Slotless (do
      let x ← (g (← MonadState.get).list : Except LowerError _)
      Lower.modifyList fun _ => list x
      return x) := by
  refine ⟨.bind .get fun _ => .bind (.lift _) fun _ => .bind (.modifyList _) fun _ => .pure _,
    fun s a t h => ?_⟩
  obtain ⟨_, _, ⟨⟩, h₁⟩ := run_bind_ok.1 h
  obtain ⟨x, u, h₂, h₃⟩ := run_bind_ok.1 h₁
  obtain ⟨computed, rfl⟩ := run_lift_ok.1 h₂
  cases h₃
  exact .written (covers _ _ computed) _

/-- The stacks that are popped on the way out of a body stay declared. -/
theorem unwindTo (depth : Nat) : Slotless (Lower.unwindTo depth) := .bind .get fun _ => .emit _

theorem hiddenName (what : String) : Slotless (Lower.hiddenName what) :=
  .bind (.change (fun _ => ⟨rfl, rfl, rfl, rfl, rfl, rfl⟩) fun _ => rfl) fun _ =>
    .bind .get fun _ => .pure _

/-! ## Bodies and regions -/

theorem pushFrame (f : Frame) : Slotless (Lower.pushFrame f) :=
  .change (fun _ => ⟨rfl, rfl, rfl, rfl, rfl, rfl⟩) fun _ => rfl

/-- At the end of a frame its returns are resolved. -/
theorem closeFrame : Slotless Lower.closeFrame := by
  refine ⟨.replace fun s r t h => ?_, fun s a t h => ?_⟩
  · split at h
    · cases h
      exact .refl _
    · next frame rest _ =>
      rw [run_bind, run_set] at h
      have returns : Aside (frame.returns.forM Lower.resolveHere) :=
        Aside.composes.forM fun p _ => .resolveHere p
      have inside := returns _ r t h
      exact ⟨inside.session, inside.pool, inside.scopes, inside.symbols, inside.deferred,
        inside.span⟩
  · obtain ⟨frame, frames, list, -, resolved, rfl⟩ := run_closeFrame_ok h
    exact .written (.resolvedAll resolved) _

theorem pushRegion (region : Region) : Slotless (Lower.pushRegion region) :=
  .change (fun _ => ⟨rfl, rfl, rfl, rfl, rfl, rfl⟩) fun _ => rfl

/-- A region is given back with the calls that it has seen. -/
theorem popRegion : Slotless Lower.popRegion := by
  refine ⟨.replace fun s r t h => ?_, fun s a t h => ?_⟩
  · split at h <;>
    · cases h
      exact ⟨rfl, rfl, rfl, rfl, rfl, rfl⟩
  · obtain ⟨regions, -, rfl⟩ := run_popRegion_ok h
    exact .refl _

/-- The end of a region takes no slot. -/
theorem dispatch (address : IndexedVar) (number : Nat) (sites : List Nat) :
    Slotless (Lower.dispatch address number sites) := by
  induction sites generalizing number with
  | nil => exact .pure _
  | cons site rest ih =>
    exact .bind (.emit _) fun _ => .bind (.pushSkipTo _) fun _ => ih (number + 1)

/-- Nor does a call from inside it, as its temporaries are there. -/
theorem callRegion (index : Nat) (region : Region) (receiver : Option Element)
    (arguments : List Element) : Slotless (Lower.callRegion index region receiver arguments) := by
  have last : Slotless (do
      Lower.emit (region.returnAddress.pushActions (.ofNat region.callSites.length) none)
      Lower.modifyList (·.pushSkipTo region.bodyStart)
      let continuation ← Lower.position
      modify fun s => noteCall s index continuation
      return region.result.get none) :=
    .bind (.emit _) fun _ => .bind (.pushSkipTo _) fun _ => .bind .position fun _ =>
      .bind (.change (fun _ => ⟨rfl, rfl, rfl, rfl, rfl, rfl⟩) fun _ => rfl) fun _ => .pure _
  refine .bind (composes.forM fun _ _ => .emit _) fun _ => ?_
  dsimp only
  split
  · refine .bind (.emit _) fun _ => .bind (composes.forM fun _ _ => .emit _) fun _ => ?_
    split
    · exact .bind (.emit _) fun _ => last
    · exact last
  · refine .bind (composes.forM fun _ _ => .emit _) fun _ => ?_
    split
    · exact .bind (.emit _) fun _ => last
    · exact last

theorem addReturn (skip : Nat) : Slotless (Lower.addReturn skip) := by
  refine ⟨.replace fun s r t h => ?_, fun s a t h => ?_⟩
  · split at h <;>
    · cases h
      exact ⟨rfl, rfl, rfl, rfl, rfl, rfl⟩
  · obtain ⟨_, _, ⟨⟩, h₁⟩ := run_bind_ok.1 h
    split at h₁
    · cases h₁
      exact .refl _
    · cases h₁

/-- Nor does a return, which has a result to write to. -/
theorem leaveFrame (value : Option Element) : Slotless (Lower.leaveFrame value) := by
  have rest (depth : Nat) : Slotless (do
      Lower.unwindTo depth
      Lower.addReturn (← Lower.pushSkip)) :=
    .bind (.unwindTo _) fun _ => .bind .pushSkip fun _ => .addReturn _
  refine .bind .frame fun frame => ?_
  dsimp only
  split
  · exact .bind (.emit _) fun _ => rest _
  · exact rest _

/-! ## Loops and conditionals -/

/-- What a step of a loop lets evolve is without slots in the unit. -/
theorem onLoop {m : LoopBlock.Step Unit} (block : LoopBlock) (hm : LoopBlock.Evolves m) :
    Slotless (Lower.onLoop block m) := by
  refine ⟨.onLoop block m, fun s a t h => ?_⟩
  obtain ⟨flow, inside, rfl⟩ := run_onLoop_ok.1 h
  exact hm _ _ _ inside

theorem closeLoop (block : LoopBlock) (tail : List Action) :
    Slotless (Lower.closeLoop block tail) :=
  composes.map _ (.onLoop block (.finish tail))

/-- The loop that is left, or the one that goes on, has one skip more that waits. -/
theorem leaveLoop {depth : UInt32} {exit : String}
    {wait : LoopStack → (floor skip : Nat) → Except LowerError LoopStack}
    (waits : ∀ {s t : LoopStack} {floor skip : Nat}, wait s floor skip = .ok t →
      ∃ frame frame' : LoopFrame, s.frames[depth.toNat]? = some frame ∧
        t.frames = s.frames.set depth.toNat frame' ∧ frame.Waits frame') :
    Slotless (Lower.leaveLoop depth exit wait) := by
  refine ⟨.bind Slotless.frame.aside fun _ => .bind .get fun _ => .bind (.lift _) fun _ =>
    .bind (Slotless.unwindTo _).aside fun _ => .bind Slotless.pushSkip.aside fun _ =>
      .bind .get fun _ =>
      .bind (.lift _) fun _ => .change fun _ => ⟨rfl, rfl, rfl, rfl, rfl, rfl⟩, fun s a t h => ?_⟩
  obtain ⟨frame, frames, target, loops, -, -, added, rfl⟩ := run_leaveLoop_ok h
  refine ⟨.trans (.extended _ _) (.pushed _ _), fun i frame found => Or.inr ?_⟩
  obtain ⟨before, after, known, e, grown⟩ := waits added
  have found : loops.frames[i]? = some frame := found
  have length : loops.frames.length = s.loops.frames.length := by rw [e, List.length_set]
  rw [e, List.getElem?_set] at found
  -- the loop that is meant, or another one
  split at found
  · next same =>
    split at found
    · cases found
      exact ⟨i, before, same ▸ known, congrArg (i + ·) length, grown⟩
    · cases found
  · exact ⟨i, frame, found, congrArg (i + ·) length, .refl frame⟩

/-- A break is noted with its loop. -/
theorem «break» (depth : UInt32) : Slotless (Lower.leaveLoop depth "break" (·.addBreak depth)) := by
  refine .leaveLoop fun {s t floor skip} added => ?_
  obtain ⟨frame, found, e⟩ := except_bind_ok.1 added
  cases e
  exact ⟨frame, _, (LoopStack.frame_ok found).2, rfl, rfl, List.Subset.refl _,
    List.subset_append_left _ _⟩

/-- So is a continue. -/
theorem «continue» (depth : UInt32) :
    Slotless (Lower.leaveLoop depth "continue" (·.addContinue depth)) := by
  refine .leaveLoop fun {s t floor skip} added => ?_
  obtain ⟨frame, found, e⟩ := except_bind_ok.1 added
  cases e
  exact ⟨frame, _, (LoopStack.frame_ok found).2, rfl, rfl, List.subset_append_left _ _,
    List.Subset.refl _⟩

/-- Finishing a branch covers the list in which it waited. -/
theorem covers_finish {block : IfBlock} {l : ActionList} {x : IfBlock × ActionList}
    (h : block.finish l = .ok x) : Covers x.2 l := by
  obtain ⟨_, -, h⟩ := except_bind_ok.1 h
  split at h
  · cases h
  · obtain ⟨l', resolved, h⟩ := except_bind_ok.1 h
    cases h
    exact .resolved resolved

/-- The branches of a condition take no slot. -/
theorem closeArm (block : IfBlock) (tail : List Action) (chain : IfChain) (more : Bool) :
    Slotless (Lower.closeArm block tail chain more) := by
  have rest {last : Lower IfChain} (hlast : Slotless last) : Slotless (do
      let finished ← (block.finish (← MonadState.get).list : Except LowerError _)
      Lower.modifyList fun _ => finished.2
      Lower.emit tail
      last) := by
    have := Slotless.bind (rewrite block.finish (·.2) fun _ _ => covers_finish)
      fun _ => .bind (.emit tail) fun _ => hlast
    simpa only [bind_assoc, pure_bind] using this
  unfold Lower.closeArm
  dsimp only
  split
  · -- the arm gets a skip to the end of the chain before its own skip is resolved
    refine ⟨.bind .get fun _ => .bind (.modifyList _) fun _ => (rest (.pure _)).aside,
      fun s a t h => ?_⟩
    obtain ⟨_, _, ⟨⟩, h₁⟩ := run_bind_ok.1 h
    obtain ⟨_, _, ⟨⟩, h₂⟩ := run_bind_ok.1 h₁
    exact .trans (.written (.pushed _ _) _) ((rest (.pure _)).evolves _ _ _ h₂)
  · split
    · exact rest (.pure chain)
    · exact .bind .pushSkip fun skip => rest (.bind (.resolveHere skip) fun _ => .pure chain)

theorem closeChain (chain : IfChain) : Slotless (Lower.closeChain chain) := by
  refine ⟨.bind .get fun _ => .bind (.lift _) fun _ => .modifyList _, fun s a t h => ?_⟩
  obtain ⟨_, _, ⟨⟩, h₁⟩ := run_bind_ok.1 h
  obtain ⟨l, u, h₂, h₃⟩ := run_bind_ok.1 h₁
  obtain ⟨resolved, rfl⟩ := run_lift_ok.1 h₂
  cases h₃
  exact .written (.resolvedAll resolved) _

end Slotless

end Lower

end SkipCode
