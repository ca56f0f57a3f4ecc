import SkipCode.Proofs.LoopSteps
import SkipCode.Proofs.Slotless

/-!
# Failures without a position

An error gets the position of a statement where it leaves the statement, unless it has one already.
So what fails outside of all statements, in a look-up, a pool, a block or the storage of instances,
has to fail without a position (`Unplaced`); then the first statement that the error leaves is the
innermost one. The same is said of the steps on blocks and on the storage (`Attempt.Unplaced`), and
of the steps of lowering that have no statement inside (`Lower.Unplaced`).
-/

namespace SkipCode

/-! ## Values -/

/-- Fails only without a position. -/
def Unplaced {α : Type} (x : Except LowerError α) : Prop := ∀ e, x = .error e → e.span = none

namespace Unplaced

variable {α β : Type}

theorem pure (a : α) : Unplaced (Pure.pure a : Except LowerError α) := by
  intro e h
  cases h

theorem ok (a : α) : Unplaced (.ok a) := pure a

theorem defect (d : Defect) : Unplaced (.error (.defect d) : Except LowerError α) := by
  rintro _ ⟨⟩
  rfl

theorem unsupported (c : Unsupported) :
    Unplaced (.error (.unsupported c) : Except LowerError α) := by
  rintro _ ⟨⟩
  rfl

theorem exhausted (pool : Pool) (capacity : UInt32) (owner : String) :
    Unplaced (.error (.exhausted pool capacity owner) : Except LowerError α) := by
  rintro _ ⟨⟩
  rfl

/-- Parts that have no place have none together. -/
theorem bind {x : Except LowerError α} {f : α → Except LowerError β} (hx : Unplaced x)
    (hf : ∀ a, Unplaced (f a)) : Unplaced (x >>= f) := by
  cases x with
  | error e =>
    rintro _ ⟨⟩
    exact hx e rfl
  | ok a => exact hf a

/-- With these rules errors without a place are put together. -/
theorem composes : Composes (Except LowerError) Unplaced := ⟨pure, bind⟩

/-! ### Look-ups -/

variable {t : ClassTable}

/-- A class that is not there is reported without a place. -/
theorem layout (className : String) : Unplaced (t.layout className) := by
  unfold ClassTable.layout
  split
  · exact ok _
  · exact defect _

theorem decl (className : String) : Unplaced (t.decl className) := by
  unfold ClassTable.decl
  split
  · exact ok _
  · exact defect _

/-- So is one on the way up to the root. -/
theorem walkUp (className : String) :
    Unplaced (t.walkUp className) := bind (layout _) fun _ => pure _

theorem allFields (className : String) : Unplaced (t.allFields className) :=
  bind (layout _) fun _ => bind (composes.mapM fun _ _ => bind (layout _) fun _ =>
    pure _) fun _ => pure _

theorem fieldDecl (slot : FieldSlot) : Unplaced (t.fieldDecl slot) := by
  refine bind (decl _) fun _ => ?_
  split
  · exact pure _
  · exact defect _

/-- A field is looked for on the whole chain, and where it is missing that has no place. -/
theorem findField (className field : String) : Unplaced (t.findField className field) := by
  refine bind (layout _) fun _ => bind (composes.mapM fun _ _ => layout _) fun _ => ?_
  split
  · exact pure _
  · exact defect _

theorem findStatic (className field : String) : Unplaced (t.findStatic className field) := by
  refine bind (walkUp _) fun _ => ?_
  dsimp only
  split
  · exact pure _
  · exact defect _

/-- The same for a method. -/
theorem findMethod (className method : String) : Unplaced (t.findMethod className method) := by
  refine bind (walkUp _) fun _ => ?_
  dsimp only
  split
  · exact pure _
  · exact defect _

/-- The same for a constructor. -/
theorem constructor (className : String) (index : Nat) :
    Unplaced (t.constructor className index) := by
  refine bind (decl _) fun _ => ?_
  split
  · exact pure _
  · split
    · exact pure _
    · exact defect _

/-- The same for a function of the program. -/
theorem findFunction (σ : Session) (name : String) : Unplaced (σ.findFunction name) := by
  unfold Session.findFunction
  split
  · exact ok _
  · exact defect _

/-- What fields start with is found without a place. -/
theorem fieldInitials (className : String) : Unplaced (Lower.fieldInitials t className) :=
  bind (allFields _) fun _ => composes.mapM fun _ _ => bind (fieldDecl _) fun _ => pure _

/-! ### Slots and variables -/

/-- A refused slot is reported without a place, which is noted by whoever asked for it. -/
theorem allocate (p : SlotPool) (owner : String) : Unplaced (p.allocate owner) := by
  unfold SlotPool.allocate
  split
  · exact ok _
  · split
    · exact ok _
    · exact exhausted _ _ _

/-- A slot that is given back twice is a defect without a place. -/
theorem release (p : SlotPool) (slot : UInt32) : Unplaced (p.release slot) := by
  unfold SlotPool.release
  split
  · exact ok _
  · split
    · exact defect _
    · split
      · exact defect _
      · exact ok _

theorem setFor (v : Variable) (name : String) (value : Element) (actor : Option Element)
    (extra : List Element) : Unplaced (v.setFor name value actor extra) := by
  cases v with
  | indexed v => exact ok _
  | recursive v => exact ok _
  | reference e => exact unsupported _

/-- A stack that is popped more often than pushed is one, too. -/
theorem exit (v : RecursiveVar) (actor : Option Element) : Unplaced (v.exit actor) := by
  unfold RecursiveVar.exit
  split
  · exact defect _
  · exact ok _

/-! ### Lists, conditionals and loops -/

/-- A position that does not wait is a defect without a place. -/
theorem resolveHere (l : ActionList) (position : Nat) : Unplaced (l.resolveHere position) := by
  unfold ActionList.resolveHere ActionList.resolve
  split
  · exact defect _
  · split
    · exact defect _
    · exact defect _
    · exact ok _

/-- So is one among several. -/
theorem resolveAllHere (l : ActionList) (positions : List Nat) :
    Unplaced (l.resolveAllHere positions) := by
  unfold ActionList.resolveAllHere
  induction positions generalizing l with
  | nil => exact pure _
  | cons p rest ih => exact bind (resolveHere l p) ih

/-- A block in another stage than is needed is a defect without a place. -/
theorem expectStage (actual expected : Stage) (step : String) :
    Unplaced (expectStage actual expected step) := by
  unfold SkipCode.expectStage
  split
  · exact ok _
  · exact defect _

theorem setup (b : IfBlock) (condition : Element) (l : ActionList) :
    Unplaced (b.setup condition l) :=
  bind (expectStage _ _ _) fun _ => pure _

theorem finish (b : IfBlock) (l : ActionList) : Unplaced (b.finish l) := by
  refine bind (expectStage _ _ _) fun _ => ?_
  split
  · exact defect _
  · exact bind (resolveHere _ _) fun _ => pure _

/-- A loop that is closed twice is one. -/
theorem pop (loops : LoopStack) : Unplaced loops.pop := by
  unfold LoopStack.pop
  split
  · exact ok _
  · exact defect _

/-- A loop that an exit does not find is refused without a place; its statement adds it. -/
theorem loopFrame (loops : LoopStack) (depth : UInt32) (floor : Nat) (exit : String) :
    Unplaced (loops.frame depth floor exit) := by
  unfold LoopStack.frame
  split
  · split
    · exact ok _
    · exact unsupported _
  · exact unsupported _

theorem exitCondition (kind : LoopKind) (condition : Option Element) :
    Unplaced (LoopBlock.exitCondition kind condition) := by
  unfold LoopBlock.exitCondition
  split
  · exact ok _
  · exact defect _
  · exact ok _
  · exact defect _

end Unplaced

/-! ## Attempts -/

/-- Fails only without a position. -/
def Attempt.Unplaced {σ α : Type} (m : Attempt σ α) : Prop :=
  ∀ s e t, Attempt.run m s = (.error e, t) → e.span = none

namespace Attempt.Unplaced

variable {σ α β : Type}

/-- A value that is given back is no error. -/
theorem pure (a : α) : Attempt.Unplaced (Pure.pure a : Attempt σ α) := by
  intro _ e t h
  cases h

/-- Steps without places have none together. -/
theorem bind {m : Attempt σ α} {f : α → Attempt σ β} (hm : Attempt.Unplaced m)
    (hf : ∀ a, Attempt.Unplaced (f a)) : Attempt.Unplaced (m >>= f) := by
  intro s e t h
  rw [Attempt.run_bind] at h
  split at h
  · next a u _ => exact hf a u e t h
  · next e' u failed =>
    cases h
    exact hm s _ _ failed

/-- With these rules steps of a state are put together. -/
theorem composes : Composes (Attempt σ) Attempt.Unplaced := ⟨pure, bind⟩

theorem get : Attempt.Unplaced (MonadState.get : Attempt σ σ) := by
  intro _ e t h
  cases h

theorem set (s : σ) : Attempt.Unplaced (MonadStateOf.set s : Attempt σ PUnit) := by
  intro _ e t h
  cases h

theorem modify (f : σ → σ) : Attempt.Unplaced (modify f : Attempt σ PUnit) := by
  intro _ e t h
  cases h

/-- What is lifted has no place if it has none on its own. -/
theorem lift {x : Except LowerError α} (hx : SkipCode.Unplaced x) :
    Attempt.Unplaced (liftM x : Attempt σ α) := by
  intro s e t h
  rw [Attempt.run_lift] at h
  cases h
  exact hx e rfl

theorem defect (d : Defect) : Attempt.Unplaced (throw (.defect d) : Attempt σ α) := by
  intro s e t h
  cases h
  rfl

/-- A step that is taken in one case only, before what comes in both. -/
theorem ifFirst {p : Prop} [Decidable p] {m : Attempt σ PUnit} {f : PUnit → Attempt σ α}
    (hm : Attempt.Unplaced m) (hf : Attempt.Unplaced (f ⟨⟩)) :
    Attempt.Unplaced (if p then m >>= f else f ⟨⟩) := by
  split
  · exact bind hm fun _ => hf
  · exact hf

end Attempt.Unplaced

namespace LoopBlock

open Attempt.Unplaced

/-- The check of the stage has no place. -/
theorem unplaced_expect (stage : Stage) (step : String) : Attempt.Unplaced (expect stage step) :=
  bind get fun _ => lift (.expectStage _ _ _)

theorem unplaced_setIndex (value : Element → Element) : Attempt.Unplaced (setIndex value) := by
  refine bind get fun x => ?_
  dsimp only
  split
  · exact bind (lift (.setFor _ _ _ _ _)) fun _ => modify _
  · exact pure _

/-- Nor has the end of the exits of a loop. -/
theorem unplaced_resolveAllHere (positions : List Nat) :
    Attempt.Unplaced (resolveAllHere positions) :=
  composes.forM fun _ _ => bind get fun _ => bind (lift (.resolveHere _ _)) fun _ => set _

/-- Setting up a loop has no place. -/
theorem unplaced_setup (depth : Nat) : Attempt.Unplaced (setup depth) :=
  bind (unplaced_expect _ _) fun _ => bind (unplaced_setIndex _) fun _ => modify _

/-- Nor has its guard. -/
theorem unplaced_guard (condition : Option Element) : Attempt.Unplaced (guard condition) :=
  bind (unplaced_expect _ _) fun _ => bind get fun _ => bind (lift (.exitCondition _ _)) fun _ =>
    modify _

/-- Its epilogue has none. -/
theorem unplaced_epilogue : Attempt.Unplaced epilogue := by
  have take : Attempt.Unplaced takeFrame :=
    bind get fun _ => bind (lift (.pop _)) fun _ => bind (set _) fun _ => pure _
  refine bind (unplaced_expect _ _) fun _ => bind take fun frame => bind get fun _ => ?_
  exact ifFirst (defect _) (bind (unplaced_resolveAllHere _) fun _ => modify _)

/-- Nor has its end. -/
theorem unplaced_finish (tail : List Action) : Attempt.Unplaced (finish tail) := by
  refine bind get fun x => ifFirst unplaced_epilogue ?_
  refine bind (unplaced_expect _ _) fun _ => bind (unplaced_setIndex _) fun _ =>
    bind get fun x => ?_
  dsimp only
  refine bind (modify _) fun _ => ?_
  split
  · exact defect _
  · exact bind (modify _) fun _ => bind (unplaced_resolveAllHere _) fun _ =>
      bind (modify _) fun _ =>
      bind (modify _) fun _ => bind (unplaced_resolveAllHere _) fun _ => modify _

end LoopBlock

namespace ClassStorage

open Attempt.Unplaced

/-- A slot of the storage that is refused has no place. -/
theorem unplaced_allocate (owner : String) : Attempt.Unplaced (allocate owner) :=
  bind get fun _ => bind (lift (.allocate _ _)) fun _ => bind (set _) fun _ => pure _

theorem unplaced_handleTable : Attempt.Unplaced handleTable := by
  refine bind get fun _ => ?_
  split
  · exact pure _
  · exact bind (unplaced_allocate _) fun _ => bind (modify _) fun _ => pure _

theorem unplaced_fieldStack (index : Nat) : Attempt.Unplaced (fieldStack index) := by
  refine bind get fun _ => ?_
  dsimp only
  split
  · exact pure _
  · exact ifFirst (defect _) (bind (unplaced_allocate _) fun _ => bind (modify _) fun _ => pure _)

theorem unplaced_prepare (layout : ClassLayout) : Attempt.Unplaced (prepare layout) :=
  composes.forM fun _ _ => composes.map _ (unplaced_fieldStack _)

theorem unplaced_staticField (className field : String) :
    Attempt.Unplaced (staticField className field) := by
  refine bind get fun _ => ?_
  split
  · exact pure _
  · exact bind (unplaced_allocate _) fun _ => bind (modify _) fun _ => pure _

/-- Taking a handle has no place. -/
theorem unplaced_acquireHandle (config : LowerConfig) (handle : Variable) :
    Attempt.Unplaced (acquireHandle config handle) := by
  have rest (next : List Action) : Attempt.Unplaced (do
      emit next
      emit [.skipIf (.compare handle.get .less (.ofNat config.classCapacity.toNat))
        (some 1), .abort]
      emit ((← handleTable).set (.ofNat 1) none [handle.get])) :=
    bind (modify _) fun _ => bind (modify _) fun _ => bind unplaced_handleTable fun _ => modify _
  refine bind unplaced_handleTable fun _ => bind (lift (.setFor _ _ _ _ _)) fun next => ?_
  dsimp only
  split
  · exact bind (lift (.setFor _ _ _ _ _)) fun _ => bind (modify _) fun _ => bind (modify _) fun _ =>
      rest next
  · exact rest next

/-- Nor has giving up an instance. -/
theorem unplaced_release (classes : ClassTable) (className : String) (handle : Element) :
    Attempt.Unplaced (release classes className handle) :=
  bind (lift (.layout _)) fun _ => bind (unplaced_prepare _) fun _ =>
    bind (lift (.allFields _)) fun _ =>
    bind (composes.forIn (fun _ _ => bind (unplaced_fieldStack _) fun _ => bind (modify _) fun _ =>
      pure _) _ _)
      fun _ => bind unplaced_handleTable fun _ => modify _

end ClassStorage

/-! ## Steps of lowering -/

namespace Lower

variable {α β γ : Type}

/-- Fails only without a position. -/
def Unplaced (m : Lower α) : Prop := ∀ s e t, run m s = some (.error e, t) → e.span = none

namespace Unplaced

theorem pure (a : α) : Unplaced (Pure.pure a : Lower α) := by
  intro _ e t h
  cases h

theorem bind {m : Lower α} {f : α → Lower β} (hm : Unplaced m) (hf : ∀ a, Unplaced (f a)) :
    Unplaced (m >>= f) := by
  intro s e t h
  obtain ⟨_, failed, ⟨⟩⟩ | ⟨a, u, -, failed⟩ := run_bind_cases h
  · exact hm s e t failed
  · exact hf a u e t failed

/-- With these rules lowering is put together. -/
theorem composes : Composes Lower Unplaced := ⟨pure, bind⟩

theorem get : Unplaced (MonadState.get : Lower UnitState) := by
  intro _ e t h
  cases h

theorem set (s : UnitState) : Unplaced (MonadStateOf.set s : Lower PUnit) := by
  intro _ e t h
  cases h

theorem modify (f : UnitState → UnitState) : Unplaced (modify f : Lower PUnit) := by
  intro _ e t h
  cases h

theorem defect (d : Defect) : Unplaced (throw (.defect d) : Lower α) := by
  intro s e t h
  cases h
  rfl

theorem unsupported (c : Unsupported) : Unplaced (throw (.unsupported c) : Lower α) := by
  intro s e t h
  cases h
  rfl

theorem lift {x : Except LowerError α} (hx : SkipCode.Unplaced x) :
    Unplaced (liftM x : Lower α) := by
  intro s e t h
  rw [run_lift] at h
  cases h
  exact hx e rfl

/-- A step on the storage has no place in the unit. -/
theorem onStorage {m : ClassStorage.Step α} (hm : Attempt.Unplaced m) :
    Unplaced (Lower.onStorage m) := by
  intro s e t h
  rw [run_onStorage] at h
  cases ran : Attempt.run m ⟨s.session.classData, s.session.global, s.list⟩ with
  | mk r storage =>
    rw [ran] at h
    cases h
    exact hm _ _ _ ran

/-- Nor has a step of a loop. -/
theorem onLoop {m : LoopBlock.Step Unit} (hm : Attempt.Unplaced m) (block : LoopBlock) :
    Unplaced (Lower.onLoop block m) := by
  intro s e t h
  rw [run_onLoop] at h
  cases ran : Attempt.run m (block, ⟨s.list, s.loops⟩) with
  | mk r last =>
    rw [ran] at h
    cases r with
    | error e' =>
      cases h
      exact hm _ _ _ ran
    | ok _ => cases h

/-! ### What only looks -/

/-- A name that means nothing is reported by its statement. -/
theorem lookup (name : String) : Unplaced (Lower.lookup name) := by
  refine bind get fun s => ?_
  dsimp only
  split
  · exact pure _
  · exact defect _

theorem frame : Unplaced Lower.frame := by
  refine bind get fun _ => ?_
  split
  · exact pure _
  · exact defect _

theorem actorVar (name : String) : Unplaced (Lower.actorVar name) := by
  refine bind (lookup name) fun _ => ?_
  split
  · exact pure _
  · exact unsupported _

/-- So is a call that means nothing. -/
theorem resolveCallee (className : Option String) (method : String) :
    Unplaced (Lower.resolveCallee className method) := by
  refine bind get fun _ => ?_
  cases className with
  | none => exact bind (lift (.findFunction _ _)) fun _ => pure _
  | some className => exact bind (lift (.findMethod _ _)) fun _ => pure _

/-- So is one with another number of arguments. -/
theorem checkArity (callee : Callee) (arguments : Nat) :
    Unplaced (Lower.checkArity callee arguments) := by
  unfold Lower.checkArity
  split
  · exact defect _
  · exact pure _

/-! ### What writes -/

theorem emit (actions : List Action) : Unplaced (Lower.emit actions) := modify _

theorem pushSkip :
    Unplaced Lower.pushSkip :=
      bind (bind get fun _ => pure _) fun _ => bind (modify _) fun _ => pure _

theorem resolveHere (position : Nat) : Unplaced (Lower.resolveHere position) :=
  bind get fun _ => bind (lift (.resolveHere _ _)) fun _ => modify _

theorem unwindTo (depth : Nat) : Unplaced (Lower.unwindTo depth) := bind get fun _ => emit _

theorem hiddenName (what : String) : Unplaced (Lower.hiddenName what) :=
  bind (modify _) fun _ => bind get fun _ => pure _

theorem modifyScope (f : Scope → Scope) : Unplaced (Lower.modifyScope f) := by
  refine bind get fun _ => ?_
  split
  · exact set _
  · exact defect _

theorem allocate (owner : String) : Unplaced (Lower.allocate owner) := by
  refine bind get fun _ => ?_
  split
  · exact bind (set _) fun _ => bind (modifyScope _) fun _ => pure _
  · exact bind (set _) fun _ => pure _

/-- A scope is closed without a place. -/
theorem closeScope : Unplaced Lower.closeScope := by
  refine bind get fun _ => ?_
  split
  · exact defect _
  · exact bind (set _) fun _ => bind (composes.forM fun _ _ => bind (lift (.exit _ _)) fun _ =>
      emit _) fun _ =>
      composes.forM fun _ _ => bind get fun _ => bind (lift (.release _ _)) fun _ => set _

/-! ### Bodies and regions -/

/-- So is a frame. -/
theorem closeFrame : Unplaced Lower.closeFrame := by
  refine bind get fun _ => ?_
  split
  · exact defect _
  · exact bind (set _) fun _ => composes.forM fun _ _ => resolveHere _

theorem popRegion : Unplaced Lower.popRegion := by
  refine bind get fun _ => ?_
  split
  · exact bind (set _) fun _ => pure _
  · exact defect _

/-- The end of a region is written without a place. -/
theorem dispatch (address : IndexedVar) (number : Nat) (sites : List Nat) :
    Unplaced (Lower.dispatch address number sites) := by
  induction sites generalizing number with
  | nil => exact pure _
  | cons site rest ih => exact bind (emit _) fun _ => bind (modify _) fun _ => ih (number + 1)

theorem callRegion (index : Nat) (region : Region) (receiver : Option Element)
    (arguments : List Element) :
    Unplaced (Lower.callRegion index region receiver arguments) := by
  intro s e t h
  rw [run_callRegion] at h
  cases h

theorem addReturn (skip : Nat) : Unplaced (Lower.addReturn skip) := by
  refine bind get fun _ => ?_
  split
  · exact set _
  · exact defect _

/-- A return that has nothing to return to is refused without a place. -/
theorem leaveFrame (value : Option Element) : Unplaced (Lower.leaveFrame value) := by
  have rest (depth : Nat) : Unplaced (do
      Lower.unwindTo depth
      Lower.addReturn (← Lower.pushSkip)) :=
    bind (unwindTo _) fun _ => bind pushSkip fun _ => addReturn _
  refine bind frame fun _ => ?_
  dsimp only
  split
  · exact bind (emit _) fun _ => rest _
  · exact rest _

/-! ### Conditionals and loops -/

/-- An exit has none of its own. -/
theorem leaveLoop {depth : UInt32} {exit : String}
    {wait : LoopStack → (floor skip : Nat) → Except LowerError LoopStack}
    (waits : ∀ loops floor skip, SkipCode.Unplaced (wait loops floor skip)) :
    Unplaced (Lower.leaveLoop depth exit wait) :=
  bind frame fun _ => bind get fun _ => bind (lift (.loopFrame _ _ _ _)) fun _ =>
    bind (unwindTo _) fun _ =>
    bind pushSkip fun _ => bind get fun _ => bind (lift (waits _ _ _)) fun _ => modify _

/-- The blocks of branches are closed without a place. -/
theorem closeArm (block : IfBlock) (tail : List Action) (chain : IfChain) (more : Bool) :
    Unplaced (Lower.closeArm block tail chain more) := by
  have rest {last : Lower IfChain} (hlast : Unplaced last) : Unplaced (do
      let finished ← (block.finish (← MonadState.get).list : Except LowerError _)
      Lower.modifyList fun _ => finished.2
      Lower.emit tail
      last) :=
    bind get fun _ => bind (lift (.finish _ _)) fun _ => bind (modify _) fun _ =>
      bind (emit _) fun _ => hlast
  unfold Lower.closeArm
  dsimp only
  split
  · exact bind get fun _ => bind (modify _) fun _ => rest (pure _)
  · split
    · exact rest (pure _)
    · exact bind pushSkip fun skip => rest (bind (resolveHere skip) fun _ => pure _)

theorem closeChain (chain : IfChain) : Unplaced (Lower.closeChain chain) :=
  bind get fun _ => bind (lift (.resolveAllHere _ _)) fun _ => modify _

/-- So are those of loops. -/
theorem closeLoop (block : LoopBlock) (tail : List Action) :
    Unplaced (Lower.closeLoop block tail) :=
  composes.map _ (onLoop (LoopBlock.unplaced_finish tail) block)

end Unplaced

end Lower

end SkipCode
