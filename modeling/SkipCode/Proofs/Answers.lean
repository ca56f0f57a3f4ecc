import SkipCode.Proofs.Visits

/-!
# Steps that give an answer

Lowering has no answer at all where the expansion of a program has no end. Every step that expands
no body has one (`Lower.Answers`), whatever the state. A step that does expand bodies has one at
some places and not at others, so what is said of it is said of a place: of the bodies and regions
that are open there and of the program, which is what the surroundings come to when no name is
looked at (`Surroundings.site`).

* `Lower.Brings`: at every state of one site a step has an answer, and leaves the state at another
  site unless it fails.
-/

namespace SkipCode

open Lower
open Source (Expr Stmt)

namespace Surroundings

/-- The bodies and the regions that are open at a place, and the program. -/
def site (v : Surroundings) : Surroundings := { v with scopes := [] }

/-- The site is the same outside a scope. -/
@[simp] theorem site_outside (v : Surroundings) : v.outside.site = v.site := rfl

@[simp] theorem site_opened (v : Surroundings) : v.opened.site = v.site := rfl

/-- A frame that is entered is so at the site. -/
@[simp] theorem site_entered (v : Surroundings) (frame : Frame) :
    (v.entered frame).site = v.site.entered frame := rfl

@[simp] theorem site_within (v : Surroundings) (region : Region) :
    (v.within region).site = v.site.within region := rfl

@[simp] theorem site_left (v : Surroundings) : v.left.site = v.site.left := rfl

@[simp] theorem site_without (v : Surroundings) : v.without.site = v.site.without := rfl

/-- A body that is entered and left is where it was. -/
@[simp] theorem left_entered (v : Surroundings) (frame : Frame) : (v.entered frame).left = v := rfl

end Surroundings

namespace Lower

variable {α β γ : Type}

/-! ## Anywhere -/

/-- A step that gives an answer in every state. -/
def Answers (m : Lower α) : Prop := ∀ s, ∃ r t, run m s = some (r, t)

namespace Answers

/-- What is computed from the state answers. -/
theorem of_run {m : Lower α} {f : UnitState → Except LowerError α × UnitState}
    (h : ∀ s, run m s = some (f s)) : Answers m := fun s => ⟨(f s).1, (f s).2, h s⟩

theorem pure (a : α) : Answers (Pure.pure a : Lower α) := .of_run fun _ => rfl

theorem throw (e : LowerError) : Answers (MonadExcept.throw e : Lower α) := .of_run fun _ => rfl

theorem get : Answers (MonadState.get : Lower UnitState) := .of_run fun _ => rfl

theorem set (s : UnitState) : Answers (MonadState.set s : Lower PUnit) := .of_run fun _ => rfl

theorem change (f : UnitState → UnitState) :
    Answers (modify f : Lower PUnit) := .of_run fun _ => rfl

theorem lift (x : Except LowerError α) : Answers (liftM x : Lower α) := .of_run (run_lift x)

/-- Steps that answer do so together. -/
theorem bind {m : Lower α} {f : α → Lower β} (hm : Answers m) (hf : ∀ a, Answers (f a)) :
    Answers (m >>= f) := by
  intro s
  obtain ⟨r, t, ran⟩ := hm s
  rw [run_bind, ran]
  cases r with
  | error e => exact ⟨.error e, t, rfl⟩
  | ok a => exact hf a t

/-- With these rules steps are put together that answer. -/
theorem composes : Composes Lower Answers := ⟨pure, bind⟩

/-- The storage always answers. -/
theorem onStorage (m : ClassStorage.Step α) :
    Answers (Lower.onStorage m) := .of_run (run_onStorage m)

/-- So do loops. -/
theorem onLoop (block : LoopBlock) (m : LoopBlock.Step Unit) : Answers (Lower.onLoop block m) :=
  .of_run fun _ => rfl

/-- So does the list. -/
theorem modifyList (f : ActionList → ActionList) : Answers (Lower.modifyList f) := change _

theorem emit (actions : List Action) : Answers (Lower.emit actions) := modifyList _

theorem position : Answers Lower.position := .bind .get fun _ => .pure _

theorem pushSkip :
    Answers Lower.pushSkip := .bind .position fun _ => .bind (.modifyList _) fun _ => .pure _

theorem resolveHere (position : Nat) : Answers (Lower.resolveHere position) :=
  .bind .get fun _ => .bind (.lift _) fun _ => .modifyList _

/-! ### Scopes and frames -/

theorem openScope : Answers Lower.openScope := change _

theorem modifyScope (f : Scope → Scope) : Answers (Lower.modifyScope f) := by
  refine .bind .get fun s => ?_
  split
  · exact .set _
  · exact .throw _

theorem bindName (name : String) (v : Variable) : Answers (Lower.bind name v) := modifyScope _

/-- A scope that is closed answers, also where a slot of it cannot be given back. -/
theorem closeScope : Answers Lower.closeScope := by
  have freed (pool : Pool) (slot : UInt32) : Answers (freeSlot pool slot) :=
    .bind .get fun _ => .bind (.lift _) fun _ => .set _
  refine .bind .get fun s => ?_
  split
  · exact .throw _
  · refine .bind (.set _) fun _ => .bind (composes.forM fun var _ => ?_) fun _ =>
      composes.forM fun owned _ => freed owned.1 owned.2
    exact .bind (.lift _) fun _ => .emit _

theorem unwindTo (depth : Nat) : Answers (Lower.unwindTo depth) := .bind .get fun _ => .emit _

theorem lookup (name : String) : Answers (Lower.lookup name) := by
  refine .bind .get fun s => ?_
  dsimp only
  split
  · exact .pure _
  · exact .throw _

theorem hiddenName (what : String) :
    Answers (Lower.hiddenName what) := .of_run (run_hiddenName what)

/-- A slot that is asked for is given or refused. -/
theorem allocate (owner : String) : Answers (Lower.allocate owner) := by
  refine .bind .get fun s => ?_
  split
  · exact .bind (.set _) fun _ => .bind (.modifyScope _) fun _ => .pure _
  · exact .bind (.set _) fun _ => .pure _

theorem addSymbol (name : String) (slot : UInt32) (stacked : Bool) :
    Answers (Lower.addSymbol name slot stacked) := change _

theorem temp (what : String) : Answers (Lower.temp what) :=
  .bind (.hiddenName _) fun _ => .bind (.allocate _) fun _ => .bind (.addSymbol _ _ _) fun _ =>
    .bind .get fun _ => .pure _

theorem declareStack (name : String) (initial : Option Element) :
    Answers (Lower.declareStack name initial) :=
  .bind (.allocate _) fun _ => .bind (.addSymbol _ _ _) fun _ => .bind .get fun _ =>
    .bind (.emit _) fun _ =>
    .bind (.modifyScope _) fun _ => .bind (.bindName _ _) fun _ => .pure _

theorem declarePlain (name : String) (initial : Option Element) :
    Answers (Lower.declarePlain name initial) := by
  refine .bind (.allocate _) fun _ => .bind (.addSymbol _ _ _) fun _ => .bind .get fun _ => ?_
  cases initial with
  | none => exact .bind (.bindName _ _) fun _ => .pure _
  | some value => exact .bind (.emit _) fun _ => .bind (.bindName _ _) fun _ => .pure _

/-- With these rules all that declares answers. -/
theorem rules : DeclareRules Answers where
  toComposes := composes
  get := get
  hiddenName := hiddenName
  temp := temp
  bindReference name _ := bindName name _
  declareStack := declareStack
  declarePlain := declarePlain

theorem frame : Answers Lower.frame := by
  refine .bind .get fun s => ?_
  split
  · exact .pure _
  · exact .throw _

/-- A frame that is closed answers, also where there is none. -/
theorem closeFrame : Answers Lower.closeFrame := by
  refine .bind .get fun s => ?_
  split
  · exact .throw _
  · exact .bind (.set _) fun _ => composes.forM fun _ _ => .resolveHere _

theorem popRegion : Answers Lower.popRegion := by
  refine .bind .get fun s => ?_
  split
  · exact .bind (.set _) fun _ => .pure _
  · exact .throw _

/-! ### Expressions -/

theorem fieldVar (className field : String) (handle : Element) :
    Answers (Lower.fieldVar className field handle) :=
  .bind .get fun _ => .bind (.lift _) fun _ => .bind (.lift _) fun _ =>
    .bind (.onStorage _) fun _ =>
    .bind (.onStorage _) fun _ => .pure _

theorem staticVar (className field : String) : Answers (Lower.staticVar className field) :=
  .bind .get fun _ => .bind (.lift _) fun _ => .onStorage _

theorem actorVar (name : String) : Answers (Lower.actorVar name) := by
  refine .bind (.lookup name) fun v => ?_
  split
  · exact .pure _
  · exact .throw _

/-- A call is resolved or refused. -/
theorem resolveCallee (className : Option String) (method : String) :
    Answers (Lower.resolveCallee className method) := by
  cases className with
  | none => exact .bind .get fun _ => .bind (.lift _) fun _ => .pure _
  | some className => exact .bind .get fun _ => .bind (.lift _) fun _ => .pure _

theorem checkArity (callee : Callee) (arguments : Nat) :
    Answers (Lower.checkArity callee arguments) := by
  unfold Lower.checkArity
  split
  · exact .throw _
  · exact .pure _

/-- A call from inside a region answers. -/
theorem callRegion (index : Nat) (region : Region) (receiver : Option Element)
    (arguments : List Element) :
    Answers (Lower.callRegion index region receiver arguments) :=
  .of_run (run_callRegion index region receiver arguments)

/-- So does the end of the region. -/
theorem dispatch (address : IndexedVar) (number : Nat) (sites : List Nat) :
    Answers (Lower.dispatch address number sites) := by
  induction sites generalizing number with
  | nil => exact .pure _
  | cons site rest ih =>
    exact .bind (.emit _) fun _ => .bind (.modifyList _) fun _ => ih (number + 1)

/-! ### Statements -/

theorem closeCondition : Answers Lower.closeCondition :=
  .bind .get fun _ => .bind .closeScope fun _ => .pure _

theorem closeArm (block : IfBlock) (tail : List Action) (chain : IfChain) (more : Bool) :
    Answers (Lower.closeArm block tail chain more) := by
  have rest {last : Lower IfChain} (hlast : Answers last) : Answers (do
      let finished ← (block.finish (← MonadState.get).list : Except LowerError _)
      Lower.modifyList fun _ => finished.2
      Lower.emit tail
      last) :=
    .bind .get fun _ => .bind (.lift _) fun _ => .bind (.modifyList _) fun _ =>
      .bind (.emit _) fun _ => hlast
  unfold Lower.closeArm
  dsimp only
  split
  · exact .bind .get fun _ => .bind (.modifyList _) fun _ => rest (.pure _)
  · split
    · exact rest (.pure chain)
    · exact .bind .pushSkip fun skip => rest (.bind (.resolveHere skip) fun _ => .pure chain)

/-- So does the end of a chain of branches. -/
theorem closeChain (chain : IfChain) : Answers (Lower.closeChain chain) :=
  .bind .get fun _ => .bind (.lift _) fun _ => .modifyList _

/-- So does the end of a loop. -/
theorem closeLoop (block : LoopBlock) (tail : List Action) : Answers (Lower.closeLoop block tail) :=
  composes.map _ (.onLoop _ _)

theorem openForEach (index : Option String) (array : Element) :
    Answers (Lower.openForEach index array) := by
  have rest (name : String) : Answers (openForEachAt name array) := by
    refine .bind (rules.declare _ _ _) fun _ => .bind .get fun _ => .bind (.onLoop _ _) fun _ =>
      .bind (.onLoop _ _) fun _ => ?_
    split
    · exact .pure _
    · exact .throw _
  cases index with
  | none => exact .bind (.hiddenName _) fun name => rest name
  | some name => exact rest name

/-- An exit answers, whether there is a loop for it or not. -/
theorem leaveLoop (depth : UInt32) (exit : String)
    (wait : LoopStack → (floor skip : Nat) → Except LowerError LoopStack) :
    Answers (Lower.leaveLoop depth exit wait) :=
  .bind .frame fun _ => .bind .get fun _ => .bind (.lift _) fun _ => .bind (.unwindTo _) fun _ =>
    .bind .pushSkip fun _ => .bind .get fun _ => .bind (.lift _) fun _ => .change _

/-- So does a return. -/
theorem leaveFrame (value : Option Element) : Answers (Lower.leaveFrame value) := by
  have added (skip : Nat) : Answers (addReturn skip) := by
    refine .bind .get fun s => ?_
    split
    · exact .set _
    · exact .throw _
  have left (depth : Nat) : Answers (do
      Lower.unwindTo depth
      addReturn (← Lower.pushSkip)) :=
    .bind (.unwindTo _) fun _ => .bind .pushSkip fun _ => added _
  refine .bind .frame fun frame => ?_
  split
  · exact .bind (.emit _) fun _ => left _
  · exact left _

/-- The end of a unit answers with its list or with what is wrong. -/
theorem finish : Answers Lower.finish := by
  refine .bind .get fun s => ?_
  dsimp only
  split
  · refine .bind (.throw _) fun _ => ?_
    split
    · exact .pure _
    · exact .throw _
  · split
    · exact .pure _
    · exact .throw _

end Answers

/-- What surrounds a unit at its end stays put. -/
theorem StaysPut.finish : StaysPut Lower.finish := by
  refine .bind .get fun s => ?_
  dsimp only
  split
  · refine .bind (.throw _) fun _ => ?_
    split
    · exact .pure _
    · exact .throw _
  · split
    · exact .pure _
    · exact .throw _

/-! ## At a site -/

/-- At every state of one site a step gives an answer, and leaves the state at the other site unless
it fails. -/
def Brings (v w : Surroundings) (m : Lower α) : Prop :=
  ∀ s, s.surroundings.site = v → ∃ r t, run m s = some (r, t) ∧ ∀ a, r = .ok a →
    t.surroundings.site = w

namespace Brings

variable {u v w : Surroundings}

/-- A step that answers and moves brings from the one site to the other. -/
theorem moves {f : Surroundings → Surroundings} {m : Lower α} (answers : Answers m)
    (moves : Moves f m) (lands : ∀ x : Surroundings, x.site = v → (f x).site = w) :
    Brings v w m := by
  intro s here
  obtain ⟨r, t, ran⟩ := answers s
  refine ⟨r, t, ran, fun a ok => ?_⟩
  subst ok
  rw [moves s a t ran, lands _ here]

/-- One that stays in its scope stays at its site. -/
theorem inScope_of {m : Lower α} (answers : Answers m) (stays : StaysInScope m) : Brings v v m := by
  intro s here
  obtain ⟨r, t, ran⟩ := answers s
  refine ⟨r, t, ran, fun a ok => ?_⟩
  subst ok
  rw [← here, ← Surroundings.site_outside, stays s a t ran, Surroundings.site_outside]

/-- One that stays put does, too. -/
theorem stay {m : Lower α} (answers : Answers m) (stays : StaysPut m) : Brings v v m :=
  .inScope_of answers (.put stays)

/-- A step that goes on with what the step before answered. -/
theorem bindOk {m : Lower α} {f : α → Lower β} (hm : Brings u v m)
    (hf : ∀ s a t, s.surroundings.site = u → run m s = some (.ok a, t) → Brings v w (f a)) :
    Brings u w (m >>= f) := by
  intro s here
  obtain ⟨r, t, ran, lands⟩ := hm s here
  rw [run_bind, ran]
  cases r with
  | error e => exact ⟨.error e, t, rfl, nofun⟩
  | ok a => exact hf s a t here ran t (lands a rfl)

/-- Steps one behind the other bring from the first site to the last. -/
theorem bind {m : Lower α} {f : α → Lower β} (hm : Brings u v m) (hf : ∀ a, Brings v w (f a)) :
    Brings u w (m >>= f) := hm.bindOk fun _ a _ _ _ => hf a

/-- With these rules steps are put together that stay at a site. -/
theorem composes (v : Surroundings) : Composes Lower (Brings v v) :=
  ⟨fun a => .stay (.pure a) (.pure a), bind⟩

/-- A step that looks at the state. -/
theorem look {f : UnitState → Lower α} (hf : ∀ s, s.surroundings.site = v → Brings v w (f s)) :
    Brings v w (MonadState.get >>= f) := by
  intro s here
  obtain ⟨r, t, ran, lands⟩ := hf s here s here
  exact ⟨r, t, by rw [run_bind, run_get]; exact ran, lands⟩

/-- A value that may be an error, and what it is when it is none. -/
theorem known {x : Except LowerError α} {f : α → Lower β} (hf : ∀ a, x = .ok a → Brings v w (f a)) :
    Brings v w (liftM x >>= f) :=
  (stay (.lift x) (.lift x)).bindOk fun _ a _ _ ran => hf a (run_lift_ok.1 ran).1

theorem throw (e : LowerError) : Brings v w (MonadExcept.throw e : Lower α) :=
  fun s _ => ⟨.error e, s, rfl, nofun⟩

theorem pure (a : α) : Brings v v (Pure.pure a : Lower α) := (composes v).pure a

/-- Where a step is in the source does not matter for the site. -/
theorem located (span : Source.Span) {m : Lower α} (hm : Brings v v m) :
    Brings v v (Lower.located span m) := by
  intro s here
  obtain ⟨r, t, ran, lands⟩ := hm { s with span := span } here
  refine ⟨r.mapError (·.withSpan span), { t with span := s.span }, ?_, fun a ok => ?_⟩
  · change ((run m { s with span := span }).bind fun p => _) = _
    rw [ran]
    rfl
  · cases r with
    | error e => cases ok
    | ok b => exact lands b rfl

theorem openScope : Brings v v Lower.openScope := .moves .openScope .openScope fun _ here => here

theorem closeScope :
    Brings v v Lower.closeScope := .moves .closeScope .closeScope fun _ here => here

/-- A step in a scope of its own stays at the site when it does. -/
theorem inScope {m : Lower α} (hm : Brings v v m) : Brings v v (Lower.inScope m) :=
  .bind .openScope fun _ => .bind hm fun _ => .bind .closeScope fun _ => .pure _

/-- A frame that is entered brings into its body. -/
theorem pushFrame (frame : Frame) : Brings v (v.entered frame) (Lower.pushFrame frame) :=
  .moves (.change _) (.pushFrame frame) fun x here => by rw [Surroundings.site_entered, here]

/-- Closing it brings back. -/
theorem closeFrame : Brings v v.left Lower.closeFrame :=
  .moves .closeFrame .closeFrame fun x here => by rw [Surroundings.site_left, here]

/-- A region that is opened brings into it. -/
theorem pushRegion (region : Region) : Brings v (v.within region) (Lower.pushRegion region) :=
  .moves (.change _) (.pushRegion region) fun x here => by rw [Surroundings.site_within, here]

theorem popRegion : Brings v v.without Lower.popRegion :=
  .moves .popRegion .popRegion fun x here => by rw [Surroundings.site_without, here]

/-- A body in a scope of its own. -/
theorem inBody {frame : Frame} {m : Lower Unit}
    (hm : Brings (v.entered frame) (v.entered frame) m) :
    Brings v v (do
      Lower.inScope (do
        Lower.pushFrame frame
        m)
      Lower.closeFrame) := by
  have inside : Brings v (v.entered frame) (Lower.inScope (do
      Lower.pushFrame frame
      m)) :=
    .bind .openScope fun _ => .bind (.bind (.pushFrame frame) fun _ => hm) fun _ =>
      .bind .closeScope fun _ => .pure _
  exact inside.bind fun _ => closeFrame

end Brings

end Lower

end SkipCode
