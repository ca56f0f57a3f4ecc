import SkipCode.Lower.Unit

/-!
# Properties that composition keeps

Much of what is proved of lowering is a property of steps that composed steps have when their parts
do. What follows from that alone is stated here once:

* `Composes`: loops over lists and optional steps;
* `Lower.DeclareRules`: the steps that declare variables, up to the opening of a region;
* `Lower.ExprRules`: every expression.

A property enters with the steps that are its own, which are the fields of these structures.
-/

namespace SkipCode

open Source (Expr)

/-- A property of steps that composition keeps. -/
structure Composes (m : Type → Type) [Monad m] (P : {α : Type} → m α → Prop) : Prop where
  pure {α : Type} (a : α) : P (Pure.pure a : m α)
  bind {α β : Type} {x : m α} {f : α → m β} : P x → (∀ a, P (f a)) → P (x >>= f)

namespace Composes

variable {m : Type → Type} [Monad m] {P : {α : Type} → m α → Prop} {α β γ : Type}

/-- What composes holds of going through a list. -/
theorem forM (h : Composes m P) {f : γ → m PUnit} {l : List γ} (hf : ∀ a ∈ l, P (f a)) :
    P (l.forM f) := by
  induction l with
  | nil => exact h.pure _
  | cons a rest ih =>
    exact h.bind (hf a List.mem_cons_self) fun _ => ih fun b mem =>
      hf b (List.mem_cons_of_mem _ mem)

/-- It holds of a change of the result. -/
theorem map [LawfulMonad m] (h : Composes m P) (f : α → β) {x : m α} (hx : P x) : P (f <$> x) := by
  rw [← bind_pure_comp]
  exact h.bind hx fun a => h.pure (f a)

/-- It holds of mapping over a list. -/
theorem mapM [LawfulMonad m] (h : Composes m P) {f : γ → m α} {l : List γ}
    (hf : ∀ a ∈ l, P (f a)) : P (l.mapM f) := by
  induction l with
  | nil => exact h.pure _
  | cons a rest ih =>
    rw [List.mapM_cons]
    exact h.bind (hf a List.mem_cons_self) fun _ =>
      h.bind (ih fun b mem => hf b (List.mem_cons_of_mem _ mem)) fun _ => h.pure _

/-- It holds of mapping over an option. -/
theorem optionMapM [LawfulMonad m] (h : Composes m P) {f : γ → m α} (hf : ∀ a, P (f a))
    (o : Option γ) : P (o.mapM f) := by
  cases o with
  | none => exact h.pure _
  | some a => exact h.map _ (hf a)

/-- A loop that may be left early. -/
theorem forIn (h : Composes m P) {f : γ → β → m (ForInStep β)} (hf : ∀ a b, P (f a b))
    (l : List γ) (start : β) : P (ForIn.forIn l start f) := by
  induction l generalizing start with
  | nil => exact h.pure _
  | cons a rest ih =>
    rw [List.forIn_cons]
    refine h.bind (hf a start) fun step => ?_
    cases step with
    | done b => exact h.pure _
    | yield b => exact ih b

end Composes

namespace Lower

/-- A property of steps that composition keeps, and that a declaration has. -/
structure DeclareRules (P : {α : Type} → Lower α → Prop) : Prop extends Composes Lower P where
  get : P (MonadState.get : Lower UnitState)
  hiddenName (what : String) : P (Lower.hiddenName what)
  temp (what : String) : P (Lower.temp what)
  bindReference (name : String) (e : Element) : P (Lower.bind name (.reference e))
  declareStack (name : String) (initial : Option Element) : P (Lower.declareStack name initial)
  declarePlain (name : String) (initial : Option Element) : P (Lower.declarePlain name initial)

namespace DeclareRules

variable {P : {α : Type} → Lower α → Prop}

/-- Declaring a variable follows from its rules. -/
theorem declare (rules : DeclareRules P) (name : String) (initial : Option Element)
    (stacked : Bool) : P (Lower.declare name initial stacked) := by
  refine rules.bind rules.get fun s => ?_
  split
  · exact rules.bind (rules.declareStack name initial) fun _ => rules.pure _
  · exact rules.bind (rules.declarePlain name initial) fun _ => rules.pure _

/-- So does computing a value into a variable. -/
theorem materialize (rules : DeclareRules P) (value : Element) : P (Lower.materialize value) := by
  refine rules.bind rules.get fun s => ?_
  split
  · exact rules.bind (rules.hiddenName _) fun name =>
      rules.bind (rules.declareStack name _) fun _ => rules.pure _
  · exact rules.pure _

/-- So does binding the receiver. -/
theorem bindThis (rules : DeclareRules P) (receiver : Element) : P (Lower.bindThis receiver) := by
  unfold Lower.bindThis
  split
  · exact rules.bindReference _ _
  · exact rules.map _ (rules.declare _ _ _)

/-- So does declaring parameters. -/
theorem declareParams (rules : DeclareRules P) (params : List String) (arguments : List Element) :
    P (Lower.declareParams params arguments) :=
  rules.forM fun _ _ => rules.map _ (rules.declare _ _ _)

/-- So does opening the region of a recursive body. -/
theorem openRegion (rules : DeclareRules P) (key : String) (params : List String)
    (receiver : Option Element) (arguments : List Element) (result : IndexedVar) :
    P (Lower.openRegion key params receiver arguments result) :=
  rules.bind (rules.mapM fun _ _ => rules.declareStack _ _) fun _ =>
    rules.bind (rules.optionMapM (fun _ => rules.declareStack _ _) _) fun _ =>
      rules.bind (rules.hiddenName _) fun _ => rules.bind (rules.declareStack _ _) fun _ =>
        rules.bind (rules.mapM fun _ _ => rules.temp _) fun _ =>
          rules.bind (rules.optionMapM (fun _ => rules.temp _) _) fun _ =>
            rules.bind (rules.bind rules.get fun _ => rules.pure _) fun _ => rules.pure _

end DeclareRules

/-- A property of steps that composition keeps, and that what expressions are made of has. -/
structure ExprRules (into : Expander) (P : {α : Type} → Lower α → Prop) : Prop
    extends Composes Lower P where
  lookup (name : String) : P (Lower.lookup name)
  fieldVar (className field : String) (handle : Element) : P (Lower.fieldVar className field handle)
  staticVar (className field : String) : P (Lower.staticVar className field)
  actorVar (name : String) : P (Lower.actorVar name)
  resolveCallee (className : Option String) (method : String) : P
    (Lower.resolveCallee className method)
  checkArity (callee : Callee) (arguments : Nat) : P (Lower.checkArity callee arguments)
  expandNew (className : String) (constructorIndex : Nat) (arguments : List Element) :
    P (Lower.expandNew into className constructorIndex arguments)
  expandCall (callee : Callee) (receiver : Option Element) (arguments : List Element) :
    P (Lower.expandCall into callee receiver arguments)

namespace ExprRules

variable {into : Expander} {P : {α : Type} → Lower α → Prop}

/-- A call whose receiver is lowered. -/
theorem withArguments (rules : ExprRules into P) {arguments : List Expr}
    (ha : P (lowerExprs into arguments)) (callee : Callee) (receiver : Option Element) :
    P (do
      let arguments ← lowerExprs into arguments
      Lower.expandCall into callee receiver arguments) :=
  rules.bind ha fun _ => rules.expandCall _ _ _

mutual

/-- Lowering an expression follows from the rules, by induction on it. -/
theorem expr (rules : ExprRules into P) : (e : Expr) → P (lowerExpr into e)
  | .number _ | .bool _ | .currentActor => by
    rw [lowerExpr]
    exact rules.pure _
  | .array items => by
    rw [lowerExpr]
    exact rules.bind (exprs rules items) fun _ => rules.pure _
  | .var name => by
    rw [lowerExpr]
    exact rules.bind (rules.lookup name) fun _ => rules.pure _
  | .index array index => by
    rw [lowerExpr]
    exact rules.bind (expr rules array) fun _ => rules.bind (expr rules index) fun _ => rules.pure _
  | .field object className field => by
    rw [lowerExpr]
    exact rules.bind (expr rules object) fun _ =>
      rules.bind (rules.fieldVar _ _ _) fun _ => rules.pure _
  | .staticField className field => by
    rw [lowerExpr]
    exact rules.bind (rules.staticVar _ _) fun _ => rules.pure _
  | .actorVar actor name => by
    rw [lowerExpr]
    exact rules.bind (rules.actorVar name) fun _ =>
      rules.bind (expr rules actor) fun _ => rules.pure _
  | .binary op lhs rhs => by
    rw [lowerExpr]
    exact rules.bind (expr rules lhs) fun _ => rules.bind (expr rules rhs) fun _ => rules.pure _
  | .not inner | .negate inner | .length inner => by
    rw [lowerExpr]
    exact rules.bind (expr rules inner) fun _ => rules.pure _
  | .new className constructorIndex arguments => by
    rw [lowerExpr]
    exact rules.bind (exprs rules arguments) fun _ => rules.expandNew _ _ _
  | .call className method none arguments => by
    rw [lowerExpr]
    refine rules.bind (rules.resolveCallee _ _) fun callee =>
      rules.bind (rules.checkArity _ _) fun _ => ?_
    -- only a callee that takes a receiver looks `this` up
    dsimp only
    split
    · exact rules.bind (rules.map _ (rules.lookup _)) fun _ =>
        rules.withArguments (exprs rules arguments) _ _
    · exact rules.bind (rules.pure _) fun _ => rules.withArguments (exprs rules arguments) _ _
  | .call className method (some object) arguments => by
    rw [lowerExpr]
    refine rules.bind (rules.resolveCallee _ _) fun callee =>
      rules.bind (rules.checkArity _ _) fun _ => ?_
    -- only a callee that takes a receiver has the object lowered
    dsimp only
    split
    · exact rules.bind (rules.map _ (expr rules object)) fun _ =>
        rules.withArguments (exprs rules arguments) _ _
    · exact rules.bind (rules.pure _) fun _ => rules.withArguments (exprs rules arguments) _ _
  | .this => by
    rw [lowerExpr]
    exact rules.bind (rules.lookup _) fun _ => rules.pure _

/-- So does lowering a list of them. -/
theorem exprs (rules : ExprRules into P) : (es : List Expr) → P (lowerExprs into es)
  | [] => by
    rw [lowerExprs]
    exact rules.pure _
  | e :: es => by
    rw [lowerExprs]
    exact rules.bind (expr rules e) fun _ => rules.bind (exprs rules es) fun _ => rules.pure _

end

end ExprRules

end Lower

end SkipCode
