import SkipCode.Proofs.LoopExits
import SkipCode.Proofs.Surroundings

/-!
# Ways into a program

Lowering goes from the statements of a unit into their parts, and from calls and `new`s into the
bodies that it expands there. A `Spot` is a place that it comes to, with what the source has around
that place: the bodies that are expanded one in another, and the declarations of the innermost of
them that are in force, the latest first. `Spot.Inward` is one step of such a way; it follows the
source and asks lowering only for the states and for the variables that it gave to declarations.

`Spot.Sound` says that the state of lowering agrees with what the source has around the place. It
holds where a unit begins (`Session.Begins.sound`), and each step keeps it (`Spot.Sound.inward`).
-/

namespace SkipCode

open Lower
open Source (ConstructorDecl Expr Fragment Loop MethodDecl Place Stmt StmtKind)

/-! ## Declarations -/

/-- What has a body that can be expanded. -/
inductive Declaration where
  | function (name : String)
  | method (className name : String)
  | constructor (className : String) (index : Nat)
deriving DecidableEq

namespace Declaration

/-- The key by which lowering tells the bodies apart. -/
def key : Declaration → String
  | function name => name
  | method className name => s!"{className}.{name}"
  | constructor className index => s!"{className}.new#{index}"

/-- What a call of the function or method means in a session. -/
def callee? (σ : Session) : Declaration → Option Callee
  | function name => (σ.functions.find? fun f => f.name == name).map fun decl => ⟨name, decl, false⟩
  | method className name =>
    ((ClassTable.find? σ.classes.decls className).bind fun d => d.methods.find? fun m =>
      m.name == name).map
      fun decl => ⟨s!"{className}.{name}", decl, !decl.isStatic⟩
  | constructor _ _ => none

end Declaration

/-- What the name of a call means: the function of that name, or the method of the class that
declares it. -/
inductive Session.Means (σ : Session) :
    (className : Option String) → (name : String) → Declaration → Prop
  | function {name : String} : σ.Means none name (.function name)
  | method {className name owner : String} {decl : MethodDecl} :
      σ.classes.findMethod className name = .ok (owner, decl) →
        σ.Means (some className) name (.method owner name)

/-- What a name means is what its call resolves to. -/
theorem Session.Means.callee {s t : UnitState} {className : Option String} {name : String}
    {d : Declaration} {callee : Callee} (means : s.session.Means className name d)
    (h : run (resolveCallee className name) s = some (.ok callee, t)) :
    d.callee? s.session = some callee := by
  obtain ⟨_, _, ⟨⟩, h⟩ := run_bind_ok.1 h
  cases means with
  | function =>
    obtain ⟨decl, u, found, e⟩ := run_bind_ok.1 h
    rw [run_lift_ok] at found
    cases e
    have found := found.1
    unfold Session.findFunction at found
    split at found
    · next f hf =>
      cases found
      rw [Declaration.callee?, hf]
      rfl
    · cases found
  | @method className name owner decl known =>
    obtain ⟨⟨owner', decl'⟩, u, found, e⟩ := run_bind_ok.1 h
    rw [run_lift_ok] at found
    cases known.symm.trans found.1
    cases e
    -- the class that declares it is found by its name
    obtain ⟨up, walked, h⟩ := except_bind_ok.1 known
    dsimp only at h
    split at h
    · next pair hit =>
      cases h
      obtain ⟨c, mem, e⟩ := List.exists_of_findSome?_eq_some hit
      obtain ⟨m, hm, e⟩ := Option.map_eq_some_iff.1 e
      cases e
      obtain ⟨layout, -, h⟩ := except_bind_ok.1 walked
      cases h
      obtain ⟨other, -, named⟩ := List.mem_filterMap.1 mem
      have same : c.name = other := by simpa using List.find?_some named
      rw [Declaration.callee?, same, named, Option.bind_some, hm]
      rfl
    · cases h

/-- What a declaration is depends on the session's declarations alone. -/
theorem Declaration.callee?_congr {σ τ : Session} (classes : τ.classes = σ.classes)
    (functions : τ.functions = σ.functions) (d : Declaration) : d.callee? τ = d.callee? σ := by
  cases d <;> simp only [callee?, classes, functions]

/-- A declaration has the key of its callee. -/
theorem Declaration.key_eq {σ : Session} {d : Declaration} {callee : Callee}
    (h : d.callee? σ = some callee) :
    callee.key = d.key := by
  cases d with
  | function name | method className name =>
    obtain ⟨decl, -, rfl⟩ := Option.map_eq_some_iff.1 h
    rfl
  | constructor => cases h

/-! ## Pieces of the source -/

/-- A piece of the source on the way to a place. -/
inductive Source.Part where
  | fragment (p : Fragment)
  | expr (e : Expr)

namespace UnitState

/-- The actor of a variable that actors have, where the name is one of them. -/
def actorOf (s : UnitState) (name : String) (actor : Expr) : List Expr :=
  match run (actorVar name) s with
  | some (.ok _, _) => [actor]
  | _ => []

/-- The receiver and the arguments of a call, where it is accepted. -/
def passed (s : UnitState) (className : Option String) (method : String) (object : Option Expr)
    (arguments : List Expr) : List Expr :=
  match run (resolveCallee className method) s with
  | some (.ok callee, _) =>
    if callee.decl.params.length = arguments.length then receiverOf callee
      object ++ arguments else []
  | _ => []

/-- The expressions that an expression lowers first, in their order. -/
def operands (s : UnitState) : Expr → List Expr
  | .array items => items
  | .index array index => [array, index]
  | .field object _ _ => [object]
  | .actorVar actor name => s.actorOf name actor
  | .binary _ lhs rhs => [lhs, rhs]
  | .not inner | .negate inner | .length inner => [inner]
  | .new _ _ arguments => arguments
  | .call className method object arguments => s.passed className method object arguments
  | _ => []

/-- The expressions that the target of an assignment lowers first. -/
def targetOperands (s : UnitState) : Place → List Expr
  | .field object _ _ => [object]
  | .actorVar actor name => s.actorOf name actor
  | _ => []

end UnitState

/-- The expressions that a statement lowers first. -/
def Source.StmtKind.operands : StmtKind → List Expr
  | .define _ initial _ => initial.toList
  | .assign _ index _ _ => index
  | .forEach _ _ array _ => [array]
  | .return value => value.toList
  | .delete object _ => [object]
  | .expr value => [value]
  | _ => []

/-- A loop with a condition, as the kind that it is opened with. -/
def Source.Loop.test? : Loop → Option (LoopKind × Expr)
  | .while condition _ => some (.while, condition)
  | .for condition _ _ => some (.for, condition)
  | .forEach .. => none

/-- What the head of a loop declares for its body. -/
def Source.Loop.declares : Loop → LoopKind → List (String × Variable)
  | .forEach element index _ _, .forEach array counter =>
    (element, .reference (.itemAt array counter.get)) :: (index.map fun name =>
      (name, counter)).toList
  | _, _ => []

/-- Whether a statement lies before the inner piece in the same scope. -/
def Source.Fragment.passes : Fragment → Fragment → Bool
  | .stmts _, .stmts _ => true
  | .kind (.for (some _) _ _ _), .loop _ => true
  | _, _ => false

namespace Lower

variable {into : Expander}

/-- What an assignment does to its target before it lowers its value. -/
def openTarget (into : Expander) : Place → Lower Unit
  | .var name => discard (lookup name)
  | .field object className field => do
    let handle ← lowerExpr into object
    discard (fieldVar className field handle)
  | .staticField className field => discard (staticVar className field)
  | .actorVar actor name => do
    discard (actorVar name)
    discard (lowerExpr into actor)

/-- A statement is lowered, and declares these names in the scope that it stands in. -/
inductive PassesBy (into : Expander) :
    Stmt → UnitState → List (String × Variable) → UnitState → Prop
  | define {name : String} {initial : Option Expr} {recursive : Bool} {span : Source.Span}
      {value : Option Element} {v : Variable} {s t u : UnitState} :
      run (initial.mapM (lowerExpr into)) { s with span := span } = some (.ok value, t) →
      run (declare name value recursive) t = some (.ok v, u) →
      PassesBy into (.mk (.define name initial recursive) span) s [(name, v)]
        { u with span := s.span }
  | other {k : StmtKind} {span : Source.Span} {s t : UnitState} : ¬ k.IsDefine →
      run (lowerStmt into (.mk k span)) s = some (.ok (), t) → PassesBy into (.mk k span) s [] t

/-- The receiver of a body is bound to `this`. -/
inductive BindsThis : Option Element → UnitState → List (String × Variable) → UnitState → Prop
  | none {s : UnitState} : BindsThis none s [] s
  | stable {receiver : Element} {s t : UnitState} : isStable receiver = true →
      run (bind "this" (.reference receiver)) s = some (.ok (), t) →
      BindsThis (some receiver) s [("this", .reference receiver)] t
  | computed {receiver : Element} {v : Variable} {s t : UnitState} : isStable receiver = false →
      run (declare "this" (some receiver) false) s = some (.ok v, t) →
      BindsThis (some receiver) s [("this", v)] t

/-- Parameters are declared with their arguments, the later ones in front of the earlier. -/
inductive BindsParams :
    List (String × Element) → UnitState → List (String × Variable) → UnitState → Prop
  | nil {s : UnitState} : BindsParams [] s [] s
  | cons {param : String} {argument : Element} {rest : List (String × Element)} {v : Variable}
      {names : List (String × Variable)} {s t u : UnitState} :
      run (declare param (some argument) false) s = some (.ok v, t) → BindsParams rest t names u →
      BindsParams ((param, argument) :: rest) s (names ++ [(param, v)]) u

/-- The names that a body sees of the stacks of its region. -/
def regionNames (params : List String) (region : Region) : List (String × Variable) :=
  (region.this.map fun v => ("this", .recursive v)).toList ++
    ((params.zip region.params).map fun p => (p.1, .recursive p.2)).reverse

/-- The receiver and the arguments of a call are lowered. -/
structure CallAt (into : Expander) (className : Option String) (method : String)
    (object : Option Expr) (arguments : List Expr) (s : UnitState) (d : Declaration)
    (callee : Callee) (receiver : Option Element) (values : List Element) (t : UnitState) :
    Prop where
  means : s.session.Means className method d
  resolved : run (resolveCallee className method) s = some (.ok callee, s)
  arity : callee.decl.params.length = arguments.length
  lowered : ∃ receivers u, run (lowerExprs into (receiverOf callee object)) s =
    some (.ok receivers, u) ∧
    receiver = receivers.head? ∧ run (lowerExprs into arguments) u = some (.ok values, t)

/-- The arguments of a `new` are lowered, and the instance has its handle. -/
structure NewAt (into : Expander) (className : String) (index : Nat) (arguments : List Expr)
    (s : UnitState) (values : List Element) (constructor : ConstructorDecl)
    (fields : List (Nat × Option Expr)) (handle : Variable) (t : UnitState) : Prop where
  arity : constructor.params.length = arguments.length
  constructor : s.session.classes.constructor className index = .ok constructor
  fields : fieldInitials s.session.classes className = .ok fields
  taken : ∃ s₁ hidden s₂ s₃ layout s₄, run (lowerExprs into arguments) s = some (.ok values, s₁) ∧
    run (hiddenName "new") s₁ = some (.ok hidden, s₂) ∧
    run (declare hidden none false) s₂ = some (.ok handle, s₃) ∧
    s.session.classes.layout className = .ok layout ∧
    run (onStorage (ClassStorage.prepare layout)) s₃ = some (.ok (), s₄) ∧
    run (onStorage (ClassStorage.acquireHandle s₁.session.config handle)) s₄ = some (.ok (), t)

end Lower

/-! ## Steps inward -/

/-- A body that is expanded: that of a declaration, or the initial values of fields. -/
structure OpenBody where
  declaration : Option Declaration
  /-- The region of a recursive method, as it was when it was opened. -/
  region : Option Region

def OpenBody.key (o : OpenBody) : Option String := o.declaration.map Declaration.key

/-- Lowering an expression comes into a body, in which these names are declared. -/
inductive Lower.Expands (into : Expander) :
    Expr → UnitState → OpenBody → List (String × Variable) → Source.Part → UnitState → Prop
  | inlined {className : Option String} {method : String} {object : Option Expr}
      {arguments : List Expr}
      {d : Declaration} {callee : Callee} {receiver : Option Element} {values : List Element}
      {result : IndexedVar} {this params : List (String × Variable)} {s t u v w : UnitState} :
      CallAt into className method object arguments s d callee receiver values t →
      callee.decl.recursive = false →
        (t.frames.any fun frame => frame.method == some callee.key) = false →
      run (temp "ret") t = some (.ok result, u) →
      BindsThis receiver (u.opened.entered (u.expanded (some callee.key) (some result))) this v →
      BindsParams (callee.decl.params.zip values) v params w →
      Expands into (.call className method object arguments) s ⟨some d, none⟩ (params ++ this)
        (.fragment (.stmts callee.decl.body)) w.opened
  | region {className : Option String} {method : String} {object : Option Expr}
      {arguments : List Expr}
      {d : Declaration} {callee : Callee} {receiver : Option Element} {values : List Element}
      {result address : IndexedVar} {region : Region} {s t u v w : UnitState} :
      CallAt into className method object arguments s d callee receiver values t →
      callee.decl.recursive = true → findRegion? t.regions callee.key = none →
      run (temp "ret") t = some (.ok result, u) → run (temp "addr") u = some (.ok address, v) →
      run (openRegion callee.key callee.decl.params receiver values result) v.opened =
        some (.ok region, w) →
      Expands into (.call className method object arguments) s ⟨some d, some region⟩
        (regionNames callee.decl.params region) (.fragment (.stmts callee.decl.body))
        ((w.entered (v.activation callee.key result)).within region).opened
  | constructor {className : String} {index : Nat} {arguments : List Expr} {values : List Element}
      {constructor : ConstructorDecl} {fields : List (Nat × Option Expr)} {handle : Variable}
      {this params : List (String × Variable)} {s t u v w : UnitState} :
      NewAt into className index arguments s values constructor fields handle t →
      run (initializeFields into handle.get fields) t = some (.ok (), u) →
      BindsThis (some handle.get)
        (u.opened.entered (u.expanded (some (Declaration.constructor className index).key) none))
          this v →
      BindsParams (constructor.params.zip values) v params w →
      Expands into (.new className index arguments) s ⟨some (.constructor className index), none⟩
        (params ++ this) (.fragment (.stmts constructor.body)) w.opened
  | initial {className : String} {index : Nat} {arguments : List Expr} {values : List Element}
      {constructor : ConstructorDecl} {before after : List (Nat × Option Expr)} {stack : Nat}
        {e : Expr}
      {handle : Variable} {s t u v : UnitState} :
      NewAt into className index arguments s values constructor
        (before ++ (stack, some e) :: after) handle t →
      run (bind "this" (.reference handle.get)) (t.opened.entered (t.expanded none none)) =
        some (.ok (), u) →
      run (initialFields into handle.get before) u = some (.ok (), v) →
      Expands into (.new className index arguments) s ⟨none, none⟩ [("this", .reference handle.get)]
        (.expr e) v

/-- A place that lowering comes to. -/
structure Spot where
  /-- How deep bodies can still be nested. -/
  depth : Nat
  /-- The bodies that are expanded around the place, the innermost first. -/
  bodies : List OpenBody
  /-- What is declared around the place in the innermost body, the latest first. -/
  names : List (String × Variable)
  part : Source.Part
  state : UnitState

/-- The second place lies right inside the first. -/
inductive Spot.Inward : Spot → Spot → Prop
  -- statements
  | inner {depth : Nat} {bodies : List OpenBody} {names : List (String × Variable)} {p q : Fragment}
      {s t : UnitState} : Inner (expander depth) p s q t → p.passes q = false →
      Inward ⟨depth, bodies, names, .fragment p, s⟩ ⟨depth, bodies, names, .fragment q, t⟩
  | tail {depth : Nat} {bodies : List OpenBody} {names declared : List (String × Variable)}
      {first : Stmt}
      {rest : List Stmt} {s t : UnitState} : PassesBy (expander depth) first s declared t →
      Inward ⟨depth, bodies, names, .fragment (.stmts (first :: rest)), s⟩
        ⟨depth, bodies, declared ++ names, .fragment (.stmts rest), t⟩
  | for {depth : Nat} {bodies : List OpenBody} {names declared : List (String × Variable)}
      {start : Stmt}
      {condition : Expr} {step : Option Stmt} {body : List Stmt} {s t : UnitState} :
      PassesBy (expander depth) start s.opened declared t →
      Inward ⟨depth, bodies, names, .fragment (.kind (.for (some start) condition step body)), s⟩
        ⟨depth, bodies, declared ++ names, .fragment (.loop (.for condition step body)), t⟩
  | body {depth : Nat} {bodies : List OpenBody} {names : List (String × Variable)} {l : Loop}
      {x : LoopBlock × List Action} {s t : UnitState} :
        run (l.enter (expander depth)) s = some (.ok x, t) →
      Inward ⟨depth, bodies, names, .fragment (.loop l), s⟩
        ⟨depth, bodies, l.declares x.1.kind ++ names, .fragment (.stmts l.body), t⟩
  -- the expressions of statements
  | condition {depth : Nat} {bodies : List OpenBody} {names : List (String × Variable)}
      {more : Bool}
      {chain : IfChain} {condition : Expr} {body : List Stmt} {rest : List Source.Branch}
        {s : UnitState} :
      Inward ⟨depth, bodies, names, .fragment (.arms more chain (.mk condition body :: rest)), s⟩
        ⟨depth, bodies, names, .expr condition, s.opened⟩
  | test {depth : Nat} {bodies : List OpenBody} {names : List (String × Variable)} {l : Loop}
      {kind : LoopKind} {condition : Expr} {block : LoopBlock} {s t : UnitState} :
      l.test? = some (kind, condition) →
      run (onLoop (.new kind) (LoopBlock.setup s.scopes.length)) s = some (.ok block, t) →
      Inward ⟨depth, bodies, names, .fragment (.loop l), s⟩ ⟨depth, bodies, names, .expr condition,
        t.opened⟩
  | operand {depth : Nat} {bodies : List OpenBody} {names : List (String × Variable)} {k : StmtKind}
      {before after : List Expr} {e : Expr} {values : List Element} {s t : UnitState} :
      k.operands = before ++ e :: after →
      run (lowerExprs (expander depth) before) s = some (.ok values, t) →
      Inward ⟨depth, bodies, names, .fragment (.kind k), s⟩ ⟨depth, bodies, names, .expr e, t⟩
  | target {depth : Nat} {bodies : List OpenBody} {names : List (String × Variable)}
      {target : Place}
      {index : List Expr} {op : Source.AssignOp} {value e : Expr} {values : List Element}
        {s t : UnitState} :
      run (lowerExprs (expander depth) index) s = some (.ok values, t) →
        t.targetOperands target = [e] →
      Inward ⟨depth, bodies, names, .fragment (.kind (.assign target index op value)), s⟩
        ⟨depth, bodies, names, .expr e, t⟩
  | value {depth : Nat} {bodies : List OpenBody} {names : List (String × Variable)} {target : Place}
      {index : List Expr} {op : Source.AssignOp} {value : Expr} {values : List Element}
        {s t u : UnitState} :
      run (lowerExprs (expander depth) index) s = some (.ok values, t) →
      run (openTarget (expander depth) target) t = some (.ok (), u) →
      Inward ⟨depth, bodies, names, .fragment (.kind (.assign target index op value)), s⟩
        ⟨depth, bodies, names, .expr value, u⟩
  -- expressions
  | part {depth : Nat} {bodies : List OpenBody} {names : List (String × Variable)} {e e' : Expr}
      {before after : List Expr} {values : List Element} {s t : UnitState} :
      s.operands e = before ++ e' :: after →
      run (lowerExprs (expander depth) before) s = some (.ok values, t) →
      Inward ⟨depth, bodies, names, .expr e, s⟩ ⟨depth, bodies, names, .expr e', t⟩
  | expands {depth : Nat} {bodies : List OpenBody} {o : OpenBody}
      {names names' : List (String × Variable)}
      {e : Expr} {part : Source.Part} {s t : UnitState} :
      Expands (expander (depth + 1)) e s o names' part t →
      Inward ⟨depth + 1, bodies, names, .expr e, s⟩ ⟨depth, o :: bodies, names', part, t⟩

/-- The first expression of the statement that comes first. -/
theorem Spot.way_to_operand {depth : Nat} {bodies : List OpenBody}
    {names : List (String × Variable)} {k : StmtKind} {span : Source.Span} {rest : List Stmt}
    {e : Expr} {after : List Expr} (s : UnitState) (first : k.operands = e :: after) :
    Relation.ReflTransGen Inward
      ⟨depth, bodies, names, .fragment (.stmts (.mk k span :: rest)), s⟩
      ⟨depth, bodies, names, .expr e, { s with span := span }⟩ := by
  have nothing : run (lowerExprs (expander depth) []) { s with span := span } =
      some (.ok [], { s with span := span }) := by
    rw [lowerExprs]
    rfl
  exact .head (.inner .head rfl) (.head (.inner .located rfl)
    (.single (.operand (show k.operands = [] ++ e :: after from first) nothing)))

/-- Where the units of a session begin, which are rules and the initial values of static fields. -/
inductive Session.Begins (σ : Session) : Spot → Prop
  | rule {unit : String} {pool : Pool} {body : List Stmt} :
      σ.Begins ⟨expansionBound σ, [], [], .fragment (.stmts body),
        ((UnitState.new σ unit pool).entered unitFrame).opened⟩
  | static {before after : List (String × String × Expr)} {className field : String} {e : Expr}
      {t : UnitState} :
      σ.classes.decls.flatMap Source.ClassDecl.staticInitials =
        before ++ (className, field, e) :: after →
      run (staticInitials (expander (expansionBound σ)) before)
        ((UnitState.new σ Session.staticInitUnit .global).entered unitFrame).opened =
          some (.ok (), t) →
      σ.Begins ⟨expansionBound σ, [], [], .expr e, t⟩

/-! ## Steps within a body -/

namespace Lower

variable {into : Expander} {s t : UnitState} {declared : List (String × Variable)}

/-- Passing a statement declares its visible names around. -/
theorem PassesBy.surroundings {first : Stmt} (bodies : into.StaysPut)
    (h : PassesBy into first s declared t) :
    t.surroundings = s.surroundings.declaring (visible declared) := by
  cases h with
  | define lowered declares =>
    -- the initial value is lowered before the name is there
    have before := StaysPut.composes.optionMapM (fun e => bodies.expr e) _ _ _ _ lowered
    have behind := surroundings_declare declares
    rw [before] at behind
    exact behind
  | @other k span _ _ plain ran =>
    rw [lowerStmt] at ran
    exact (StaysPut.located span (bodies.kind k plain) _ _ _ ran).trans
      (Surroundings.declaring_nil _).symm

/-- So what stands around grows by them. -/
theorem PassesBy.adds {first : Stmt} (bodies : into.StaysPut) (h : PassesBy into first s declared t)
    {v : Surroundings} {names : List (String × Variable)} (around : v.Adds names s.surroundings) :
    v.Adds (visible declared ++ names) t.surroundings := by
  rw [h.surroundings bodies]
  exact around.declaring _

/-- Binding the receiver declares its name. -/
theorem BindsThis.surroundings {receiver : Option Element} (h : BindsThis receiver s declared t) :
    t.surroundings = s.surroundings.declaring (visible declared) := by
  cases h with
  | none => exact (Surroundings.declaring_nil _).symm
  | stable _ bound => exact Moves.bindName _ _ _ _ _ bound
  | computed _ declares => exact surroundings_declare declares

/-- Binding parameters declares theirs. -/
theorem BindsParams.surroundings {pairs : List (String × Element)}
    (h : BindsParams pairs s declared t) :
    t.surroundings = s.surroundings.declaring (visible declared) := by
  induction h with
  | nil => exact (Surroundings.declaring_nil _).symm
  | cons declares _ ih =>
    rw [ih, surroundings_declare declares, visible_append, Surroundings.declaring_append]

/-- The stacks of a region for its parameters, each in front of the ones before it. -/
theorem surroundings_declareStacks {params : List String} {arguments : List Element}
    {vs : List RecursiveVar}
    (h : run ((params.zip arguments).mapM fun (param, argument) =>
      declareStack param (some argument)) s =
      some (.ok vs, t)) :
    t.surroundings = s.surroundings.declaring
      (visible ((params.zip vs).map fun p => (p.1, Variable.recursive p.2)).reverse) := by
  induction params generalizing arguments s vs with
  | nil =>
    cases h
    exact (Surroundings.declaring_nil _).symm
  | cons param params ih =>
    cases arguments with
    | nil =>
      cases h
      exact (Surroundings.declaring_nil _).symm
    | cons argument arguments =>
      rw [List.zip_cons_cons, List.mapM_cons] at h
      obtain ⟨v, u, first, h₁⟩ := run_bind_ok.1 h
      obtain ⟨rest, w, others, h₂⟩ := run_bind_ok.1 h₁
      cases h₂
      rw [ih others, surroundings_declareStack first, List.zip_cons_cons, List.map_cons,
        List.reverse_cons,
        visible_append, Surroundings.declaring_append]

/-- Opening a region declares what its body sees. -/
theorem surroundings_openRegion {key : String} {params : List String} {receiver : Option Element}
    {arguments : List Element} {result : IndexedVar} {region : Region}
    (h : run (openRegion key params receiver arguments result) s = some (.ok region, t)) :
    t.surroundings = s.surroundings.declaring (visible (regionNames params region)) := by
  obtain ⟨vs, u, perParam, h₁⟩ := run_bind_ok.1 h
  obtain ⟨this, v, received, h₂⟩ := run_bind_ok.1 h₁
  obtain ⟨hidden, w, named, h₃⟩ := run_bind_ok.1 h₂
  obtain ⟨returnAddress, x, declares, h₄⟩ := run_bind_ok.1 h₃
  have address : x.surroundings = v.surroundings :=
    StaysPut.withGenerated (by decide) (fun _ generated =>
      StaysPut.declareStackGenerated generated _) v _ x
      (run_bind_ok.2 ⟨hidden, w, named, declares⟩)
  -- what is left are temporaries, which have no names
  obtain ⟨argumentTemps, y, temps, h₅⟩ := run_bind_ok.1 h₄
  obtain ⟨thisTemp, z, temps', h₆⟩ := run_bind_ok.1 h₅
  obtain ⟨start, _, at', h₇⟩ := run_bind_ok.1 h₆
  rw [run_position] at at'
  cases at'
  cases h₇
  have behind : t.surroundings = v.surroundings := by
    rw [StaysPut.composes.optionMapM (fun _ => .temp _) _ _ _ _ temps',
      StaysPut.composes.mapM (fun _ _ => .temp _) _ _ _ temps, address]
    rfl
  have this' : v.surroundings =
      u.surroundings.declaring (visible (this.map fun v =>
        ("this", Variable.recursive v)).toList) := by
    cases receiver with
    | none =>
      cases received
      exact (Surroundings.declaring_nil _).symm
    | some receiver =>
      obtain ⟨w, declares, rfl⟩ := (run_map_ok (f := some)).1 received
      exact surroundings_declareStack declares
  rw [behind, this', surroundings_declareStacks perParam, regionNames, visible_append,
    Surroundings.declaring_append]

end Lower

namespace Lower

variable {into : Expander} {s t : UnitState} {v : Surroundings} {names : List (String × Variable)}

/-- Entering a loop opens a scope. -/
theorem Moves.enter (bodies : into.StaysPut) {l : Loop} (test : l.test?.isSome) :
    Moves Surroundings.opened (l.enter into) := by
  cases l with
  | «while» condition body | «for» condition step body =>
    exact Moves.bind (StaysPut.openLoop bodies _ _) fun _ => Moves.bind .openScope fun _ =>
      StaysPut.pure _
  | forEach => cases test

/-- A loop with a condition leaves its body behind when it is closed. -/
theorem StaysPut.round (bodies : into.StaysPut) {l : Loop} (test : l.test?.isSome) :
    StaysPut (l.round into) := by
  intro s x t h
  obtain ⟨o, e, entered, lowered, closed⟩ := Loop.run_round_ok.1 h
  rw [Moves.closeScope _ _ _ closed, bodies.stmts _ _ _ _ lowered,
    Moves.enter bodies test _ _ _ entered]
  rfl

/-- What stands around a loop's body are the names it declares and those outside. -/
theorem adds_enter (bodies : into.StaysPut) {l : Loop} {x : LoopBlock × List Action}
    (h : run (l.enter into) s = some (.ok x, t)) (around : v.Adds names s.surroundings) :
    v.Adds (visible (l.declares x.1.kind) ++ names) t.surroundings := by
  cases l with
  | «while» condition body | «for» condition step body =>
    rw [Moves.enter bodies rfl _ _ _ h]
    exact around.opened
  | forEach element index array body =>
    obtain ⟨⟨block, current⟩, u, opened, h₁⟩ := run_bind_ok.1 h
    obtain ⟨_, _, ⟨⟩, h₂⟩ := run_bind_ok.1 h₁
    obtain ⟨_, w, bound, h₃⟩ := run_bind_ok.1 h₂
    cases h₃
    obtain ⟨name, w, counter, y, zero, hname, hdeclare, -, rfl, rfl, rfl⟩ :=
      run_openForEach_ok opened
    -- the index may have a name of the source
    have indexed : y.surroundings =
        s.surroundings.declaring (visible (index.map fun name => (name, counter)).toList) := by
      cases index with
      | none =>
        exact (StaysPut.withGenerated (by decide)
          (fun _ generated => StaysPut.declareGenerated generated none false)
          s counter y (run_bind_ok.2 ⟨name, w, hname, hdeclare⟩)).trans
            (Surroundings.declaring_nil _).symm
      | some index =>
        cases hname
        exact surroundings_declare hdeclare
    rw [Moves.bindName _ _ _ _ _ bound]
    have counted := around.declaring (visible (index.map fun name => (name, counter)).toList)
    rw [← indexed] at counted
    have whole :=
      counted.opened.declaring (visible [(element, .reference (.itemAt array counter.get))])
    rw [← List.append_assoc, ← visible_append] at whole
    exact whole

/-- Nothing is declared on the way to a fragment that lies inside without a statement before it. -/
theorem Inner.adds (bodies : into.StaysPut) {p q : Fragment} (h : Inner into p s q t)
    (here : p.passes q = false) (around : v.Adds names s.surroundings) :
    v.Adds names t.surroundings := by
  cases h with
  | head | located | arms | «while» => exact around
  | tail => cases here
  | block | start => exact around.opened
  | otherwise ran =>
    have same := bodies.arms _ _ _ _ _ _ ran
    rw [← show _ = s.surroundings from same] at around
    exact around.opened
  | arm opened =>
    have same := StaysPut.openArm bodies _ _ _ _ opened
    rw [← show _ = s.surroundings from same] at around
    exact around.opened
  | nextArm opened lowered closed =>
    rw [StaysPut.closeArm _ _ _ _ _ _ _ closed, StaysPut.inScope (bodies.stmts _) _ _ _ lowered,
      StaysPut.openArm bodies _ _ _ _ opened]
    exact around
  | @«for» start condition step body _ _ ran =>
    cases start with
    | some first => cases here
    | none =>
      rw [Option.toList, lowerStmts] at ran
      cases ran
      exact around.opened
  | forEach ran =>
    have same := bodies.expr _ _ _ _ ran
    rw [← show _ = s.surroundings from same] at around
    exact around.opened
  | @step l step x block _ r u known round closed =>
    have test : l.test?.isSome := by
      cases l with
      | «for» => rfl
      | «while» | forEach => cases known
    have same : u.surroundings = s.surroundings := by
      rw [StaysPut.onLoop _ _ _ _ _ closed, StaysPut.round bodies test _ _ _ round]
      rfl
    rw [← same] at around
    exact around.opened

/-- Opening a target changes nothing around. -/
theorem StaysPut.openTarget (bodies : into.StaysPut) (target : Place) :
    StaysPut (Lower.openTarget into target) := by
  cases target with
  | var name => exact composes.map _ (.lookup _)
  | field object className field =>
    exact .bind (bodies.expr object) fun _ => composes.map _ (.fieldVar _ _ _)
  | staticField className field => exact composes.map _ (.staticVar _ _)
  | actorVar actor name =>
    exact .bind (composes.map _ (.actorVar _)) fun _ => composes.map _ (bodies.expr actor)

/-! ## Steps into a body -/

/-- So does making the arguments of a call. -/
theorem CallAt.surroundings (bodies : into.StaysPut) {className : Option String} {method : String}
    {object : Option Expr} {arguments : List Expr} {d : Declaration} {callee : Callee}
    {receiver : Option Element} {values : List Element}
    (h : CallAt into className method object arguments s d callee receiver values t) :
    t.surroundings = s.surroundings := by
  obtain ⟨receivers, u, first, -, second⟩ := h.lowered
  rw [bodies.exprs _ _ _ _ second, bodies.exprs _ _ _ _ first]
  rfl

/-- So does making an instance's handle. -/
theorem NewAt.surroundings (bodies : into.StaysPut) {className : String} {index : Nat}
    {arguments : List Expr} {values : List Element} {constructor : ConstructorDecl}
    {fields : List (Nat × Option Expr)} {handle : Variable}
    (h : NewAt into className index arguments s values constructor fields handle t) :
    t.surroundings = s.surroundings := by
  obtain ⟨s₁, hidden, s₂, s₃, layout, s₄, lowered, named, declares, -, prepared,
    acquired⟩ := h.taken
  -- the handle has a name that the source does not see
  have declared : s₃.surroundings = s₁.surroundings :=
    StaysPut.withGenerated (by decide) (fun _ generated =>
      StaysPut.declareGenerated generated none false) s₁ handle
      s₃ (run_bind_ok.2 ⟨hidden, s₂, named, declares⟩)
  rw [StaysPut.onStorage _ _ _ _ acquired, StaysPut.onStorage _ _ _ _ prepared, id, id, declared,
    bodies.exprs _ _ _ _ lowered]
  rfl

/-- What a body sees around it when it is entered. -/
structure Entered (v : Surroundings) (o : OpenBody) (names : List (String × Variable))
    (w : Surroundings) :
    Prop where
  inside : w.floor < w.scopes.length
  names : w.names = visible names
  bodies : w.bodies.map Prod.snd = o.key :: v.bodies.map Prod.snd
  regions : w.regions = o.region.toList ++ v.regions
  classes : w.classes = v.classes
  functions : w.functions = v.functions

/-- A body in a scope of its own, in which names are declared. -/
theorem Entered.declaring (s : UnitState) {o : OpenBody} {method : Option String}
    (key : o.key = method) (plain : o.region = none) (result : Option IndexedVar)
    (names : List (String × Variable)) :
    Entered s.surroundings o names
      ((s.opened.entered (s.expanded method result)).surroundings.declaring (visible names)) := by
  have floor : (s.expanded method result).lookupFloor = s.surroundings.scopes.length :=
    (List.length_map ..).symm
  -- the new scope is the first of the body, so all that is below it belongs to the caller
  obtain ⟨seen, inside⟩ := Surroundings.names_entered
    (v := { s.surroundings with scopes := (visible names ++ []) :: s.surroundings.scopes })
      rfl floor
  refine ⟨inside, seen.trans (List.append_nil _), ?_, ?_, rfl, rfl⟩
  · rw [key]
    rfl
  · rw [plain]
    rfl

/-- The body of a region, whose stacks are declared before it is entered. -/
theorem Entered.region (s : UnitState) {key : String} (result : IndexedVar) {region : Region}
    {params : List String} {o : OpenBody} (known : o.key = some key)
    (opened : o.region = some region) (fresh : region.callSites = [])
    (declared : t.surroundings = s.opened.surroundings.declaring
      (visible (regionNames params region))) :
    Entered s.surroundings o (regionNames params region)
      ((t.entered (s.activation key result)).within region).surroundings := by
  have floor : (s.activation key result).lookupFloor = s.surroundings.scopes.length :=
    (List.length_map ..).symm
  have scopes : t.surroundings.scopes =
    (visible (regionNames params region) ++ []) :: s.surroundings.scopes := by
    rw [declared]
    rfl
  obtain ⟨seen, inside⟩ := Surroundings.names_entered scopes floor
  -- a region has no calls inside when it is opened
  have cleared : ({ region with callSites := [] } : Region) = region := by rw [← fresh]
  have bodies : t.surroundings.bodies = s.surroundings.bodies := by
    rw [declared]
    rfl
  have regions : t.surroundings.regions = s.surroundings.regions := by
    rw [declared]
    rfl
  refine ⟨inside, seen.trans (List.append_nil _), ?_, ?_, ?_, ?_⟩
  · rw [known, ← bodies]
    rfl
  · rw [opened, ← regions]
    exact congrArg (· :: _) cleared
  · show t.surroundings.classes = _
    rw [declared]
    rfl
  · show t.surroundings.functions = _
    rw [declared]
    rfl

/-- A body that was entered is entered one scope deeper. -/
theorem Entered.opened {o : OpenBody} {w : Surroundings} (h : Entered v o names w) :
    Entered v o names w.opened :=
  have same := (Surroundings.Adds.refl h.inside).opened
  ⟨same.inside, same.names.trans h.names, h.bodies, h.regions, h.classes, h.functions⟩

/-- Whatever body is expanded, it sees its own names and nothing of its caller. -/
theorem Expands.entered (bodies : into.StaysPut) {e : Expr} {o : OpenBody} {part : Source.Part}
    (h : Expands into e s o names part t) : Entered s.surroundings o names t.surroundings := by
  cases h with
  | @inlined _ _ _ _ d callee receiver values result this params _ call u v w at' plain free ret
      bound given =>
    have before : u.surroundings = s.surroundings :=
      (StaysPut.temp _ _ _ _ ret).trans (at'.surroundings bodies)
    have key := Declaration.key_eq (at'.means.callee at'.resolved)
    have inside :=
      Entered.declaring u (o := ⟨some d, none⟩) (congrArg some key.symm) rfl (some result)
        (params ++ this)
    rw [before, visible_append, Surroundings.declaring_append, ← bound.surroundings,
      ← given.surroundings] at inside
    exact inside.opened
  | @region _ _ _ _ d callee receiver values result address region _ call u v w at' recursive free
      ret addr opened =>
    have before : v.surroundings = s.surroundings :=
      (StaysPut.temp _ _ _ _ addr).trans ((StaysPut.temp _ _ _ _ ret).trans
        (at'.surroundings bodies))
    have key := Declaration.key_eq (at'.means.callee at'.resolved)
    have inside := Entered.region v result (o := ⟨some d, some region⟩) (congrArg some key.symm) rfl
      (run_openRegion_ok opened).2 (surroundings_openRegion opened)
    rw [before] at inside
    exact inside.opened
  | @constructor className index _ _ constructor fields handle this params _ call u v w at'
      initialized bound given =>
    have before : u.surroundings = s.surroundings :=
      (bodies.initializeFields _ _ _ _ _ initialized).trans (at'.surroundings bodies)
    have key : OpenBody.key ⟨some (.constructor className index), none⟩ =
        some (Declaration.constructor className index).key := rfl
    have inside := Entered.declaring u key rfl none (params ++ this)
    rw [before, visible_append, Surroundings.declaring_append, ← bound.surroundings,
      ← given.surroundings] at inside
    exact inside.opened
  | @initial _ _ _ _ constructor before after stack e handle _ u v w at' bound passed =>
    have same : u.surroundings = s.surroundings := at'.surroundings bodies
    have key : OpenBody.key ⟨none, none⟩ = none := rfl
    have inside := Entered.declaring u key rfl none [("this", .reference handle.get)]
    have filled : t.surroundings = (u.opened.entered (u.expanded none none)).surroundings.declaring
        (visible [("this", .reference handle.get)]) :=
      (bodies.initialFields _ _ _ _ _ passed).trans (Moves.bindName _ _ _ _ _ bound)
    rw [same, ← filled] at inside
    exact inside

end Lower

/-! ## What lowering has around a spot -/

namespace Spot

/-- The state of lowering has what the source has around the spot. -/
structure Sound (σ : Session) (p : Spot) : Prop where
  inside : p.state.surroundings.floor < p.state.surroundings.scopes.length
  names : p.state.surroundings.names = visible p.names
  bodies : p.state.surroundings.bodies.map Prod.snd = p.bodies.map OpenBody.key ++ [none]
  regions : p.state.surroundings.regions = p.bodies.filterMap OpenBody.region
  classes : p.state.session.classes = σ.classes
  functions : p.state.session.functions = σ.functions

namespace Sound

variable {σ : Session} {p : Spot}

/-- In the same body. -/
theorem adds (h : p.Sound σ) {declared : List (String × Variable)} {part : Source.Part}
    {t : UnitState} (adds : p.state.surroundings.Adds (visible declared) t.surroundings) :
    Sound σ ⟨p.depth, p.bodies, declared ++ p.names, part, t⟩ :=
  ⟨adds.inside, by rw [adds.names, h.names, visible_append], by rw [adds.bodies, h.bodies],
    by rw [adds.regions, h.regions], adds.classes.trans h.classes, adds.functions.trans h.functions⟩

/-- Where nothing is declared in between. -/
theorem same (h : p.Sound σ) {part : Source.Part} {t : UnitState}
    (adds : p.state.surroundings.Adds [] t.surroundings) :
    Sound σ ⟨p.depth, p.bodies, p.names, part, t⟩ :=
  have nothing : p.state.surroundings.Adds (visible []) t.surroundings := adds
  h.adds nothing

/-- A sound place leads to sound ones inside. -/
theorem inward {q : Spot} (h : p.Sound σ) (step : p.Inward q) : q.Sound σ := by
  have bodies (depth : Nat) : (expander depth).StaysPut := .expander depth
  have here := Surroundings.Adds.refl h.inside
  -- an expression that is lowered in between leaves everything as it is
  have after {t : UnitState} (same : t.surroundings = p.state.surroundings) :
      p.state.surroundings.Adds [] t.surroundings := by rwa [same]
  cases step with
  | inner step quiet => exact h.same (step.adds (bodies _) quiet here)
  | tail passed => exact h.adds (by simpa using passed.adds (bodies _) here)
  | «for» passed => exact h.adds (by simpa using passed.adds (bodies _) here.opened)
  | body entered => exact h.adds (by simpa using adds_enter (bodies _) entered here)
  | condition => exact h.same here.opened
  | test _ opened => exact h.same (after (StaysPut.onLoop _ _ _ _ _ opened)).opened
  | operand _ lowered | target lowered _ | part _ lowered =>
    exact h.same (after ((bodies _).exprs _ _ _ _ lowered))
  | value lowered opened =>
    exact h.same (after ((StaysPut.openTarget (bodies _) _ _ _ _ opened).trans
      ((bodies _).exprs _ _ _ _ lowered)))
  | expands expands =>
    have entered := expands.entered (bodies _)
    refine ⟨entered.inside, entered.names, ?_, ?_, entered.classes.trans h.classes,
      entered.functions.trans h.functions⟩
    · rw [entered.bodies, h.bodies]
      rfl
    · rw [entered.regions, h.regions, List.filterMap_cons]
      cases OpenBody.region _ <;> rfl

end Sound

end Spot

/-- A place at a beginning is sound. -/
theorem Session.Begins.sound {σ : Session} {p : Spot} (begins : σ.Begins p) : p.Sound σ := by
  have start (unit : String) (pool : Pool) :
      Spot.Sound σ ⟨0, [], [], .fragment (.stmts []),
        ((UnitState.new σ unit pool).entered unitFrame).opened⟩ :=
    ⟨Nat.zero_lt_one, rfl, rfl, rfl, rfl, rfl⟩
  cases begins with
  | @rule unit pool body =>
    obtain ⟨inside, names, bodies, regions, classes, functions⟩ := start unit pool
    exact ⟨inside, names, bodies, regions, classes, functions⟩
  | static _ ran =>
    have stays (initials : List (String × String × Expr)) :
        StaysPut (staticInitials (expander (expansionBound σ)) initials) :=
      StaysPut.composes.forM fun _ _ => .bind ((Expander.StaysPut.expander _).expr _) fun _ =>
        .bind (.staticVar _ _) fun _ => .emit _
    have same := stays _ _ _ _ ran
    obtain ⟨inside, names, bodies, regions, classes, functions⟩ :=
      start Session.staticInitUnit .global
    exact ⟨same ▸ inside, same ▸ names, same ▸ bodies, same ▸ regions,
      (congrArg Surroundings.classes same).trans classes,
        (congrArg Surroundings.functions same).trans functions⟩

/-- Wherever a way leads, the state of lowering agrees with the source. -/
theorem Session.Begins.sound_of_way {σ : Session} {p q : Spot} (begins : σ.Begins p)
    (way : Relation.ReflTransGen Spot.Inward p q) : q.Sound σ := by
  induction way with
  | refl => exact begins.sound
  | tail _ step ih => exact ih.inward step

end SkipCode
