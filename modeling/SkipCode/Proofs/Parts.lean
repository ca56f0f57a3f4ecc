import SkipCode.Class.Table
import SkipCode.Lower.Session

/-!
# The parts of a program

What a program has in it at any depth: the statements of a body (`kinds`), the expressions of a
statement and of an expression (`exprs`, `parts`), and the bodies of a program. A condition on the
source is stated as one on its parts.
-/

namespace SkipCode.Source

mutual

/-- The statements in a statement, itself among them. -/
def Stmt.kinds : Stmt → List StmtKind
  | .mk k _ => k.kinds

def StmtKind.kinds : StmtKind → List StmtKind
  | .cond branches none => .cond branches none :: kindsOfBranches branches
  | .cond branches (some body) =>
    .cond branches (some body) :: (kindsOfBranches branches ++ kindsOf body)
  | .while condition body => .while condition body :: kindsOf body
  | .for none condition none body => .for none condition none body :: kindsOf body
  | .for (some start) condition none body =>
    .for (some start) condition none body :: (start.kinds ++ kindsOf body)
  | .for none condition (some step) body =>
    .for none condition (some step) body :: (step.kinds ++ kindsOf body)
  | .for (some start) condition (some step) body =>
    .for (some start) condition (some step) body :: (start.kinds ++ (step.kinds ++ kindsOf body))
  | .forEach element index array body => .forEach element index array body :: kindsOf body
  | .block body => .block body :: kindsOf body
  | k => [k]

def kindsOf : List Stmt → List StmtKind
  | [] => []
  | s :: rest => s.kinds ++ kindsOf rest

def kindsOfBranches : List Branch → List StmtKind
  | [] => []
  | .mk _ body :: rest => kindsOf body ++ kindsOfBranches rest

end

mutual

/-- The expressions in an expression, itself among them. -/
def Expr.parts : Expr → List Expr
  | .array items => .array items :: partsOf items
  | .index array index => .index array index :: (array.parts ++ index.parts)
  | .field object className field => .field object className field :: object.parts
  | .actorVar actor name => .actorVar actor name :: actor.parts
  | .binary op lhs rhs => .binary op lhs rhs :: (lhs.parts ++ rhs.parts)
  | .not inner => .not inner :: inner.parts
  | .negate inner => .negate inner :: inner.parts
  | .length array => .length array :: array.parts
  | .new className constructorIndex arguments =>
    .new className constructorIndex arguments :: partsOf arguments
  | .call className method none arguments =>
    .call className method none arguments :: partsOf arguments
  | .call className method (some object) arguments =>
    .call className method (some object) arguments :: (object.parts ++ partsOf arguments)
  | e => [e]

def partsOf : List Expr → List Expr
  | [] => []
  | e :: rest => e.parts ++ partsOf rest

end

/-- The expressions of a target. -/
def Place.exprs : Place → List Expr
  | .field object _ _ => [object]
  | .actorVar actor _ => [actor]
  | _ => []

/-- The expressions that stand in a statement itself. -/
def StmtKind.exprs : StmtKind → List Expr
  | .define _ initial _ => initial.toList
  | .assign target index _ value => index ++ target.exprs ++ [value]
  | .cond branches _ => branches.map fun | .mk condition _ => condition
  | .while condition _ => [condition]
  | .for _ condition _ _ => [condition]
  | .forEach _ _ array _ => [array]
  | .return value => value.toList
  | .delete object _ => [object]
  | .expr value => [value]
  | _ => []

/-- The variable that a statement assigns. -/
def StmtKind.assigned? : StmtKind → Option String
  | .assign (.var name) _ _ _ => some name
  | .assign (.actorVar _ name) _ _ _ => some name
  | _ => none

/-- A statement is among its own kinds. -/
theorem StmtKind.mem_kinds (k : StmtKind) : k ∈ k.kinds := by
  cases k with
  | cond branches otherwise => cases otherwise <;> simp [StmtKind.kinds]
  | «for» start condition step body => cases start <;> cases step <;> simp [StmtKind.kinds]
  | _ => simp [StmtKind.kinds]

/-- The kinds of a counting loop are its own and those of its parts. -/
theorem kinds_for (start : Option Stmt) (condition : Expr) (step : Option Stmt)
    (body : List Stmt) :
    (StmtKind.for start condition step body).kinds =
      .for start condition step body ::
        (kindsOf start.toList ++ (kindsOf step.toList ++ kindsOf body)) := by
  cases start <;> cases step <;> simp [StmtKind.kinds, kindsOf]

/-- The kinds of a choice are its own and those of its branches. -/
theorem kinds_cond (branches : List Branch) (otherwise : Option (List Stmt)) :
    (StmtKind.cond branches otherwise).kinds =
      .cond branches otherwise :: (kindsOfBranches branches ++ kindsOf (otherwise.getD [])) := by
  cases otherwise <;> simp [StmtKind.kinds, kindsOf]

end SkipCode.Source

namespace SkipCode

open Source (Stmt)

/-- The bodies of the classes of a program. -/
def ClassTable.bodies (t : ClassTable) : List (List Stmt) :=
  t.decls.flatMap fun d => d.methods.map (·.body) ++ d.constructors.map (·.body)

/-- The bodies of all methods, functions and constructors. -/
def Session.bodies (σ : Session) : List (List Stmt) :=
  σ.functions.map (·.body) ++ σ.classes.bodies

/-- The bodies that a program declares. -/
def Source.Program.bodies (p : Source.Program) : List (List Stmt) :=
  p.functions.map (·.body) ++
    p.classes.flatMap fun d => d.methods.map (·.body) ++ d.constructors.map (·.body)

/-- Two steps succeed exactly if the first does and then the second. -/
theorem except_bind_ok {ε α β : Type} {x : Except ε α} {f : α → Except ε β} {b : β} :
    (x >>= f) = .ok b ↔ ∃ a, x = .ok a ∧ f a = .ok b := by
  cases x <;> simp [Bind.bind, Except.bind]

/-- A table declares the classes it was built from. -/
theorem ClassTable.decls_build {decls : List Source.ClassDecl} {t : ClassTable}
    (h : ClassTable.build decls = .ok t) : t.decls = decls := by
  obtain ⟨_, -, h⟩ := except_bind_ok.1 h
  obtain ⟨layouts, -, h⟩ := except_bind_ok.1 h
  cases h
  rfl

/-- The body of a method that was found is one of the table's. -/
theorem ClassTable.method_mem_bodies {t : ClassTable} {className method owner : String}
    {decl : Source.MethodDecl} (h : t.findMethod className method = .ok (owner, decl)) :
    decl.body ∈ t.bodies := by
  obtain ⟨up, hup, h⟩ := except_bind_ok.1 h
  dsimp only at h
  split at h
  · next pair found =>
    cases h
    obtain ⟨d, hd, e⟩ := List.exists_of_findSome?_eq_some found
    obtain ⟨m, hm, e⟩ := Option.map_eq_some_iff.1 e
    cases e
    obtain ⟨layout, -, h⟩ := except_bind_ok.1 hup
    cases h
    obtain ⟨name, -, hname⟩ := List.mem_filterMap.1 hd
    exact List.mem_flatMap.2 ⟨d, List.mem_of_find?_eq_some hname, List.mem_append_left _
      (List.mem_map.2 ⟨_, List.mem_of_find?_eq_some hm, rfl⟩)⟩
  · cases h

/-- So is a constructor's, unless it is the empty one. -/
theorem ClassTable.constructor_mem_bodies {t : ClassTable} {className : String} {index : Nat}
    {decl : Source.ConstructorDecl} (h : t.constructor className index = .ok decl) :
    decl.body = [] ∨ decl.body ∈ t.bodies := by
  obtain ⟨d, hd, h⟩ := except_bind_ok.1 h
  split at h
  · cases h
    exact Or.inl rfl
  · split at h
    · next c found =>
      cases h
      unfold ClassTable.decl at hd
      split at hd
      · next d' hfind =>
        cases hd
        exact Or.inr (List.mem_flatMap.2 ⟨d, List.mem_of_find?_eq_some hfind,
          List.mem_append_right _ (List.mem_map.2 ⟨_, List.mem_of_getElem? found, rfl⟩)⟩)
      · cases hd
    · cases h

/-- The body of a function that was found is one of the session's. -/
theorem Session.function_mem_bodies {σ : Session} {name : String} {decl : Source.MethodDecl}
    (h : σ.findFunction name = .ok decl) : decl.body ∈ σ.bodies := by
  unfold findFunction at h
  split at h
  · next f found =>
    cases h
    exact List.mem_append_left _ (List.mem_map.2 ⟨_, List.mem_of_find?_eq_some found, rfl⟩)
  · cases h

end SkipCode
