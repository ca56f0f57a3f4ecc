import SkipCode.Source.Syntax

/-!
# Declarations and programs
-/

namespace SkipCode.Source

/-- A field of a class. -/
structure FieldDecl where
  name : String
  initial : Option Expr
  isStatic : Bool
deriving BEq, Repr, Inhabited

structure ConstructorDecl where
  params : List String
  body : List Stmt
deriving BEq, Repr, Inhabited

/-- A method or a function. A recursive one may call itself; any other is expanded at its calls. -/
structure MethodDecl where
  name : String
  params : List String
  body : List Stmt
  recursive : Bool
  isStatic : Bool
  span : Span
deriving BEq, Repr, Inhabited

structure ClassDecl where
  name : String
  base : Option String
  fields : List FieldDecl
  constructors : List ConstructorDecl
  methods : List MethodDecl
  span : Span
deriving BEq, Repr, Inhabited

/-- A unit of the program: the target runs each rule as a list of its own. -/
structure Rule where
  name : String
  pool : Pool
  body : List Stmt
deriving BEq, Repr, Inhabited

structure Program where
  classes : List ClassDecl
  functions : List MethodDecl
  rules : List Rule
deriving BEq, Repr, Inhabited

/-- Static fields with an initial value, as class, field and value, in declaration order. -/
def ClassDecl.staticInitials (c : ClassDecl) : List (String × String × Expr) :=
  (c.fields.filter (·.isStatic)).filterMap fun f => f.initial.map fun e => (c.name, f.name, e)

/-- The instance fields that a class declares itself. -/
def ClassDecl.instanceFields (c : ClassDecl) : List FieldDecl := c.fields.filter (!·.isStatic)

end SkipCode.Source
