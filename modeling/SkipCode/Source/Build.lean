import SkipCode.Source.Program

/-!
# Building trees

Constructors for the common shapes of the tree, with the defaults of what is left out.
-/

namespace SkipCode.Source

namespace Expr

/-- An instance made by the first constructor. -/
def newObject (className : String) (arguments : List Expr) : Expr := .new className 0 arguments

/-- A call of a function. -/
def callFunction (name : String) (arguments : List Expr) : Expr := .call none name none arguments

end Expr

namespace Stmt

/-- A statement without a position. -/
def ofKind (kind : StmtKind) : Stmt := .mk kind .unknown

/-- The same statement at a position. -/
def located (s : Stmt) (span : Span) : Stmt := .mk s.kind span

def define (name : String) (initial : Option Expr) : Stmt := ofKind (.define name initial false)

def assignOp (name : String) (op : AssignOp) (value : Expr) : Stmt :=
  ofKind (.assign (.var name) [] op value)

def assign (name : String) (value : Expr) : Stmt := assignOp name .set value

def expr (value : Expr) : Stmt := ofKind (.expr value)

end Stmt

def FieldDecl.instance (name : String) (initial : Option Expr) : FieldDecl := ⟨name, initial, false⟩

def FieldDecl.static (name : String) (initial : Option Expr) : FieldDecl := ⟨name, initial, true⟩

def MethodDecl.named (name : String) (params : List String) (body : List Stmt) : MethodDecl :=
  ⟨name, params, body, false, false, .unknown⟩

/-- The same method, allowed to call itself. -/
def MethodDecl.markRecursive (m : MethodDecl) : MethodDecl := { m with recursive := true }

def ClassDecl.named (name : String) (base : Option String) (fields : List FieldDecl)
    (constructors : List ConstructorDecl) (methods : List MethodDecl) : ClassDecl :=
  ⟨name, base, fields, constructors, methods, .unknown⟩

end SkipCode.Source
