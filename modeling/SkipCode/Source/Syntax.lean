import SkipCode.Binary64.Conversion
import SkipCode.Source.Operator

/-!
# The source tree

A program arrives as a tree in which every name is resolved and every access carries the static
class of its object. The tree is made of expressions, places that can be assigned to, and
statements with their positions; classes, functions and rules are in `Source.Program`.
-/

namespace SkipCode

/-- Which of the two kinds of stores a variable lives in: the one that all units share, or the one
that each actor has of its own. -/
inductive Pool where
  | global | actor
deriving DecidableEq, Repr, Inhabited

def Pool.toText : Pool → String
  | global => "global"
  | actor => "actor"

namespace Source

/-- A position in the source text. -/
structure Span where
  line : UInt32
  col : UInt32
deriving DecidableEq, Repr, Inhabited

/-- The position of what has none. -/
def Span.unknown : Span := ⟨0, 0⟩

def Span.toText (s : Span) : String := s!"{s.line}:{s.col}"

/-- An expression. -/
inductive Expr where
  | number (x : Binary64)
  | bool (b : Bool)
  | array (items : List Expr)
  /-- A local, a parameter, or a name bound by a loop. -/
  | var (name : String)
  | index (array index : Expr)
  /-- An instance field; `className` is the static class of the object. -/
  | field (object : Expr) (className field : String)
  | staticField (className field : String)
  /-- The copy of a variable that belongs to another actor. -/
  | actorVar (actor : Expr) (name : String)
  | binary (op : BinaryOp) (lhs rhs : Expr)
  | not (inner : Expr)
  | negate (inner : Expr)
  | length (array : Expr)
  /-- A new instance, made by one of the constructors of its class. -/
  | new (className : String) (constructorIndex : Nat) (arguments : List Expr)
  /-- A call of a function, or with a class of a method; a static one has no object. -/
  | call (className : Option String) (method : String) (object : Option Expr)
      (arguments : List Expr)
  | this
  | currentActor
deriving BEq, Repr, Inhabited

/-- What an assignment can write. -/
inductive Place where
  | var (name : String)
  | field (object : Expr) (className field : String)
  | staticField (className field : String)
  | actorVar (actor : Expr) (name : String)
deriving BEq, Repr, Inhabited

mutual

/-- A statement with its position. -/
inductive Stmt where
  | mk (kind : StmtKind) (span : Span)

inductive StmtKind where
  /-- Declares a variable. A recursive one has a value per entry of its scope that is not left
  yet. -/
  | define (name : String) (initial : Option Expr) (recursive : Bool)
  | assign (target : Place) (index : List Expr) (op : AssignOp) (value : Expr)
  | cond (branches : List Branch) (otherwise : Option (List Stmt))
  | while (condition : Expr) (body : List Stmt)
  /-- `start` runs once in the scope of the loop, `step` after each round. -/
  | for (start : Option Stmt) (condition : Expr) (step : Option Stmt) (body : List Stmt)
  | forEach (element : String) (index : Option String) (array : Expr) (body : List Stmt)
  /-- Leaves the loop `depth` levels out. -/
  | break (depth : UInt32)
  /-- Goes on with the next round of the loop `depth` levels out. -/
  | continue (depth : UInt32)
  /-- Leaves the method, or the unit when there is none. -/
  | return (value : Option Expr)
  | delete (object : Expr) (className : String)
  | block (body : List Stmt)
  /-- An expression for its effects. -/
  | expr (value : Expr)

/-- One arm of a conditional. -/
inductive Branch where
  | mk (condition : Expr) (body : List Stmt)

end

deriving instance BEq, Repr for Stmt, StmtKind, Branch

namespace Stmt

def kind : Stmt → StmtKind
  | mk kind _ => kind

def span : Stmt → Span
  | mk _ span => span

instance : Inhabited Stmt := ⟨.mk (.block []) .unknown⟩

end Stmt

end Source

end SkipCode
