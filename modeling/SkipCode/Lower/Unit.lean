import SkipCode.Action.Check
import SkipCode.Lower.Stmt

/-!
# Lowering units

A unit is a rule, or the code that gives static fields their initial values. Its list is finished
when everything that was opened is closed and the list passes its check.

Bodies are expanded inside bodies. A call is refused or becomes a skip when its method is being
expanded already, but nothing stops a constructor or an initial value from making another instance
of its own class, so an expansion may have no end. `expansionBound` tells: it is more than any
expansion can be deep that has one.
-/

namespace SkipCode

open Source (ClassDecl Expr Stmt)

/-- Lowers the bodies of declarations, nested at most `depth` deep. -/
def expander : (depth : Nat) → Expander
  | 0 => ⟨fun _ => Lower.endless, fun _ => Lower.endless⟩
  | depth + 1 =>
    ⟨fun body => lowerBlock (expander depth) body, fun e => lowerExpr (expander depth) e⟩

/-- How deep the bodies of a session can be nested when expanding them has an end. Each method is
open at most twice, once expanded and once as a region. Between two of them lie only constructors
and initial values, and when one of those comes up three times it comes up again for ever. -/
def expansionBound (s : Session) : Nat :=
  let methods := s.functions.length + (s.classes.decls.map fun d => d.methods.length).sum
  let makers := (s.classes.decls.map fun d => d.constructors.length + 1 + d.fields.length).sum
  (2 * methods + 1) * (2 * makers + 2) + 1

/-- What lowering a unit gives: its list or the error that stopped it, the exhaustions it went
past, its symbols, and the session as it is after it. -/
structure UnitOutput where
  result : Except LowerError ActionList
  deferred : List LowerError
  symbols : List Symbol
  session : Session

namespace Lower

/-- Checks that everything is closed and the list is fit to run. -/
def finish : Lower ActionList := do
  let s ← get
  if !s.scopes.isEmpty || !s.frames.isEmpty || s.loops.depth != 0 then
    throw (.defect (.unitLeftOpen s.unit s.scopes.length s.frames.length s.loops.depth))
  match s.list.check with
  | .ok () => return s.list
  | .error e => throw (.defect (.badList e))

/-- Lowers the body of a unit in its outermost frame and scope. -/
def unitBody (body : Lower Unit) : Lower ActionList := do
  pushFrame unitFrame
  inScope body
  closeFrame
  finish

/-- Writes the initial values of static fields. -/
def staticInitials (into : Expander) (initials : List (String × String × Expr)) : Lower Unit :=
  initials.forM fun (className, field, e) => do
    let value ← lowerExpr into e
    emit ((← staticVar className field).set value none [])

end Lower

namespace Session

/-- Runs a unit on a fresh state of its own; `none` when its expansion has no end. -/
def runUnit (s : Session) (unit : String) (pool : Pool) (body : Expander → Lower Unit) :
    Option UnitOutput := do
  let (result, t) ←
    (Lower.unitBody (body (expander (expansionBound s)))).run (.new s unit pool)
  return ⟨result, t.deferred.reverse, t.symbols.reverse, t.session⟩

/-- Lowers a rule. -/
def lowerUnit (s : Session) (unit : String) (pool : Pool) (body : List Stmt) : Option UnitOutput :=
  s.runUnit unit pool fun into => lowerStmts into body

/-- The unit that gives static fields their initial values. -/
def staticInitUnit : String := "__static_init"

/-- Lowers the initial values of all static fields. -/
def lowerStaticInit (s : Session) : Option UnitOutput :=
  s.runUnit staticInitUnit .global fun into =>
    Lower.staticInitials into (s.classes.decls.flatMap ClassDecl.staticInitials)

end Session

end SkipCode
