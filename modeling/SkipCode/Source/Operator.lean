/-!
# Operators of the source tree
-/

namespace SkipCode.Source

/-- Binary operators of expressions. -/
inductive BinaryOp where
  | add | sub | mul | div | mod
  | eq | ne | lt | le | gt | ge
  | and | or
deriving DecidableEq, Repr, Inhabited

/-- Operators of assignments: `set` is the plain one, the others combine the old value with a new
one. -/
inductive AssignOp where
  | set | add | sub | mul | div | mod
deriving DecidableEq, Repr, Inhabited

/-- The operator by which an assignment combines; the plain one does not. -/
def AssignOp.binary? : AssignOp → Option BinaryOp
  | .set => none
  | .add => some .add
  | .sub => some .sub
  | .mul => some .mul
  | .div => some .div
  | .mod => some .mod

end SkipCode.Source
