/-!
# Stages of a block

Conditionals and loops are written in steps that have to come in order; the stage says which step
is next.
-/

namespace SkipCode

inductive Stage where
  | unset | setup | guarded | epilogue | finished
deriving DecidableEq, Repr, Inhabited

def Stage.name : Stage → String
  | unset => "Unset"
  | setup => "Setup"
  | guarded => "Guarded"
  | epilogue => "Epilogue"
  | finished => "Finished"

end SkipCode
