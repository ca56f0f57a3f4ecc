import SkipCode.Image.Listing
import SkipCode.Lower.Diagnostic
import SkipCode.Lower.Unit

/-!
# Compilation

A compiler lowers one program after the other. Slots mean something only inside the session that
gave them, so units of two programs are never mixed: when a unit of a program fails, the compiler
ships the last program that had no failure, whole. Before there is one it ships those units of the
failing program that did lower, which share a session at least.
-/

namespace SkipCode

open Source (ClassDecl Program Rule)

/-- A compiler and the last image that was lowered without a failure. -/
structure Compiler where
  config : LowerConfig
  retained : Option Image
deriving Repr

/-- The result of one compilation. -/
structure Compilation where
  image : Image
  diagnostics : List Diagnostic
  /-- The number of elements of the image. -/
  count : Nat
  /-- The units of the image, when it is one from before. -/
  stale : List String
deriving Repr

def Compilation.hasErrors (c : Compilation) : Bool := c.diagnostics.any Diagnostic.isError

/-- The units of one program so far: those that lowered, what was reported, and whether any
failed. -/
structure Pass where
  session : Session
  image : Image
  diagnostics : List Diagnostic
  failed : Bool

namespace Pass

/-- Adds the output of a unit. Its list is kept only when nothing at all went wrong. -/
def accept (p : Pass) (unit : String) (output : UnitOutput) : Pass :=
  let errors := output.deferred ++ match output.result with
    | .ok _ => []
    | .error e => [e]
  let diagnostics := p.diagnostics ++ errors.map fun e => ⟨unit, .error e⟩
  match output.result, output.deferred with
  | .ok list, [] =>
    { p with session := output.session, image := p.image.insert unit list, diagnostics }
  | _, _ => { p with session := output.session, diagnostics, failed := true }

/-- Adds an error of a unit that is not lowered. -/
def reject (p : Pass) (unit : String) (e : LowerError) : Pass :=
  { p with diagnostics := p.diagnostics ++ [⟨unit, .error e⟩], failed := true }

/-- Lowers rules in order; a name that was used by an earlier rule is an error. -/
def rules : (seen : List String) → List Rule → Pass → Option Pass
  | _, [], p => some p
  | seen, rule :: rest, p =>
    if seen.contains rule.name then
      rules seen rest (p.reject rule.name (.defect (.ruleDeclaredTwice rule.name)))
    else do
      let output ← p.session.lowerUnit rule.name rule.pool rule.body
      rules (rule.name :: seen) rest (p.accept rule.name output)

/-- Lowers the initial values of static fields, if there are any. -/
def statics (program : Program) (p : Pass) : Option Pass :=
  if (program.classes.flatMap ClassDecl.staticInitials).isEmpty then some p
  else do return p.accept Session.staticInitUnit (← p.session.lowerStaticInit)

end Pass

namespace Compiler

def new (config : LowerConfig) : Compiler := ⟨config, none⟩

/-- The unit that what concerns the whole program is reported for. -/
def wholeProgram : String := "<program>"

/-- What is shipped in place of a program that failed: the image from before, or the part that
lowered when there is none. -/
def fallBack (c : Compiler) (part : Image) (diagnostics : List Diagnostic) : Compilation :=
  match c.retained with
  | some image => ⟨image, diagnostics, image.count, image.names⟩
  | none => ⟨part, diagnostics, part.count, []⟩

/-- Adds a warning when the image has more elements than the target takes. -/
def warnCeiling (c : Compiler) (result : Compilation) : Compilation :=
  if c.config.elementCeiling < result.count then
    { result with
      diagnostics := result.diagnostics ++
        [⟨wholeProgram, .overCeiling result.count c.config.elementCeiling⟩] }
  else result

/-- Compiles a program; `none` when its expansion has no end. A program that is refused as a whole
is answered without a look at the ceiling. -/
def compile (c : Compiler) (program : Program) : Option (Compilation × Compiler) :=
  match Session.new c.config program with
  | .error e => some (c.fallBack .empty [⟨wholeProgram, .error e⟩], c)
  | .ok session => do
    let pass ← Pass.statics program ⟨session, .empty, [], false⟩
    let pass ← Pass.rules [] program.rules pass
    if pass.failed then return (c.warnCeiling (c.fallBack pass.image pass.diagnostics), c)
    else
      let result : Compilation := ⟨pass.image, pass.diagnostics, pass.image.count, []⟩
      return (c.warnCeiling result, { c with retained := some pass.image })

end Compiler

end SkipCode
