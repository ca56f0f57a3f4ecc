import SkipCode.Compiler
import SkipCode.Engine.Run
import SkipCode.Image.Encoding
import SkipCode.Json.Reader
import SkipCode.Source.Json

/-!
# The command line, apart from files

What a command prints, writes and exits with, as a function of the texts of its files. A command
reads a program and a configuration, compiles, and on request lists, writes and runs the image.
-/

namespace SkipCode.Cli

/-- What is asked for on the command line. -/
structure Options where
  program : String
  config : Option String
  disasm : Bool
  run : Bool
  actor : Int64
  emit : Option String
deriving Repr, Inhabited

/-- What a command has done so far: the output, the errors, and the bytes for the file to emit. -/
structure Outcome where
  code : UInt32
  stdout : String
  stderr : String
  emitted : Option (List UInt8)
deriving Repr, Inhabited

namespace Outcome

def start : Outcome := ⟨0, "", "", none⟩

def print (o : Outcome) (line : String) : Outcome := { o with stdout := o.stdout ++ line ++ "\n" }

def complain (o : Outcome) (line : String) :
    Outcome := { o with stderr := o.stderr ++ line ++ "\n" }

/-- The same outcome as a failure. -/
def fail (o : Outcome) : Outcome := { o with code := 1 }

end Outcome

/-- The reason for which a file that is not there cannot be read. -/
def notFound : String := "No such file or directory (os error 2)"

/-- Reads a document from a file, whose text or reason for having none is given. -/
def readFile {α : Type} (what path : String) (decode : Json → Option α)
    (file : Except String String) : Except String α :=
  match file with
  | .error reason => .error s!"Error reading {what} '{path}': {reason}"
  | .ok text =>
    match (Json.parse? text).bind decode with
    | some a => .ok a
    | none => .error s!"Error parsing {what} '{path}': the document does not fit"

/-- Runs units in order on one engine; the first failure ends it. -/
def runUnits (image : Image) (actor : Int64) :
    List String → Engine → Outcome → Option Outcome
  | [], _, o => some o
  | name :: rest, engine, o => do
    let (result, engine) ← engine.runUnit image name actor
    match result with
    | .ok .completed =>
      runUnits image actor rest engine (o.print s!"{name}: completed in {engine.steps} steps")
    | .ok .aborted =>
      runUnits image actor rest engine (o.print s!"{name}: aborted after {engine.steps} steps")
    | .error e => some (o.complain s!"{name}: {e.message}").fail

/-- The unit of the static fields goes first. -/
def runOrder (image : Image) : List String :=
  image.names.filter (· == Session.staticInitUnit)
    ++ image.names.filter (· != Session.staticInitUnit)

/-- The engine that units run on has the capacities of the compilation. -/
def engineConfig (config : LowerConfig) : Engine.Config :=
  { Engine.Config.default with
    globalCapacity := config.globalCapacity, actorCapacity := config.actorCapacity }

/-- Lists and emits what was compiled, as far as that is asked for. -/
def present (options : Options) (result : Compilation) : Outcome :=
  let o := result.diagnostics.foldl (fun o d => o.complain d.toText) Outcome.start
  let o := o.print s!"{result.image.units.length} units, {result.count} elements"
  let o := if options.disasm then { o with stdout := o.stdout ++ result.image.listing } else o
  if options.emit.isSome then { o with emitted := some result.image.toBytes } else o

/-- What a command does with its program and its configuration; `none` when it comes to no end. -/
def execute (options : Options) (program : Source.Program) (config : LowerConfig) :
    Option Outcome := do
  let (result, _) ← (Compiler.new config).compile program
  let o := present options result
  let o ←
    if options.run then
      runUnits result.image options.actor (runOrder result.image) (.new (engineConfig config)) o
    else some o
  return if result.hasErrors then o.fail else o

/-- What a command does, given the text of each file it names, or why it has none. -/
def outcome (options : Options) (file : String → Except String String) : Option Outcome :=
  let program := readFile "program" options.program Source.Program.ofJson? (file options.program)
  let config := match options.config with
    | some path => readFile "config" path LowerConfig.ofJson? (file path)
    | none => .ok LowerConfig.default
  match program, config with
  | .error message, _ => some (Outcome.start.complain message).fail
  | _, .error message => some (Outcome.start.complain message).fail
  | .ok program, .ok config => execute options program config

end SkipCode.Cli
