import SkipCode.Cli.Arguments

/-!
# The program

Reads the files that the arguments name, and prints and writes what `Cli.outcome` says.
-/

namespace SkipCode.Cli

/-- The text of a file, or why it cannot be read. -/
def readText (path : String) : IO (Except String String) := do
  try
    return .ok (← IO.FS.readFile path)
  catch
    | .noFileOrDirectory .. => return .error notFound
    | e => return .error (toString e)

/-- The texts of the files that a command reads. -/
def readTexts (options : Options) : IO (String → Except String String) := do
  let program ← readText options.program
  let config ← match options.config with
    | some path => readText path
    | none => pure (.error notFound)
  return fun path => if path == options.program then program else config

end SkipCode.Cli

open SkipCode in
def main (arguments : List String) : IO UInt32 := do
  match Cli.Options.ofArguments? arguments with
  | none =>
    IO.eprintln Cli.usage
    return 2
  | some options =>
    match Cli.outcome options (← Cli.readTexts options) with
    | none =>
      IO.eprintln "the expansion of the program has no end"
      return 1
    | some outcome =>
      IO.eprint outcome.stderr
      IO.print outcome.stdout
      match options.emit, outcome.emitted with
      | some path, some bytes => IO.FS.writeBinFile path ⟨bytes.toArray⟩
      | _, _ => pure ()
      return outcome.code
