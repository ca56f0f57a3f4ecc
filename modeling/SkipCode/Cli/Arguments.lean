import SkipCode.Cli.Outcome

/-!
# Arguments of the command line
-/

namespace SkipCode.Cli

def usage : String :=
  "Usage: skipcode [--config <FILE>] [--disasm] [--run] [--actor <N>] [--emit <FILE>] <PROGRAM>"

/-- The arguments read so far. -/
structure Draft where
  program : Option String
  config : Option String
  disasm : Bool
  run : Bool
  actor : Option Int64
  emit : Option String

def Draft.start : Draft := ⟨none, none, false, false, none, none⟩

/-- A whole number that fits a signed word. -/
def actor? (text : String) : Option Int64 := do
  let n ← text.toInt?
  if -2 ^ 63 ≤ n ∧ n < 2 ^ 63 then some (Int64.ofInt n) else none

/-- Gives an option its value; each can be given once. -/
def Draft.setOption (p : Draft) (name value : String) : Option Draft :=
  match name with
  | "--config" => if p.config.isSome then none else some { p with config := some value }
  | "--emit" => if p.emit.isSome then none else some { p with emit := some value }
  | "--actor" => do
    let n ← actor? value
    if p.actor.isSome then none else some { p with actor := some n }
  | _ => none

/-- Cuts an argument at its first equals sign. -/
def splitAssignment (argument : String) : String × Option String :=
  let cs := argument.toList
  match cs.dropWhile (· != '=') with
  | '=' :: value => (String.ofList (cs.takeWhile (· != '=')), some (String.ofList value))
  | _ => (argument, none)

/-- Reads arguments from the front. The value of an option follows it, or an equals sign. -/
def Draft.read : Draft → List String → Option Draft
  | p, [] => some p
  | p, "--disasm" :: rest => if p.disasm then none else read { p with disasm := true } rest
  | p, "--run" :: rest => if p.run then none else read { p with run := true } rest
  | p, argument :: rest =>
    if argument.startsWith "--" then
      match splitAssignment argument, rest with
      | (name, some value), rest => do read (← p.setOption name value) rest
      | (name, none), value :: rest => do read (← p.setOption name value) rest
      | (_, none), [] => none
    else if p.program.isSome then none
    else read { p with program := some argument } rest

/-- The options that some arguments mean; `none` when they mean nothing. -/
def Options.ofArguments? (arguments : List String) : Option Options := do
  let p ← Draft.start.read arguments
  return {
    program := ← p.program
    config := p.config
    disasm := p.disasm
    run := p.run
    actor := p.actor.getD Engine.defaultActor
    emit := p.emit }

end SkipCode.Cli
