import SkipCode.Action.Flaw
import SkipCode.Control.Stage
import SkipCode.Source.Syntax

/-!
# Why lowering fails

There are three kinds of causes. A pool can be *exhausted*. A construct can be *unsupported* by
the target. Everything else is a *defect*: a name that does not resolve in a tree that should have
been resolved, or a rule of the lowering itself that was broken. The wording of every cause is in
`message`; an error is a cause with the position of the innermost statement it arose in.
-/

namespace SkipCode

open Source (Span)

/-- A broken rule. -/
inductive Defect where
  -- names that do not resolve
  | unresolvedName (name : String)
  | unknownClass (className : String)
  | unknownFunction (name : String)
  | noInstanceField (className field : String)
  | noStaticField (className field : String)
  | noMethod (className method : String)
  | noConstructor (className : String) (index : Nat)
  | lostField (owner field : String)
  | wrongArgumentCount (callee : String) (expected actual : Nat)
  | wrongConstructorArgumentCount (className : String) (index expected actual : Nat)
  -- declarations that contradict each other
  | classDeclaredTwice (className : String)
  | unknownBase (className base : String)
  | functionDeclaredTwice (name : String)
  | ruleDeclaredTwice (name : String)
  -- skips
  | notASkip (position : Nat) (action : Action)
  | skipPastEnd (position : Nat)
  | skipAlreadyResolved (position : Nat) (count : Int32)
  | badList (error : CheckError)
  -- blocks
  | wrongStage (step : String) (actual expected : Stage)
  | noExitSkip (block : String)
  | noLoopFrame
  | conditionForForEach
  | guardWithoutCondition
  | loopsOutOfOrder (closing innermost : Nat)
  | noLoopElement
  -- storage
  | freedUnallocated (pool : Pool) (slot : UInt32)
  | freedTwice (pool : Pool) (slot : UInt32)
  | popWithoutPush (name : String)
  | fieldStackSkipped (index created : Nat)
  | notStacked (name : String)
  -- scopes and frames
  | scopeClosedTwice
  | declarationOutsideScope
  | noFrame
  | frameClosedTwice
  | returnOutsideFrame
  | regionClosedTwice
  | unitLeftOpen (unit : String) (scopes frames loops : Nat)
deriving BEq, Repr

/-- A construct that the target cannot express. -/
inductive Unsupported where
  | assignToReference (name : String)
  | inheritanceCycle (className : String) (path : List String)
  | noSuchLoop (exit : String) (depth : UInt32)
  | selfCall (callee : String)
  | actorAccess (name : String)
deriving BEq, Repr

inductive Cause where
  | exhausted (pool : Pool) (capacity : UInt32) (owner : String)
  | defect (defect : Defect)
  | unsupported (construct : Unsupported)
deriving BEq, Repr

/-- A failure with the position it is reported at. -/
structure LowerError where
  cause : Cause
  span : Option Span
deriving BEq, Repr

def Defect.message : Defect → String
  | unresolvedName name => s!"unresolved name '{name}'"
  | unknownClass className => s!"unknown class '{className}'"
  | unknownFunction name => s!"unknown function '{name}'"
  | noInstanceField className field => s!"class '{className}' has no instance field '{field}'"
  | noStaticField className field => s!"class '{className}' has no static field '{field}'"
  | noMethod className method => s!"class '{className}' has no method '{method}'"
  | noConstructor className index => s!"class '{className}' has no constructor #{index}"
  | lostField owner field => s!"lost field {owner}.{field}"
  | wrongArgumentCount callee expected actual =>
    s!"'{callee}' takes {expected} arguments, got {actual}"
  | wrongConstructorArgumentCount className index expected actual =>
    s!"constructor #{index} of '{className}' takes {expected} arguments, got {actual}"
  | classDeclaredTwice className => s!"class '{className}' declared twice"
  | unknownBase className base => s!"class '{className}' extends unknown class '{base}'"
  | functionDeclaredTwice name => s!"function '{name}' declared twice"
  | ruleDeclaredTwice name => s!"rule '{name}' declared twice"
  | notASkip position action => s!"action {position} is not a skip: {action.toDetailedText}"
  | skipPastEnd position => s!"skip {position} is past the end of the list"
  | skipAlreadyResolved position count => s!"skip {position} already resolved to {count.toInt}"
  | badList error => error.message
  | wrongStage step actual expected =>
    s!"{step} called in state {actual.name}, expected {expected.name}"
  | noExitSkip block => s!"{block} finished without an exit skip"
  | noLoopFrame => "loop finished with no open loop frame"
  | conditionForForEach => "foreach loop given an explicit condition"
  | guardWithoutCondition => "loop guard without a condition"
  | loopsOutOfOrder closing innermost =>
    s!"loop frames out of order: closing {closing} but innermost is {innermost}"
  | noLoopElement => "foreach loop without an element"
  | freedUnallocated pool slot => s!"{pool.toText} slot {slot} freed but never allocated"
  | freedTwice pool slot => s!"{pool.toText} slot {slot} freed twice"
  | popWithoutPush name => s!"recursive variable '{name}' popped without a matching push"
  | fieldStackSkipped index created => s!"field stack {index} skipped ({created} created)"
  | notStacked name => s!"'{name}' declared recursive but bound to a plain variable"
  | scopeClosedTwice => "scope closed twice"
  | declarationOutsideScope => "declaration outside any scope"
  | noFrame => "no method frame open"
  | frameClosedTwice => "method frame closed twice"
  | returnOutsideFrame => "return outside any frame"
  | regionClosedTwice => "recursive region closed twice"
  | unitLeftOpen unit scopes frames loops =>
    s!"unit '{unit}' ended with {scopes} scopes, {frames} frames and {loops} loops open"

/-- What is not supported. -/
def Unsupported.construct : Unsupported → String
  | assignToReference name => s!"assignment to '{name}'"
  | inheritanceCycle className _ => s!"class '{className}'"
  | noSuchLoop exit depth => s!"{exit} {depth}"
  | selfCall callee => s!"call to '{callee}'"
  | actorAccess name => s!"actor access to '{name}'"

/-- Why it is not supported. -/
def Unsupported.reason : Unsupported → String
  | assignToReference _ => "the name is bound to a read-only value"
  | inheritanceCycle _ path => "inheritance cycle through " ++ " -> ".intercalate path
  | noSuchLoop _ _ => "there is no enclosing loop at that depth"
  | selfCall _ => "a method that is not marked recursive calls itself"
  | actorAccess _ => "only per-actor variables have a copy per actor"

def Cause.message : Cause → String
  | exhausted pool capacity owner =>
    s!"{pool.toText} pool exhausted: cannot allocate '{owner}' (capacity {capacity})"
  | defect d => s!"internal error: {d.message}"
  | unsupported c => s!"{c.construct} is not supported: {c.reason}"

/-- The name of the kind of a cause. -/
def Cause.kind : Cause → String
  | exhausted .. => "ResourceExhausted"
  | defect _ => "InvariantViolation"
  | unsupported _ => "UnsupportedConstruct"

namespace LowerError

def exhausted (pool : Pool) (capacity : UInt32) (owner : String) : LowerError :=
  ⟨.exhausted pool capacity owner, none⟩

def defect (d : Defect) : LowerError := ⟨.defect d, none⟩

def unsupported (c : Unsupported) : LowerError := ⟨.unsupported c, none⟩

/-- Adds a position, unless the error has one already, which is then the more precise one. -/
def withSpan (span : Span) (e : LowerError) : LowerError := { e with span := e.span <|> some span }

@[simp] theorem span_withSpan (e : LowerError) (span : Span) :
    (e.withSpan span).span = some (e.span.getD span) := by
  obtain ⟨_, s⟩ := e
  cases s <;> rfl

@[simp] theorem cause_withSpan (e : LowerError) (span : Span) :
    (e.withSpan span).cause = e.cause := rfl

def message (e : LowerError) : String := e.cause.message

def kind (e : LowerError) : String := e.cause.kind

end LowerError

end SkipCode
