import SkipCode.Proofs.LongLoops
import SkipCode.Proofs.Origins

/-!
# Where the reports of a unit point

A unit that begins with statements has its reports from them: what follows its body closes what it
opened, and fails only when the list has grown beyond what a skip can cross.

* `History.reports_point_inwards`: each report of a rule points at the innermost statement that
  makes it, whether it is an exhaustion that lowering went past or the failure that ends the rule
  before it has written `2 ^ 31` actions;
* `long_rule_fails_nowhere`: beyond that it is the list as a whole that is refused, and no
  statement.
-/

namespace SkipCode

open Lower
open Source (MethodDecl Program Span Stmt)

/-- What a unit gives out as the report. -/
def UnitOutput.report? (output : UnitOutput) : Notice → Option LowerError
  | .failure =>
    match output.result with
    | .ok _ => none
    | .error e => some e
  | .shortage before => output.deferred[before]?

/-- Where the body of a rule begins. -/
def Session.rule (σ : Session) (unit : String) (pool : Pool) (body : List Stmt) : Spot :=
  ⟨expansionBound σ, [], [], .fragment (.stmts body),
    ((UnitState.new σ unit pool).entered unitFrame).opened⟩

/-- What a rule has written when its lowering comes to an end, in whichever way. -/
def Session.written (σ : Session) (unit : String) (pool : Pool) (body : List Stmt) :
    Option ActionList :=
  (run (unitBody (lowerStmts (expander (expansionBound σ)) body)) (.new σ unit pool)).map (·.2.list)

section

variable {config : LowerConfig} {program : Program} {past : List Symbol} {σ : Session}
  {unit : String} {pool : Pool} {body : List Stmt} {output : UnitOutput} {i : Notice}
  {e : LowerError}

/-- What ends a unit behind its body notes nothing. -/
theorem Lower.Quiet.ending : Quiet (do
    Lower.closeScope
    closeFrame
    finish) := by
  have finish : Aside finish := by
    refine .bind .get fun s => ?_
    dsimp only
    split
    · refine .bind (.throw _) fun _ => ?_
      split
      · exact .pure _
      · exact .throw _
    · split
      · exact .pure _
      · exact .throw _
  exact .bind .closeScope fun _ => .bind (.aside Slotless.closeFrame.aside) fun _ => .aside finish

/-- A rule has its reports from its body; or the body is lowered, and its list is too long. -/
theorem History.reports_of_body (h : History config program past σ)
    (lowered : σ.lowerUnit unit pool body = some output) (reported : output.report? i = some e) :
    (σ.rule unit pool body).Reports i e ∨
      i = .failure ∧ (∀ e', ¬ (σ.rule unit pool body).Reports .failure e') ∧
        ∃ list c, σ.written unit pool body = some list ∧ 2 ^ 31 ≤ list.length ∧
          list.check = .error c ∧ e = .defect (.badList c) := by
  obtain ⟨⟨r, last⟩, ran, given⟩ := Option.bind_eq_some_iff.1 lowered
  cases given
  have runs := run_unitBody (lowerStmts (expander (expansionBound σ)) body) σ unit pool
  have whole : (lowerStmts (expander (expansionBound σ)) body >>= fun _ => do
      closeScope
      closeFrame
      finish).Reports ((UnitState.new σ unit pool).entered unitFrame).opened i e := by
    cases i with
    | failure =>
      cases r with
      | ok => cases reported
      | error =>
        cases reported
        exact .failure (runs.symm.trans ran)
    | shortage before => exact .shortage (runs.symm.trans ran) (Nat.zero_le _) reported
  obtain inside | ⟨_, t, done, behind⟩ := whole.of_bind fun _ t r u _ next =>
      (Tracks.quiet .ending t r u next).2
  · exact Or.inl inside
  · -- behind the body only the check of the whole list can fail
    obtain ⟨rfl, u, failed⟩ := behind.failed .ending
    obtain ⟨sound, c, flawed, rfl⟩ :=
      failed_behind_body (.stmts (Safe.expander _) body) h.lends h.built done failed
    rw [run_bind, done] at runs
    cases (ran.symm.trans runs).trans failed
    refine Or.inr ⟨rfl, fun e' fails => ?_, last.list, c, Option.map_eq_some_iff.2 ⟨_, ran, rfl⟩,
      Nat.le_of_not_lt fun short => ?_, flawed, rfl⟩
    · cases fails with
      | failure failed' => cases done.symm.trans failed'
    · rw [sound.check short] at flawed
      cases flawed

/-- A report of a rule points at the innermost statement that makes it, in the rule or in a body
that is expanded in it, and there is one. For the failure that ends the rule this holds as long as a
skip can cross what has been written. -/
theorem History.reports_point_inwards (h : History config program past σ) {list : ActionList}
    (wrote : σ.written unit pool body = some list) (short : i = .failure → list.length < 2 ^ 31)
    (lowered : σ.lowerUnit unit pool body = some output) (reported : output.report? i = some e) :
    ∃ span, e.span = some span ∧
      (∃ q, Relation.ReflTransGen Spot.Inward (σ.rule unit pool body) q ∧ q.Raises i e span) ∧
      ∀ q e' span', Relation.ReflTransGen Spot.Inward (σ.rule unit pool body) q →
        q.Raises i e' span' →
        e' = e ∧ span' = span := by
  obtain reported | ⟨failure, -, list', c, wrote', long, -⟩ := h.reports_of_body lowered reported
  -- the body of the rule is no statement, but what it reports one of its statements does
  · obtain ⟨p, way, statement, found⟩ := reported.of_stmts
    obtain ⟨q, span, onward, raises⟩ := found.exists_raises statement
    refine ⟨span, raises.span_eq, ⟨q, way.to_reflTransGen.trans onward, raises⟩,
      fun q' e' span' way' other => ?_⟩
    obtain rfl := reported.eq_of_way way' other.reports other.statement
    exact ⟨rfl, Option.some.inj (other.span_eq.symm.trans raises.span_eq)⟩
  · cases wrote.symm.trans wrote'
    exact absurd (short failure) (Nat.not_lt.2 long)

end

namespace CallBehindCall

/-- Gives back its argument. -/
def same : MethodDecl := .named "same" ["n"] [.mk (.return (some (.var "n"))) ⟨2, 5⟩]

/-- A recursive function that calls itself with one argument too many, in a loop. -/
def down : MethodDecl :=
  (MethodDecl.named "down" ["n"]
    [.mk
      (.while (.var "n") [.mk (.return (some (.callFunction "down" [.var "n", .var "n"]))) ⟨6, 9⟩])
      ⟨5, 5⟩]).markRecursive

def body : List Stmt :=
  [.mk (.block
    [.mk (.define "x" (some (.callFunction "same" [.number (.ofNat 3)])) false) ⟨11, 5⟩,
      .mk (.expr (.callFunction "down" [.var "x"])) ⟨12, 5⟩]) ⟨10, 1⟩]

def config : LowerConfig := { LowerConfig.default with globalCapacity := 1 }

def program : Program := ⟨[], [same, down], [⟨"rule", .global, body⟩]⟩

/-- What the rule gives out, and what it has written. -/
def lowered? : Option (UnitOutput × ActionList) :=
  match Session.new config program with
  | .ok σ => (σ.lowerUnit "rule" .global body).bind fun output =>
      (σ.written "rule" .global body).map fun list => (output, list)
  | .error _ => none

/-- What a report of a unit says, and where it points. -/
def shown (output : UnitOutput) (i : Notice) : Option (String × Option Span) :=
  (output.report? i).map fun e => (e.message, e.span)

theorem exists_output : ∃ σ output list, History config program [] σ ∧
    σ.lowerUnit "rule" .global body = some output ∧ σ.written "rule" .global body = some list ∧
      list.length < 2 ^ 31 ∧
      shown output .failure = some ("internal error: 'down' takes 1 arguments, got 2",
        some ⟨6, 9⟩) ∧
      shown output (.shortage 1) =
        some ("global pool exhausted: cannot allocate 'x' (capacity 1)", some ⟨11, 5⟩) := by
  have computed : lowered?.any (fun (output, list) =>
      decide (list.length < 2 ^ 31 ∧
        shown output .failure = some ("internal error: 'down' takes 1 arguments, got 2",
          some ⟨6, 9⟩) ∧
        shown output (.shortage 1) =
          some ("global pool exhausted: cannot allocate 'x' (capacity 1)", some ⟨11, 5⟩))) =
            true := by
    decide +kernel
  obtain ⟨⟨output, list⟩, found, said⟩ := (Option.any_eq_true _ _).1 computed
  obtain ⟨short, first, second⟩ := of_decide_eq_true said
  unfold lowered? at found
  split at found
  · next σ start =>
    obtain ⟨output', lowered, given⟩ := Option.bind_eq_some_iff.1 found
    obtain ⟨list', wrote, same⟩ := Option.map_eq_some_iff.1 given
    cases same
    exact ⟨σ, output, list, .start start, lowered, wrote, short, first, second⟩
  · cases found

end CallBehindCall

open CallBehindCall in
/-- The wrong call is found in the body of `down`, and the variable `x` is refused its slot behind
the body of `same`; the one points into `down`, the other at the declaration. -/
theorem reports_point_inwards_call_behind_call : ∃ σ output list e e',
    History config program [] σ ∧ σ.written "rule" .global body = some list ∧ list.length < 2 ^ 31 ∧
      σ.lowerUnit "rule" .global body = some output ∧ output.report? .failure = some e ∧
      output.report? (.shortage 1) = some e' ∧
      e.message = "internal error: 'down' takes 1 arguments, got 2" ∧
      e'.message = "global pool exhausted: cannot allocate 'x' (capacity 1)" ∧
      (∃ q, Relation.ReflTransGen Spot.Inward (σ.rule "rule" .global body) q ∧
        q.Raises .failure e ⟨6, 9⟩) ∧
      ∃ q, Relation.ReflTransGen Spot.Inward (σ.rule "rule" .global body) q ∧
        q.Raises (.shortage 1) e' ⟨11, 5⟩ := by
  obtain ⟨σ, output, list, history, lowered, wrote, short, first, second⟩ := exists_output
  obtain ⟨e, failed, said⟩ := Option.map_eq_some_iff.1 first
  obtain ⟨e', refused, said'⟩ := Option.map_eq_some_iff.1 second
  obtain ⟨message, at'⟩ := Prod.mk.inj said
  obtain ⟨message', at''⟩ := Prod.mk.inj said'
  refine ⟨σ, output, list, e, e', history, wrote, short, lowered, failed, refused, message,
    message', ?_, ?_⟩
  · obtain ⟨span, here, found, -⟩ :=
      history.reports_point_inwards wrote (fun _ => short) lowered failed
    cases at'.symm.trans here
    exact found
  · obtain ⟨span, here, found, -⟩ :=
      history.reports_point_inwards wrote (fun _ => short) lowered refused
    cases at''.symm.trans here
    exact found

open LongLoop in
/-- A rule with `2 ^ 31` assignments in a loop fails, as the list that it has written is unfit to
run. Its failure points nowhere. -/
theorem long_rule_fails_nowhere : ∃ list output e, History .default ⟨[], [], []⟩ [] session ∧
    session.written "rule" .global (body (2 ^ 31)) = some list ∧ list.length = 2 ^ 31 + 3 ∧
      session.lowerUnit "rule" .global (body (2 ^ 31)) = some output ∧
      output.report? .failure = some e ∧ e.span = none := by
  obtain ⟨flaw, unfit⟩ := check_done_beyond
  have ran := @run_unit (expander (expansionBound session)) (2 ^ 31)
  rw [checked, unfit] at ran
  exact ⟨_, _, .defect (.badList ⟨0, flaw⟩), .start session_new,
    Option.map_eq_some_iff.2 ⟨_, ran, rfl⟩,
    length_done (2 ^ 31), Session.lowerUnit_of_run ran, rfl, rfl⟩

end SkipCode
