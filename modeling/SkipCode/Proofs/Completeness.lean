import SkipCode.Proofs.Parts
import SkipCode.Proofs.Visits

/-!
# No place is missed

`Proofs.Visits` shows that lowering takes every way. Here is the other direction: where lowering
gets through the piece at a spot, ways go on from there to all that the source has inside of it
(`Spot.Complete`). A run that succeeds is taken apart; each of its parts is what the constructor of
one step asks for.

* `leadsTo_stmts`: the statements at any depth in a body;
* `leadsTo_exprs`, `Lowered.part`: the expressions of a statement, and the operands of an
  expression;
* `callAt_of_run`, `expands_of_call`: the callee of a call, and its body;
* `newAt_of_run`, `initial_of_run`: the constructor of a `new`, and the initial values of the
  fields;
* `Spot.Sound.complete`: all of them, at every spot that a way leads to.
-/

namespace SkipCode

open Lower
open Source (Branch ConstructorDecl Expr Fragment Loop MethodDecl Part Place Stmt StmtKind kindsOf
  kindsOfBranches)

namespace Spot

variable {p q : Spot} {part : Part}

/-- Lowering gets through the piece at the spot. -/
def Lowered (p : Spot) : Prop := ∃ a t, run p.lower p.state = some (.ok a, t)

/-- A way goes on to the piece. -/
def LeadsTo (p : Spot) (part : Part) : Prop := ∃ q, Relation.ReflTransGen Inward p q ∧ q.part = part

/-- A place leads to its own part. -/
theorem LeadsTo.here (p : Spot) : p.LeadsTo p.part := ⟨p, .refl, rfl⟩

/-- What the inside leads to the outside leads to. -/
theorem LeadsTo.behind (h : q.LeadsTo part) (step : p.Inward q) : p.LeadsTo part := by
  obtain ⟨r, way, there⟩ := h
  exact ⟨r, .head step way, there⟩

/-- A place leads to the part right inside of it. -/
theorem Inward.leadsTo (step : p.Inward q) : p.LeadsTo q.part := (LeadsTo.here q).behind step

/-- What lies behind a spot where lowering gets through is got through, too. -/
theorem Lowered.inward (h : p.Lowered) (step : p.Inward q) : q.Lowered := by
  obtain ⟨a, t, ran⟩ := h
  obtain ⟨b, t', ran', -⟩ := step.comesTo.ends ran
  exact ⟨b, t', ran'⟩

end Spot

/-! ## Statements -/

/-- A statement that lowers passes, with some names declared. -/
theorem Lower.PassesBy.of_run {into : Expander} {first : Stmt} {s t : UnitState}
    (h : run (lowerStmt into first) s = some (.ok (), t)) :
    ∃ declared, PassesBy into first s declared t := by
  obtain ⟨k, span⟩ := first
  by_cases declares : k.IsDefine
  · cases k with
    | define name initial recursive =>
      rw [lowerStmt] at h
      obtain ⟨u, inside, rfl⟩ := run_located_ok h
      rw [lowerKind] at inside
      obtain ⟨value, v, lowered, declares⟩ := run_bind_ok.1 inside
      obtain ⟨w, declares, -⟩ := run_map_ok.1 declares
      exact ⟨_, .define lowered declares⟩
    | _ => cases declares
  · exact ⟨[], .other declares h⟩

namespace Spot

variable {depth : Nat} {bodies : List OpenBody}

/-- A loop that is got through leads to what leads on from its body. -/
theorem Lowered.loopBody {names : List (String × Variable)} {l : Loop} {s : UnitState}
    (h : Lowered ⟨depth, bodies, names, .fragment (.loop l), s⟩) : ∃ names' t,
      Inward ⟨depth, bodies, names, .fragment (.loop l), s⟩
        ⟨depth, bodies, names', .fragment (.stmts l.body), t⟩ := by
  obtain ⟨_, _, ran⟩ := h
  obtain ⟨x, r, round, -⟩ := run_bind_ok.1 ran
  obtain ⟨o, -, entered, -, -⟩ := Source.Loop.run_round_ok.1 round
  exact ⟨_, o, .body entered⟩

/-- The step of a loop that lowers is lowered inside. -/
theorem Lowered.loopStep {names : List (String × Variable)} {l : Loop} {step : Stmt} {s : UnitState}
    (h : Lowered ⟨depth, bodies, names, .fragment (.loop l), s⟩) (known : l.step = some step) : ∃ t,
      Inward ⟨depth, bodies, names, .fragment (.loop l), s⟩ ⟨depth, bodies, names,
        .fragment (.stmt step), t⟩ := by
  obtain ⟨_, _, ran⟩ := h
  obtain ⟨x, r, block, u, v, round, closed, -, -⟩ := Source.Loop.run_lower_ok ran
  exact ⟨_, .inner (.step known round closed) rfl⟩

/-- A counting loop that lowers is lowered inside as a loop. -/
theorem Lowered.forLoop {names : List (String × Variable)} {start step : Option Stmt}
    {condition : Expr} {body : List Stmt} {s : UnitState}
    (h : Lowered ⟨depth, bodies, names, .fragment (.kind (.for start condition step body)), s⟩) :
    ∃ names' t,
      Inward ⟨depth, bodies, names, .fragment (.kind (.for start condition step body)), s⟩
        ⟨depth, bodies, names', .fragment (.loop (.for condition step body)), t⟩ := by
  obtain ⟨a, t, ran⟩ := h
  have ran : run (lowerKind (expander depth) (.for start condition step body)) s =
    some (.ok (), t) := ran
  rw [lowerKind_for] at ran
  obtain ⟨u, inside, -⟩ := run_inScope_ok.1 ran
  cases start with
  | none =>
    have nothing : run (lowerStmts (expander depth) (none : Option Stmt).toList) s.opened =
        some (.ok (), s.opened) := by
      rw [Option.toList, lowerStmts]
      rfl
    exact ⟨names, _, .inner (.for nothing) rfl⟩
  | some first =>
    obtain ⟨_, v, first, -⟩ := run_bind_ok.1 inside
    obtain ⟨declared, passed⟩ := PassesBy.of_run first
    exact ⟨_, v, .for passed⟩

/-- So is a loop over an array. -/
theorem Lowered.forEachLoop {names : List (String × Variable)} {element : String}
    {index : Option String} {array : Expr} {body : List Stmt} {s : UnitState}
    (h : Lowered ⟨depth, bodies, names, .fragment (.kind (.forEach element index array body)), s⟩) :
    ∃ x t,
      Inward ⟨depth, bodies, names, .fragment (.kind (.forEach element index array body)), s⟩
        ⟨depth, bodies, names, .fragment (.loop (.forEach element index x body)), t⟩ := by
  obtain ⟨a, t, ran⟩ := h
  have ran : run (lowerKind (expander depth) (.forEach element index array body)) s =
    some (.ok (), t) := ran
  rw [lowerKind_forEach] at ran
  obtain ⟨x, u, array, -⟩ := run_bind_ok.1 ran
  exact ⟨x, _, .inner (.forEach array) rfl⟩

/-- The last branch of a choice that lowers is lowered inside. -/
theorem Lowered.otherwise {names : List (String × Variable)} {branches : List Branch}
    {body : List Stmt} {s : UnitState}
    (h : Lowered ⟨depth, bodies, names, .fragment (.kind (.cond branches (some body))), s⟩) : ∃ t,
      Inward ⟨depth, bodies, names, .fragment (.kind (.cond branches (some body))), s⟩
        ⟨depth, bodies, names, .fragment (.stmts body), t⟩ := by
  obtain ⟨a, t, ran⟩ := h
  have ran : run (lowerKind (expander depth) (.cond branches (some body))) s =
    some (.ok (), t) := ran
  rw [lowerKind] at ran
  obtain ⟨chain, u, arms, -⟩ := run_bind_ok.1 ran
  exact ⟨_, .inner (.otherwise arms) rfl⟩

/-- An arm that is got through leads to its body and to the next arms. -/
theorem Lowered.arms {names : List (String × Variable)} {more : Bool} {chain : IfChain}
    {condition : Expr} {body : List Stmt} {rest : List Branch} {s : UnitState}
    (h : Lowered ⟨depth, bodies, names, .fragment
      (.arms more chain (.mk condition body :: rest)), s⟩) :
    (∃ t,
      Inward ⟨depth, bodies, names, .fragment (.arms more chain (.mk condition body :: rest)), s⟩
      ⟨depth, bodies, names, .fragment (.stmts body), t⟩) ∧
    ∃ chain' t, Inward ⟨depth, bodies, names,
      .fragment (.arms more chain (.mk condition body :: rest)), s⟩
      ⟨depth, bodies, names, .fragment (.arms more chain' rest), t⟩ := by
  obtain ⟨a, t, ran⟩ := h
  have ran : run (lowerBranches (expander depth) more chain (.mk condition body :: rest)) s =
    some (.ok a, t) := ran
  rw [lowerBranches] at ran
  obtain ⟨x, u, opened, ran⟩ := run_bind_ok.1 ran
  obtain ⟨_, v, lowered, ran⟩ := run_bind_ok.1 ran
  obtain ⟨chain', w, closed, -⟩ := run_bind_ok.1 ran
  exact ⟨⟨_, .inner (.arm opened) rfl⟩, chain', w, .inner (.nextArm opened lowered closed) rfl⟩

-- By recursion over the source, as `kindsOf` has it. What lies behind the first step is got through
-- as well
-- (`Lowered.inward`), so that the induction applies there.
mutual

/-- Every statement of a body is come to, by induction on the syntax. -/
theorem leadsTo_stmts : (body : List Stmt) → ∀ {names s k},
    Lowered ⟨depth, bodies, names, .fragment (.stmts body), s⟩ → k ∈ kindsOf body →
      LeadsTo ⟨depth, bodies, names, .fragment (.stmts body), s⟩ (.fragment (.kind k))
  | [], _, _, _, _, mem => by
    rw [kindsOf] at mem
    cases mem
  | first :: rest, names, s, k, lowered, mem => by
    rw [kindsOf] at mem
    obtain mem | mem := List.mem_append.1 mem
    · have step : Inward ⟨depth, bodies, names, .fragment (.stmts (first :: rest)), s⟩
          ⟨depth, bodies, names, .fragment (.stmt first), s⟩ := .inner .head rfl
      exact (leadsTo_stmt first (lowered.inward step) mem).behind step
    · obtain ⟨a, t, ran⟩ := id lowered
      have ran : run (lowerStmts (expander depth) (first :: rest)) s = some (.ok (), t) := ran
      rw [lowerStmts] at ran
      obtain ⟨_, u, ran, -⟩ := run_bind_ok.1 ran
      obtain ⟨declared, passed⟩ := PassesBy.of_run ran
      have step : Inward ⟨depth, bodies, names, .fragment (.stmts (first :: rest)), s⟩
          ⟨depth, bodies, declared ++ names, .fragment (.stmts rest), u⟩ := .tail passed
      exact (leadsTo_stmts rest (lowered.inward step) mem).behind step

/-- Every part of a statement is. -/
theorem leadsTo_stmt : (first : Stmt) → ∀ {names s k},
    Lowered ⟨depth, bodies, names, .fragment (.stmt first), s⟩ → k ∈ first.kinds →
      LeadsTo ⟨depth, bodies, names, .fragment (.stmt first), s⟩ (.fragment (.kind k))
  | .mk kind span, names, s, k, lowered, mem => by
    rw [Stmt.kinds] at mem
    have step : Inward ⟨depth, bodies, names, .fragment (.stmt (.mk kind span)), s⟩
        ⟨depth, bodies, names, .fragment (.kind kind), { s with span := span }⟩ :=
          .inner .located rfl
    exact (leadsTo_kind kind (lowered.inward step) mem).behind step

/-- So is every part of a kind. -/
theorem leadsTo_kind : (kind : StmtKind) → ∀ {names s k},
    Lowered ⟨depth, bodies, names, .fragment (.kind kind), s⟩ → k ∈ kind.kinds →
      LeadsTo ⟨depth, bodies, names, .fragment (.kind kind), s⟩ (.fragment (.kind k))
  | .cond branches otherwise, names, s, k, lowered, mem => by
    rw [Source.kinds_cond] at mem
    obtain rfl | mem := List.mem_cons.1 mem
    · exact .here _
    have step : Inward ⟨depth, bodies, names, .fragment (.kind (.cond branches otherwise)), s⟩
        ⟨depth, bodies, names, .fragment (.arms otherwise.isSome .new branches), s⟩ :=
          .inner .arms rfl
    obtain mem | mem := List.mem_append.1 mem
    · exact (leadsTo_arms branches (lowered.inward step) mem).behind step
    · cases otherwise with
      | none => cases mem
      | some body =>
        obtain ⟨t, last⟩ := lowered.otherwise
        exact (leadsTo_stmts body (lowered.inward last) mem).behind last
  | .while condition body, names, s, k, lowered, mem => by
    rw [StmtKind.kinds] at mem
    obtain rfl | mem := List.mem_cons.1 mem
    · exact .here _
    have loop : Inward ⟨depth, bodies, names, .fragment (.kind (.while condition body)), s⟩
        ⟨depth, bodies, names, .fragment (.loop (.while condition body)), s⟩ := .inner .while rfl
    obtain ⟨_, t, step⟩ := (lowered.inward loop).loopBody
    exact ((leadsTo_stmts body ((lowered.inward loop).inward step) mem).behind step).behind loop
  | .for start condition step body, names, s, k, lowered, mem => by
    rw [Source.kinds_for] at mem
    obtain rfl | mem := List.mem_cons.1 mem
    · exact .here _
    obtain ⟨_, t, loop⟩ := lowered.forLoop
    have looped := lowered.inward loop
    -- in the start, in the step or in the body
    obtain mem | mem := List.mem_append.1 mem
    · cases start with
      | none =>
        rw [Option.toList, kindsOf] at mem
        cases mem
      | some first =>
        rw [Option.toList, kindsOf, kindsOf, List.append_nil] at mem
        have begins : Inward ⟨depth, bodies, names,
          .fragment (.kind (.for (some first) condition step body)), s⟩
            ⟨depth, bodies, names, .fragment (.stmt first), s.opened⟩ := .inner .start rfl
        exact (leadsTo_stmt first (lowered.inward begins) mem).behind begins
    obtain mem | mem := List.mem_append.1 mem
    · cases step with
      | none =>
        rw [Option.toList, kindsOf] at mem
        cases mem
      | some step =>
        rw [Option.toList, kindsOf, kindsOf, List.append_nil] at mem
        obtain ⟨u, stepped⟩ := looped.loopStep rfl
        exact ((leadsTo_stmt step (looped.inward stepped) mem).behind stepped).behind loop
    · obtain ⟨_, u, inside⟩ := looped.loopBody
      exact ((leadsTo_stmts body (looped.inward inside) mem).behind inside).behind loop
  | .forEach element index array body, names, s, k, lowered, mem => by
    rw [StmtKind.kinds] at mem
    obtain rfl | mem := List.mem_cons.1 mem
    · exact .here _
    obtain ⟨x, t, loop⟩ := lowered.forEachLoop
    obtain ⟨_, u, step⟩ := (lowered.inward loop).loopBody
    exact ((leadsTo_stmts body ((lowered.inward loop).inward step) mem).behind step).behind loop
  | .block body, names, s, k, lowered, mem => by
    rw [StmtKind.kinds] at mem
    obtain rfl | mem := List.mem_cons.1 mem
    · exact .here _
    have step : Inward ⟨depth, bodies, names, .fragment (.kind (.block body)), s⟩
        ⟨depth, bodies, names, .fragment (.stmts body), s.opened⟩ := .inner .block rfl
    exact (leadsTo_stmts body (lowered.inward step) mem).behind step
  | .define .., _, _, _, _, mem | .assign .., _, _, _, _, mem | .break _, _, _, _, _, mem
  | .continue _, _, _, _, _, mem | .return _, _, _, _, _, mem | .delete .., _, _, _, _, mem
  | .expr _, _, _, _, _, mem => by
    obtain rfl := List.mem_singleton.1 mem
    exact .here _

/-- So is every part of a choice's branches. -/
theorem leadsTo_arms : (branches : List Branch) → ∀ {names more chain s k},
    Lowered ⟨depth, bodies, names, .fragment (.arms more chain branches), s⟩ →
      k ∈ kindsOfBranches branches →
      LeadsTo ⟨depth, bodies, names, .fragment (.arms more chain branches), s⟩ (.fragment (.kind k))
  | [], _, _, _, _, _, _, mem => by
    rw [kindsOfBranches] at mem
    cases mem
  | .mk condition body :: rest, names, more, chain, s, k, lowered, mem => by
    rw [kindsOfBranches] at mem
    obtain ⟨⟨t, arm⟩, chain', u, next⟩ := lowered.arms
    obtain mem | mem := List.mem_append.1 mem
    · exact (leadsTo_stmts body (lowered.inward arm) mem).behind arm
    · exact (leadsTo_arms rest (lowered.inward next) mem).behind next

end

end Spot

/-! ## Expressions -/

namespace Lower

variable {into : Expander} {s t : UnitState} {before after : List Expr} {e : Expr}

/-- Lowering no expressions does nothing. -/
theorem lowered_nothing (into : Expander) (s : UnitState) :
    run (lowerExprs into []) s = some (.ok [], s) := by
  rw [lowerExprs]
  rfl

/-- The first of expressions that lower are lowered before. -/
theorem lowered_before {values : List Element}
    (h : run (lowerExprs into (before ++ after)) s = some (.ok values, t)) :
    ∃ values u, run (lowerExprs into before) s = some (.ok values, u) := by
  rw [lowerExprs_append] at h
  obtain ⟨first, u, ran, -⟩ := run_bind_ok.1 h
  exact ⟨first, u, ran⟩

/-- Nothing stands before the only expression. -/
theorem lowered_before_only {o : Option Expr} (row : o.toList = before ++ e :: after) :
    ∃ values u, run (lowerExprs into before) s = some (.ok values, u) := by
  have length := congrArg List.length row
  rw [List.length_append, List.length_cons] at length
  have short : o.toList.length ≤ 1 := by cases o <;> simp
  obtain rfl : before = [] := List.length_eq_zero_iff.1 (by omega)
  exact ⟨[], s, lowered_nothing into s⟩

/-- So of a pair. -/
theorem lowered_before_pair {a b : Expr} {x : Element}
    (first : run (lowerExpr into a) s = some (.ok x, t)) (row : [a, b] = before ++ e :: after) :
    ∃ values u, run (lowerExprs into before) s = some (.ok values, u) := by
  obtain _ | ⟨_, _ | ⟨_, before⟩⟩ := before
  · exact ⟨[], s, lowered_nothing into s⟩
  · cases row
    refine ⟨[x], t, ?_⟩
    rw [lowerExprs, lowerExprs]
    exact run_bind_ok.2 ⟨x, t, first, rfl⟩
  · have length := congrArg List.length row
    simp at length

end Lower

namespace Spot

variable {depth : Nat} {bodies : List OpenBody} {names : List (String × Variable)} {s : UnitState}

/-- Every operand of a statement that lowers is lowered inside. -/
theorem Lowered.operand {k : StmtKind} {e : Expr}
    (h : Lowered ⟨depth, bodies, names, .fragment (.kind k), s⟩) (mem : e ∈ k.operands) :
    ∃ t, Inward ⟨depth, bodies, names, .fragment (.kind k), s⟩ ⟨depth, bodies, names, .expr e,
      t⟩ := by
  obtain ⟨before, after, row⟩ := List.append_of_mem mem
  -- only an index has more than one expression, so that some can stand before this one
  obtain ⟨values, t, passed⟩ :
      ∃ values t, run (lowerExprs (expander depth) before) s = some (.ok values, t) := by
    cases k with
    | define name initial recursive => exact lowered_before_only row
    | assign target index op value =>
      obtain ⟨_, _, ran⟩ := h
      have ran : run (lowerKind (expander depth) (.assign target index op value)) s =
        some (.ok (), _) := ran
      rw [lowerKind] at ran
      obtain ⟨values, u, ran, -⟩ := run_bind_ok.1 ran
      obtain rfl : index = before ++ e :: after := row
      exact lowered_before ran
    | «return» value => exact lowered_before_only row
    | forEach element index array body => exact lowered_before_only (o := some array) row
    | delete object className => exact lowered_before_only (o := some object) row
    | expr value => exact lowered_before_only (o := some value) row
    | _ => cases mem
  exact ⟨t, .operand row passed⟩

/-- So are the operands of an assignment. -/
theorem Lowered.assignment {target : Place} {index : List Expr} {op : Source.AssignOp}
    {value : Expr}
    (h : Lowered ⟨depth, bodies, names, .fragment (.kind (.assign target index op value)), s⟩) :
    (∀ e ∈ target.exprs, ∃ t, Inward ⟨depth, bodies, names,
      .fragment (.kind (.assign target index op value)), s⟩
      ⟨depth, bodies, names, .expr e, t⟩) ∧
    ∃ u, Inward ⟨depth, bodies, names, .fragment (.kind (.assign target index op value)), s⟩
      ⟨depth, bodies, names, .expr value, u⟩ := by
  obtain ⟨_, v, ran⟩ := h
  have ran : run (lowerKind (expander depth) (.assign target index op value)) s =
    some (.ok (), v) := ran
  rw [lowerKind] at ran
  obtain ⟨values, t, lowered, ran⟩ := run_bind_ok.1 ran
  obtain ⟨operands, u, opened⟩ : (∀ e ∈ target.exprs, t.targetOperands target = [e]) ∧
      ∃ u, run (openTarget (expander depth) target) t = some (.ok (), u) := by
    cases target with
    | var name =>
      obtain ⟨w, u, found, -⟩ := run_bind_ok.1 ran
      exact ⟨nofun, u, run_map_ok.2 ⟨w, found, rfl⟩⟩
    | field object className field =>
      obtain ⟨handle, u, first, ran⟩ := run_bind_ok.1 ran
      obtain ⟨w, v, found, -⟩ := run_bind_ok.1 ran
      exact ⟨fun e mem => by rw [List.mem_singleton.1 mem]; rfl, v,
        run_bind_ok.2 ⟨handle, u, first, run_map_ok.2 ⟨w, found, rfl⟩⟩⟩
    | staticField className field =>
      obtain ⟨w, u, found, -⟩ := run_bind_ok.1 ran
      exact ⟨nofun, u, run_map_ok.2 ⟨w, found, rfl⟩⟩
    | actorVar actor name =>
      obtain ⟨w, u, known, ran⟩ := run_bind_ok.1 ran
      obtain ⟨x, v, first, -⟩ := run_bind_ok.1 ran
      refine ⟨fun e mem => ?_, v, run_bind_ok.2 ⟨(), u, run_map_ok.2 ⟨w, known, rfl⟩,
        run_map_ok.2 ⟨x, first, rfl⟩⟩⟩
      rw [List.mem_singleton.1 mem, UnitState.targetOperands, UnitState.actorOf, known]
  exact ⟨fun e mem => ⟨t, .target lowered (operands e mem)⟩, u, .value lowered opened⟩

/-- So is the test of a loop. -/
theorem Lowered.test {l : Loop} {kind : LoopKind} {condition : Expr}
    (h : Lowered ⟨depth, bodies, names, .fragment (.loop l), s⟩)
    (known : l.test? = some (kind, condition)) : ∃ t,
      Inward ⟨depth, bodies, names, .fragment (.loop l), s⟩ ⟨depth, bodies, names, .expr condition,
        t⟩ := by
  obtain ⟨_, _, ran⟩ := h
  obtain ⟨x, r, round, -⟩ := run_bind_ok.1 ran
  obtain ⟨o, -, entered, -, -⟩ := Source.Loop.run_round_ok.1 round
  obtain ⟨y, u, opened⟩ : ∃ y u, run (openLoop (expander depth) kind condition) s =
    some (.ok y, u) := by
    cases l with
    | «while» | «for» =>
      cases known
      obtain ⟨y, u, opened, -⟩ := run_bind_ok.1 entered
      exact ⟨y, u, opened⟩
    | forEach => cases known
  obtain ⟨_, _, ⟨⟩, opened⟩ := run_bind_ok.1 opened
  obtain ⟨block, v, begun, -⟩ := run_bind_ok.1 opened
  exact ⟨_, .test known begun⟩

/-- So are the conditions of a choice. -/
theorem leadsTo_condition {condition : Expr} : (branches : List Branch) → ∀ {more chain s},
    Lowered ⟨depth, bodies, names, .fragment (.arms more chain branches), s⟩ →
      condition ∈ branches.map (fun | .mk condition _ => condition) →
        LeadsTo ⟨depth, bodies, names, .fragment (.arms more chain branches), s⟩ (.expr condition)
  | [], _, _, _, _, mem => nomatch mem
  | .mk first body :: rest, more, chain, s, lowered, mem => by
    obtain ⟨-, chain', t, next⟩ := lowered.arms
    obtain rfl | mem := List.mem_cons.1 mem
    · have step : Inward ⟨depth, bodies, names,
        .fragment (.arms more chain (.mk condition body :: rest)), s⟩
          ⟨depth, bodies, names, .expr condition, s.opened⟩ := .condition
      exact step.leadsTo
    · exact (leadsTo_condition rest (lowered.inward next) mem).behind next

/-- A statement leads to all expressions that stand in it. -/
theorem leadsTo_exprs {k : StmtKind} {e : Expr}
    (h : Lowered ⟨depth, bodies, names, .fragment (.kind k), s⟩) (mem : e ∈ k.exprs) :
    LeadsTo ⟨depth, bodies, names, .fragment (.kind k), s⟩ (.expr e) := by
  cases k with
  | assign target index op value =>
    obtain ⟨targets, u, valued⟩ := h.assignment
    obtain mem | mem := List.mem_append.1 mem
    · obtain mem | mem := List.mem_append.1 mem
      · obtain ⟨t, step⟩ := h.operand mem
        exact step.leadsTo
      · obtain ⟨t, step⟩ := targets e mem
        exact step.leadsTo
    · obtain rfl := List.mem_singleton.1 mem
      exact valued.leadsTo
  | cond branches otherwise =>
    have step : Inward ⟨depth, bodies, names, .fragment (.kind (.cond branches otherwise)), s⟩
        ⟨depth, bodies, names, .fragment (.arms otherwise.isSome .new branches), s⟩ :=
          .inner .arms rfl
    exact (leadsTo_condition branches (h.inward step) mem).behind step
  | «while» condition body =>
    obtain rfl := List.mem_singleton.1 mem
    have loop : Inward ⟨depth, bodies, names, .fragment (.kind (.while e body)), s⟩
        ⟨depth, bodies, names, .fragment (.loop (.while e body)), s⟩ := .inner .while rfl
    obtain ⟨t, step⟩ := (h.inward loop).test rfl
    exact step.leadsTo.behind loop
  | «for» start condition next body =>
    obtain rfl := List.mem_singleton.1 mem
    obtain ⟨_, t, loop⟩ := h.forLoop
    obtain ⟨u, step⟩ := (h.inward loop).test rfl
    exact step.leadsTo.behind loop
  | define | forEach | «return» | delete | expr =>
    obtain ⟨t, step⟩ := h.operand mem
    exact step.leadsTo
  | «break» | «continue» | block => cases mem

/-- An expression leads to all expressions that it lowers first. -/
theorem Lowered.part {e e' : Expr} (h : Lowered ⟨depth, bodies, names, .expr e, s⟩)
    (mem : e' ∈ s.operands e) :
    ∃ t, Inward ⟨depth, bodies, names, .expr e, s⟩ ⟨depth, bodies, names, .expr e', t⟩ := by
  obtain ⟨before, after, row⟩ := List.append_of_mem mem
  obtain ⟨a, v, ran⟩ := h
  have ran : run (lowerExpr (expander depth) e) s = some (.ok a, v) := ran
  obtain ⟨values, t, passed⟩ :
      ∃ values t, run (lowerExprs (expander depth) before) s = some (.ok values, t) := by
    cases e with
    | array items =>
      rw [lowerExpr] at ran
      obtain ⟨values, u, ran, -⟩ := run_bind_ok.1 ran
      obtain rfl : items = before ++ e' :: after := row
      exact lowered_before ran
    | new className index arguments =>
      rw [lowerExpr] at ran
      obtain ⟨values, u, ran, -⟩ := run_bind_ok.1 ran
      obtain rfl : arguments = before ++ e' :: after := row
      exact lowered_before ran
    | index array index =>
      rw [lowerExpr] at ran
      obtain ⟨x, u, ran, -⟩ := run_bind_ok.1 ran
      exact lowered_before_pair ran row
    | binary op lhs rhs =>
      rw [lowerExpr] at ran
      obtain ⟨x, u, ran, -⟩ := run_bind_ok.1 ran
      exact lowered_before_pair ran row
    | field object className field => exact lowered_before_only (o := some object) row
    | not inner | negate inner | length inner => exact lowered_before_only (o := some inner) row
    | actorVar actor name =>
      have row : s.actorOf name actor = before ++ e' :: after := row
      unfold UnitState.actorOf at row
      split at row
      · exact lowered_before_only (o := some actor) row
      · cases before <;> cases row
    | call className method object arguments =>
      have row : s.passed className method object arguments = before ++ e' :: after := row
      rw [lowerExpr_call] at ran
      obtain ⟨callee, u, resolved, ran⟩ := run_bind_ok.1 ran
      obtain ⟨_, w, accepted, ran⟩ := run_bind_ok.1 ran
      obtain rfl := run_resolveCallee_ok resolved
      obtain ⟨arity, rfl⟩ := run_checkArity_ok accepted
      obtain ⟨receivers, x, first, ran⟩ := run_bind_ok.1 ran
      obtain ⟨values, y, second, -⟩ := run_bind_ok.1 ran
      -- receiver and arguments are one row, in which the part stands
      have both : run (lowerExprs (expander depth) (receiverOf callee object ++ arguments)) w =
          some (.ok (receivers ++ values), y) := by
        rw [lowerExprs_append]
        exact run_bind_ok.2 ⟨receivers, x, first, run_bind_ok.2 ⟨values, y, second, rfl⟩⟩
      rw [UnitState.passed, resolved] at row
      dsimp only at row
      rw [if_pos arity] at row
      rw [row] at both
      exact lowered_before both
    | _ => cases mem
  exact ⟨t, .part row passed⟩

end Spot

/-! ## Bodies -/

namespace Lower

variable {into : Expander} {s t : UnitState}

/-- Parameters that were declared are bound. -/
theorem BindsParams.of_run {pairs : List (String × Element)}
    (h : run (pairs.forM fun (param, argument) =>
      discard (declare param (some argument) false)) s = some (.ok (), t)) :
    ∃ names, BindsParams pairs s names t := by
  induction pairs generalizing s with
  | nil =>
    cases h
    exact ⟨[], .nil⟩
  | cons pair rest ih =>
    obtain ⟨_, u, first, others⟩ := run_bind_ok.1 h
    obtain ⟨v, declares, -⟩ := run_map_ok.1 first
    obtain ⟨names, bound⟩ := ih others
    exact ⟨_, .cons declares bound⟩

/-- A call's receiver and parameters that were declared are bound. -/
theorem binds_of_run {receiver : Option Element} {params : List String} {arguments : List Element}
    (h : run (bindCall receiver params arguments) s = some (.ok (), t)) :
    ∃ this u names, BindsThis receiver s this u ∧ BindsParams (params.zip arguments) u names t := by
  cases receiver with
  | none =>
    obtain ⟨names, bound⟩ := BindsParams.of_run h
    exact ⟨[], s, names, .none, bound⟩
  | some receiver =>
    obtain ⟨_, u, this, params⟩ := run_bind_ok.1 h
    obtain ⟨names, bound⟩ := BindsParams.of_run params
    unfold bindThis at this
    split at this
    · next stable => exact ⟨_, u, names, .stable stable this, bound⟩
    · next computed =>
      obtain ⟨v, declares, -⟩ := run_map_ok.1 this
      exact ⟨_, u, names, .computed (Bool.eq_false_iff.2 computed) declares, bound⟩

/-- Lowering that enters a body had depth left. -/
theorem depth_of_run {depth : Nat} {body : List Stmt}
    (h : run ((expander depth).block body) s = some (.ok (), t)) : ∃ d, depth = d + 1 := by
  cases depth with
  | zero => cases h
  | succ d => exact ⟨d, rfl⟩

/-- A body that is expanded has its names bound, and there is depth left for it. -/
theorem body_of_run {depth : Nat} {key : String} {params : List String} {body : List Stmt}
    {receiver : Option Element} {values : List Element} {result : Option IndexedVar}
    (h : run (expandBody (expander depth) key params body receiver values result) s =
      some (.ok (), t)) :
    (∃ d, depth = d + 1) ∧ ∃ this u names v,
      BindsThis receiver (s.opened.entered (s.expanded (some key) result)) this u ∧
        BindsParams (params.zip values) u names v := by
  obtain ⟨_, _, ⟨⟩, h⟩ := run_bind_ok.1 h
  obtain ⟨_, u, inside, -⟩ := run_bind_ok.1 h
  obtain ⟨v, inside, -⟩ := run_inScope_ok.1 inside
  obtain ⟨_, w, bound, lowered⟩ := run_bindCall_ok.1 inside
  obtain ⟨this, x, names, received, given⟩ := binds_of_run bound
  exact ⟨depth_of_run lowered, this, x, names, w, received, given⟩

/-- A call that resolves means a declaration. -/
theorem means_of_run {className : Option String} {method : String} {callee : Callee}
    (h : run (resolveCallee className method) s = some (.ok callee, t)) :
    ∃ d, s.session.Means className method d := by
  cases className with
  | none => exact ⟨_, .function⟩
  | some className =>
    obtain ⟨_, _, ⟨⟩, h₁⟩ := run_bind_ok.1 h
    obtain ⟨⟨owner, decl⟩, u, found, -⟩ := run_bind_ok.1 h₁
    exact ⟨_, .method (run_lift_ok.1 found).1⟩

/-- A call that is got through means something, and its receiver and arguments are lowered. -/
theorem callAt_of_run {className : Option String} {method : String} {object : Option Expr}
    {arguments : List Expr} {x : Element}
    (h : run (lowerExpr into (.call className method object arguments)) s = some (.ok x, t)) :
    ∃ d callee receiver values u, CallAt into className method object arguments s d callee receiver
      values u ∧
      run (expandCall into callee receiver values) u = some (.ok x, t) := by
  rw [lowerExpr_call] at h
  obtain ⟨callee, u, resolved, h₁⟩ := run_bind_ok.1 h
  obtain ⟨_, v, accepted, h₂⟩ := run_bind_ok.1 h₁
  obtain rfl := run_resolveCallee_ok resolved
  obtain ⟨arity, rfl⟩ := run_checkArity_ok accepted
  obtain ⟨receivers, w, first, h₃⟩ := run_bind_ok.1 h₂
  obtain ⟨values, y, second, h₄⟩ := run_bind_ok.1 h₃
  obtain ⟨d, means⟩ := means_of_run resolved
  exact ⟨d, callee, _, values, y, ⟨means, resolved, arity, receivers, w, first, rfl, second⟩, h₄⟩

/-- No region is found where none has the key. -/
theorem findRegion?_eq_none {regions : List Region} {key : String}
    (other : ∀ region ∈ regions, region.key ≠ key) :
    findRegion? regions key = none := by
  have none : regions.findIdx? (fun region => region.key == key) = Option.none :=
    List.findIdx?_eq_none_iff.2 fun region mem => by simp [other region mem]
  rw [findRegion?, none]

/-- Behind its receiver and arguments a call comes into the body of its callee, unless it goes back
into a region. -/
theorem expands_of_call {depth : Nat} {className : Option String} {method : String}
    {object : Option Expr} {arguments : List Expr} {d : Declaration} {callee : Callee}
    {receiver : Option Element} {values : List Element} {x : Element} {u : UnitState}
    (call : CallAt (expander depth) className method object arguments s d callee receiver values u)
    (fresh : callee.decl.recursive = true → ∀ region ∈ s.surroundings.regions,
      region.key ≠ callee.key)
    (h : run (expandCall (expander depth) callee receiver values) u = some (.ok x, t)) :
    ∃ d, depth = d + 1 ∧ ∃ o names v, Expands (expander depth)
      (.call className method object arguments) s o names
      (.fragment (.stmts callee.decl.body)) v := by
  cases recursive : callee.decl.recursive with
  | false =>
    rw [run_expandCall_plain _ receiver values recursive] at h
    split at h
    · cases h
    · next closed =>
      obtain ⟨result, v, ret, h⟩ := run_bind_ok.1 h
      obtain ⟨_, w, h, -⟩ := run_bind_ok.1 h
      obtain ⟨⟨d, deep⟩, this, y, params, z, bound, given⟩ := body_of_run h
      exact ⟨d, deep, _, _, _, .inlined call recursive (Bool.eq_false_iff.2 closed) ret bound given⟩
  | true =>
    have same : u.surroundings.regions = s.surroundings.regions :=
      congrArg Surroundings.regions (call.surroundings (.expander depth))
    have free : findRegion? u.regions callee.key = none := by
      refine findRegion?_eq_none fun region mem => ?_
      -- the surroundings have the regions without their call sites, and the same keys
      have cleared : { region with callSites := [] } ∈ u.surroundings.regions :=
        List.mem_map_of_mem mem
      rw [same] at cleared
      have other := fresh recursive _ cleared
      exact other
    rw [run_expandCall_recursive _ receiver values recursive, free] at h
    obtain ⟨_, v, h, -⟩ := run_bind_ok.1 h
    obtain ⟨result, w, ret, h⟩ := run_bind_ok.1 h
    obtain ⟨address, y, addr, h⟩ := run_bind_ok.1 h
    obtain ⟨_, _, ⟨⟩, h⟩ := run_bind_ok.1 h
    obtain ⟨sites, z, h, -⟩ := run_bind_ok.1 h
    obtain ⟨_, h, -⟩ := run_inScope_ok.1 h
    obtain ⟨region, _, opened, h⟩ := run_bind_ok.1 h
    obtain ⟨_, _, ⟨⟩, h⟩ := run_bind_ok.1 h
    obtain ⟨_, _, ⟨⟩, h⟩ := run_bind_ok.1 h
    obtain ⟨_, _, lowered, -⟩ := run_bind_ok.1 h
    obtain ⟨d, deep⟩ := depth_of_run lowered
    exact ⟨d, deep, _, _, _, .region call recursive free ret addr opened⟩

/-- An instance that lowers is made from lowered arguments. -/
theorem newAt_of_run (stays : into.StaysPut) {className : String} {index : Nat}
    {arguments : List Expr} {x : Element}
    (h : run (lowerExpr into (.new className index arguments)) s = some (.ok x, t)) :
    ∃ values constructor fields handle u v,
      NewAt into className index arguments s values constructor fields handle u ∧
        run (initializeFields into handle.get fields) u = some (.ok (), v) ∧
        run (expandBody into s!"{className}.new#{index}" constructor.params constructor.body
          (some handle.get) values
          none) v = some (.ok (), t) := by
  rw [lowerExpr] at h
  obtain ⟨values, s₁, lowered, h⟩ := run_bind_ok.1 h
  have classes : s₁.session.classes = s.session.classes :=
    congrArg Surroundings.classes (stays.exprs _ _ _ _ lowered)
  rw [expandNew_eq] at h
  -- the class is looked up behind the arguments, but no expression changes the classes
  obtain ⟨_, _, ⟨⟩, h⟩ := run_bind_ok.1 h
  obtain ⟨constructor, _, lifted, h⟩ := run_bind_ok.1 h
  obtain ⟨found, rfl⟩ := run_lift_ok.1 lifted
  unfold accept at h
  split at h
  · obtain ⟨_, _, refused, -⟩ := run_bind_ok.1 h
    cases refused
  next accepted =>
  obtain ⟨fields, _, lifted, h⟩ := run_bind_ok.1 h
  obtain ⟨known, rfl⟩ := run_lift_ok.1 lifted
  -- the handle, in a hidden variable
  obtain ⟨hidden, s₂, named, h⟩ := run_bind_ok.1 h
  obtain ⟨handle, s₃, declares, h⟩ := run_bind_ok.1 h
  obtain ⟨layout, _, lifted, h⟩ := run_bind_ok.1 h
  obtain ⟨laid, rfl⟩ := run_lift_ok.1 lifted
  obtain ⟨_, s₄, prepared, h⟩ := run_bind_ok.1 h
  obtain ⟨_, u, acquired, h⟩ := run_bind_ok.1 h
  obtain ⟨_, v, initialized, h⟩ := run_bind_ok.1 h
  obtain ⟨_, _, body, h⟩ := run_bind_ok.1 h
  cases h
  rw [classes] at found known laid
  exact ⟨values, constructor, fields, handle, u, v,
    ⟨(not_not.1 accepted).trans (length_of_lowerExprs lowered), found, known, s₁, hidden, s₂, s₃,
      layout, s₄, lowered,
      named, declares, laid, prepared, acquired⟩, initialized, body⟩

/-- What a row of steps does begins with what its first steps do. -/
theorem run_forM_append {α : Type} {f : α → Lower PUnit} {before after : List α}
    (h : run ((before ++ after).forM f) s = some (.ok (), t)) :
    ∃ u, run (before.forM f) s = some (.ok (), u) ∧ run (after.forM f) u = some (.ok (), t) := by
  induction before generalizing s with
  | nil => exact ⟨s, rfl, h⟩
  | cons a before ih =>
    obtain ⟨_, v, first, rest⟩ := run_bind_ok.1 h
    obtain ⟨u, passed, rest⟩ := ih rest
    exact ⟨u, run_bind_ok.2 ⟨(), v, first, passed⟩, rest⟩

/-- The initial value of a field is lowered behind those of the fields before it. -/
theorem initial_of_run {depth : Nat} {this : Element} {before after : List (Nat × Option Expr)}
    {stack : Nat} {e : Expr}
    (h : run (initializeFields (expander depth) this (before ++ (stack, some e) :: after)) s =
      some (.ok (), t)) :
    ∃ u v, run (bind "this" (.reference this)) (s.opened.entered (s.expanded none none)) =
      some (.ok (), u) ∧
      run (initialFields (expander depth) this before) u = some (.ok (), v) := by
  obtain ⟨_, _, ⟨⟩, h₁⟩ := run_bind_ok.1 h
  obtain ⟨_, _, h₂, -⟩ := run_bind_ok.1 h₁
  obtain ⟨_, h₃, -⟩ := run_inScope_ok.1 h₂
  obtain ⟨_, _, ⟨⟩, h₄⟩ := run_bind_ok.1 h₃
  obtain ⟨_, u, bound, h₅⟩ := run_bind_ok.1 h₄
  obtain ⟨v, passed, -⟩ := run_forM_append (f := initialField (expander depth) this) h₅
  exact ⟨u, v, bound, passed⟩

end Lower

/-- Ways go on from the spot to all that the source has inside of it. -/
structure Spot.Complete (σ : Session) (p : Spot) : Prop where
  statements {body : List Stmt} {k : StmtKind} : p.part = .fragment (.stmts body) →
    k ∈ kindsOf body →
    p.LeadsTo (.fragment (.kind k))
  expressions {k : StmtKind} {e : Expr} : p.part = .fragment (.kind k) → e ∈ k.exprs →
    p.LeadsTo (.expr e)
  operands {e e' : Expr} : p.part = .expr e → e' ∈ p.state.operands e → p.LeadsTo (.expr e')
  /-- A call leads to the body of its callee, unless it goes back into an open region. -/
  call {className : Option String} {method : String} {object : Option Expr}
    {arguments : List Expr} :
    p.part = .expr (.call className method object arguments) → ∃ d callee receiver values t,
      CallAt (expander p.depth) className method object arguments p.state d callee receiver
        values t ∧
        ((callee.decl.recursive = true →
            ∀ o ∈ p.bodies, ∀ region, o.region = some region → region.key ≠ callee.key) →
          p.LeadsTo (.fragment (.stmts callee.decl.body)))
  /-- A `new` leads to the initial values of the fields and to the body of the constructor. -/
  new {className : String} {index : Nat} {arguments : List Expr} :
    p.part = .expr (.new className index arguments) → ∃ constructor fields,
      σ.classes.constructor className index = .ok constructor ∧
        fieldInitials σ.classes className = .ok fields ∧
        (∀ stack e, (stack, some e) ∈ fields → p.LeadsTo (.expr e)) ∧
          p.LeadsTo (.fragment (.stmts constructor.body))

/-- Where lowering gets through the piece at a spot on a way, no place inside of it is missed. -/
theorem Spot.Sound.complete {σ : Session} {p : Spot} (sound : p.Sound σ) (lowered : p.Lowered) :
    p.Complete σ := by
  obtain ⟨-, -, -, regions, classes, -⟩ := sound
  obtain ⟨depth, bodies, names, part, s⟩ := p
  refine ⟨?statements, ?expressions, ?operands, ?call, ?new⟩
  case statements =>
    rintro body k rfl mem
    exact leadsTo_stmts body lowered mem
  case expressions =>
    rintro k e rfl mem
    exact leadsTo_exprs lowered mem
  case operands =>
    rintro e e' rfl mem
    obtain ⟨t, step⟩ := lowered.part mem
    exact step.leadsTo
  case call =>
    rintro className method object arguments rfl
    obtain ⟨x, t, ran⟩ := lowered
    obtain ⟨d, callee, receiver, values, u, call, expanded⟩ := callAt_of_run ran
    refine ⟨d, callee, receiver, values, u, call, fun fresh => ?_⟩
    -- where the callee is expanded, none of its regions is open
    have other (recursive : callee.decl.recursive = true) :
        ∀ region ∈ s.surroundings.regions, region.key ≠ callee.key := by
      intro region mem
      rw [regions] at mem
      obtain ⟨o, inside, here⟩ := List.mem_filterMap.1 mem
      exact fresh recursive o inside region here
    obtain ⟨d, rfl, o, names', v, expands⟩ := expands_of_call call other expanded
    exact (Inward.expands expands).leadsTo
  case new =>
    rintro className index arguments rfl
    obtain ⟨x, t, ran⟩ := lowered
    obtain ⟨values, constructor, fields, handle, u, v, made, initialized, body⟩ :=
      newAt_of_run (.expander depth) ran
    obtain ⟨⟨d, rfl⟩, this, w, params, y, bound, given⟩ := body_of_run body
    refine ⟨constructor, fields, classes ▸ made.constructor, classes ▸ made.fields,
      fun stack e mem => ?_,
      (Inward.expands (.constructor made initialized bound given)).leadsTo⟩
    -- the initial values before this one were lowered before it
    obtain ⟨before, after, rfl⟩ := List.append_of_mem mem
    obtain ⟨w, y, bound, passed⟩ := initial_of_run initialized
    exact (Inward.expands (.initial made bound passed)).leadsTo

end SkipCode
