import SkipCode.Proofs.Completeness
import SkipCode.Proofs.Typing

/-!
# What names stand for

Lowering declares variables of its own, for handles, for results that it keeps, for the indices of
loops and for return addresses, in the same scopes as the source and under names that count up
(`Generated`). A name of another form always means the declaration of the source that is in force
around it, wherever a way leads (`Session.Begins.names_resolve`). A name of that form can be
captured (`captured_by_handle`).
-/

namespace SkipCode

open Lower
open Source (ClassDecl Expr Place Stmt StmtKind)

/-- What a name means where these declarations are in force, the latest first. -/
def Lower.meaning (names : List (String × Variable)) (name : String) : Lower Variable :=
  match names.lookup name with
  | some v => pure v
  | none => throw (.defect (.unresolvedName name))

section

variable {σ : Session} {p : Spot} {name : String}

/-- A name is looked up as the source means it, also behind expressions that are lowered in between.
-/
theorem Spot.Sound.lookup (sound : p.Sound σ) (source : ¬ Generated name) {s : UnitState}
    (same : s.surroundings = p.state.surroundings) :
    run (lookup name) s = run (meaning p.names name) s := by
  have found : s.bound? name = p.names.lookup name := by
    rw [UnitState.bound?_eq source, same, sound.names, lookup_visible source]
  rw [run_lookup, found, meaning]
  cases p.names.lookup name <;> rfl

/-- A name that lowering does not make up means the innermost declaration of the source around it:
the latest one in the body that it stands in, none in the bodies around that one, and no variable
that lowering has declared. At every place that the lowering of a unit comes to it means that as an
expression and, behind the index, as the target of an assignment; a unit that reads a name without a
declaration is rejected for it. In a unit that is lowered no place is missed. -/
theorem Session.Begins.names_resolve {start : Spot} (begins : σ.Begins start)
    (way : Relation.ReflTransGen Spot.Inward start p) (source : ¬ Generated name) :
    (∃ unit pool m, σ.Runs unit pool m ∧ ComesTo m (.new σ unit pool) p.lower p.state ∧
      (p.part = .expr (.var name) → p.names.lookup name = none → ∃ e t,
        run m (.new σ unit pool) = some (.error e, t) ∧ e.cause = .defect (.unresolvedName name)) ∧
      ∀ code t, run m (.new σ unit pool) = some (.ok code, t) → p.Complete σ) ∧
    run (lookup name) p.state = run (meaning p.names name) p.state ∧
    (p.part = .expr (.var name) →
      run (lowerExpr (expander p.depth) (.var name)) p.state =
        run (do return (← meaning p.names name).get) p.state) ∧
    ∀ index op value, p.part = .fragment (.kind (.assign (.var name) index op value)) →
      run (lowerKind (expander p.depth) (.assign (.var name) index op value)) p.state =
        run (do
          let index ← lowerExprs (expander p.depth) index
          let v ← meaning p.names name
          let value := combine op v.get index (← lowerExpr (expander p.depth) value)
          emit (← (v.set name value index : Except LowerError _))) p.state := by
  have sound := begins.sound_of_way way
  have here := sound.lookup source rfl
  have read : run (lowerExpr (expander p.depth) (.var name)) p.state =
      run (do return (← meaning p.names name).get) p.state := by
    rw [lowerExpr, run_bind, here, run_bind]
  refine ⟨?_, here, fun _ => read, fun index op value _ => ?_⟩
  · obtain ⟨unit, pool, m, runs, comes⟩ := begins.comesTo_of_way way
    refine ⟨unit, pool, m, runs, comes, fun var undeclared => ?_, fun code t ran => ?complete⟩
    case complete =>
      obtain ⟨a, u, through, -⟩ := comes.ends ran
      exact sound.complete ⟨a, u, through⟩
    obtain ⟨depth, bodies, names, part, state⟩ := p
    cases var
    -- the look-up fails, and what fails at a place that a unit comes to fails the unit
    have refused : run (lowerExpr (expander depth) (.var name)) state =
        some (.error (.defect (.unresolvedName name)), state) := by
      rw [read, meaning, undeclared]
      rfl
    exact comes.fails refused
  · rw [lowerKind, run_bind, run_bind]
    rcases ran : run (lowerExprs (expander p.depth) index) p.state with _ | ⟨e | values, s⟩
    · rfl
    · rfl
    · -- what the index is lowered to leaves the names as they are
      have behind :=
        sound.lookup source ((Expander.StaysPut.expander p.depth).exprs index _ _ _ ran)
      dsimp only
      rw [assign, run_bind, behind, run_bind]

end

/-! ## A name that is captured -/

namespace AroundNew

def program : Source.Program := ⟨[.named "A" none [] [] []], [], []⟩

def session : Session :=
  match Session.new .default program with
  | .ok σ => σ
  | .error _ => default

theorem session_new : Session.new .default program = .ok session := rfl

def into : Expander := expander (expansionBound session)

def five : Expr := .number (.ofNat 5)

/-- A rule that declares a variable, makes an instance, and reads the variable. -/
def body (name : String) : List Stmt :=
  [.define name (some five), .expr (.newObject "A" []), .define "y" (some (.var name))]

def start : UnitState := ((UnitState.new session "rule" .global).entered unitFrame).opened

/-- The variable that is declared, and the one that its name stands for once the instance is made.
-/
def declaredAndFound (name : String) : Lower (Variable × Variable) := do
  let v ← located .unknown do
    let value ← (some five).mapM (lowerExpr into)
    declare name value false
  lowerStmt into (.expr (.newObject "A" []))
  return (v, ← lookup name)

/-- Whether both are the same slot, if there are both. -/
def sameSlot? (name : String) : Option Bool :=
  match run (declaredAndFound name) start with
  | some (.ok (.indexed v, .indexed w), _) => some (v.slot == w.slot)
  | _ => none

theorem ran_of_sameSlot? {name : String} {same : Bool} (h : sameSlot? name = some same) :
    ∃ v w t, run (declaredAndFound name) start = some (.ok (.indexed v, .indexed w), t) ∧
      same = (v.slot == w.slot) := by
  unfold sameSlot? at h
  split at h
  · next v w t ran => exact ⟨v, w, t, ran, (Option.some.inj h).symm⟩
  · cases h

/-- The way to the place where the name is read. -/
theorem way_to_name {name : String} {v w : Variable} {t : UnitState}
    (h : run (declaredAndFound name) start = some (.ok (v, w), t)) :
    ∃ s, Relation.ReflTransGen Spot.Inward
        ⟨expansionBound session, [], [], .fragment (.stmts (body name)), start⟩
        ⟨expansionBound session, [], [(name, v)], .expr (.var name), s⟩ ∧
      run (lookup name) s = some (.ok w, s) := by
  obtain ⟨v, u, first, h₁⟩ := run_bind_ok.1 h
  obtain ⟨_, u', second, h₂⟩ := run_bind_ok.1 h₁
  obtain ⟨w, _, found, h₃⟩ := run_bind_ok.1 h₂
  cases h₃
  obtain ⟨r, u₁, inside, e, rfl⟩ := run_located first
  obtain rfl : r = .ok v := by
    cases r with
    | error _ => cases e
    | ok a => exact e.symm
  obtain ⟨value, u₂, lowered, declares⟩ := run_bind_ok.1 inside
  -- the two statements before the place, and what they declare in the source: the handle is not
  -- part of it
  have defined : PassesBy into (.define name (some five)) start [(name, v)]
    { u₁ with span := start.span } :=
    .define lowered declares
  have made : PassesBy into (.expr (.newObject "A" [])) { u₁ with span := start.span } [] u' :=
    .other id second
  exact ⟨_, .head (.tail defined) (.head (.tail made) (Spot.way_to_operand _ rfl)),
    run_lookup_eq.2 ⟨(run_lookup_eq.1 found).1, rfl⟩⟩

end AroundNew

open AroundNew in
/-- Behind a `new` the variable `x` is still the one that the rule declares. -/
theorem names_resolve_behind_new : ∃ start p v, Session.new .default program = .ok session ∧
    session.Begins start ∧ Relation.ReflTransGen Spot.Inward start p ∧ ¬ Generated "x" ∧
      p.part = .expr (.var "x") ∧
      p.names = [("x", v)] ∧
        run (lowerExpr (expander p.depth) (.var "x")) p.state = some (.ok v.get, p.state) := by
  have source : ¬ Generated "x" := fun generated => absurd generated.hidden (by decide)
  obtain ⟨v, w, t, ran, -⟩ := ran_of_sameSlot? (show sameSlot? "x" = some true by decide +kernel)
  obtain ⟨s, way, -⟩ := way_to_name ran
  obtain ⟨-, -, read, -⟩ := Session.Begins.names_resolve .rule way source
  exact ⟨_, _, _, session_new, .rule, way, source, rfl, rfl, read rfl⟩

open AroundNew in
/-- The handle of an instance is read in the place of a variable of the source. -/
theorem captured_by_handle :
    ¬ ∀ (config : LowerConfig) (program : Source.Program) (σ : Session) (start p : Spot)
        (name : String),
      Session.new config program = .ok σ → σ.Begins start →
        Relation.ReflTransGen Spot.Inward start p →
      p.part = .expr (.var name) →
        run (lookup name) p.state = run (meaning p.names name) p.state := by
  intro claim
  obtain ⟨v, w, t, ran, same⟩ :=
    ran_of_sameSlot? (show sameSlot? "__new1" = some false by decide +kernel)
  -- the source means what was declared, and the look-up finds what the `new` has bound in front of
  -- it
  obtain ⟨s, way, found⟩ := way_to_name ran
  have meant := found.symm.trans (claim _ _ session _ _ "__new1" session_new .rule way rfl)
  cases meant
  simp at same

end SkipCode
