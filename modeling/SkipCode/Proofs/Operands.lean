import SkipCode.Proofs.Activations
import SkipCode.Proofs.Issued
import SkipCode.Proofs.Stacks

/-!
# When operands are read

The operands of an expression become elements, which are evaluated by the action that needs the
value of the whole expression. The actions of a call come before that action. So a call on the right
is over when an operand on the left of it is read.

* `operands_kept`: that makes no difference to an operand that reads no field. Outside of recursive
  bodies its slots are its own; inside, its variables are on stacks, where a call that enters the
  body again leaves what its activation has;
* `LateRead.static_read_late`: but what the call assigns to a static field is what the left operand
  is.
-/

namespace SkipCode

open Engine (Host Memory)
open Lower
open Source (ClassDecl Expr FieldDecl MethodDecl Program Stmt)

/-- Outside of recursive bodies expressions write to no slot that the unit has before them, since
their code gets slots of its own and the storage of instances has none of the unit's. -/
theorem Lowers.writes_new {es : List Expr} {s t : UnitState} {c : Code} {xs : List Element}
    {past : List Symbol} (h : Lowers (.exprs es) s c xs t) (outside : s.regions = [])
    (orderly : t.Orderly past) (clean : t.deferred = []) :
    c.WritesIn fun l => l ∉ s.symbols.map Symbol.location := by
  have grants :=
    orderly.grants (P := (· ∉ s.symbols.map Symbol.location)) clean h.steady.grows.symbols
    fun l old => not_not.1 old
  have held :=
    h.stays none grants ⟨List.suffix_refl _, fun region mem => by simp [outside] at mem⟩ (.exprs es)
  exact held.code.writesIn nofun

/-- Operands read places that the unit knows behind them. -/
theorem lowerExprs_placed {depth : Nat} {es : List Expr} {s u : UnitState} {xs : List Element}
    (placed : s.Confined fun cell => cell.location ∈ u.places)
    (lowered : run (lowerExprs (expander depth) es) s = some (.ok xs, u)) :
    AllConfined (fun cell => cell.location ∈ u.places) xs := by
  have foreign : Foreign fun cell => cell.location ∈ u.places := fun _ _ _ known => known
  have confines := Lower.Confines.exprs (Lower.Confines.expander depth _) es fun e _ =>
    e.admitted_of_foreign foreign
  exact (confines.confined trivial s xs u lowered
    (fun l hl => by rwa [Location.location_cell]) placed).2

/-- What an operand that reads no field is stays as it is while the operands behind it are computed,
whatever they call. In the body of a region, which they may enter again, an operand reads stacks,
and what is known of these places is what types the code of the body. -/
theorem operands_kept {depth : Nat} {first later : List Expr} {s u t : UnitState}
    {xs ys : List Element} {past : List Symbol} (orderly : s.Orderly past)
    (placed : s.Confined fun cell => cell.location ∈ u.places)
    (lowered : run (lowerExprs (expander depth) first) s = some (.ok xs, u))
    (lowered' : run (lowerExprs (expander depth) later) u = some (.ok ys, t))
    (clean : t.deferred = []) :
    ∃ c, Lowers (.exprs later) u c ys t ∧ Laid u c t ∧
      (s.regions = [] →
        ∀ x ∈ xs, (x.Confined fun cell => cell.location ∉ u.session.classData.locations) →
          ∀ (h : Host) (m m' : Memory) (exit : Exit), Exec h [] c m exit m' →
            Engine.eval (h.context m') x = Engine.eval (h.context m) x) ∧
      ∀ (S : Location → Prop) (τ : List RoutineType) (L : List LoopType) (R : List Location)
        (low : Nat),
        Accounts S t → Ready S τ L R low u → Roomy L low u →
        ∀ x ∈ xs, ∀ (h : Host) (ρ : List Routine) (m m' : Memory) (exit : Exit),
          (x.Confined fun cell => cell.Occupied h S m) → h.config.maxArrayLength ≤ 2 ^ 53 →
          RoutinesBalanced S ρ τ → Exec h ρ c m exit m' →
            Engine.eval (h.context m') x = Engine.eval (h.context m) x := by
  have bodies := yields_expander depth
  obtain ⟨c, derived, laid⟩ := yields_exprs bodies later u ys t lowered' clean
  obtain ⟨c', derived', -⟩ := yields_exprs bodies first s xs u lowered (derived.clean clean)
  refine ⟨c, derived, laid, fun outside x mem local' h m m' exit exec => ?_, ?_⟩
  · have outside' : u.regions = [] := by
      have same := derived'.steady.regions
      rw [outside] at same
      exact List.forall₂_nil_left_iff.1 same
    have orderly' : t.Orderly past := by
      have preserves (es : List Expr) : Lower.Preserves (UnitState.Orderly past)
        (lowerExprs (expander depth) es) :=
        (Lower.Composed.exprs (.expander depth) es).preserves
      exact preserves later _ _ _ lowered' (preserves first _ _ _ lowered orderly)
    -- all that the operand reads is at places that the unit knows, so what is no field is a slot of
    -- its own
    have mentions := lowerExprs_placed placed lowered x mem
    refine exec.eval_kept (derived.writes_new outside' orderly' clean) (fun _ hr => by cases hr)
      fun cell hc => ?_
    have own := (List.mem_append.1 (mentions cell hc)).resolve_right (local' cell hc)
    exact fun other => other own
  · intro S τ L R low accounts ready roomy x mem h ρ m m' exit reads limit routines exec
    -- a stack that the operand reads is no place of the storage, so the unit had it before the
    -- later operands
    have mentions := lowerExprs_placed placed lowered x mem
    refine derived.eval_kept accounts ready roomy limit routines exec fun cell hc =>
      ⟨reads cell hc, ?_⟩
    obtain ⟨l, stack, rfl, -⟩ := reads cell hc
    refine (List.mem_append.1 (mentions _ hc)).resolve_right fun stored => ?_
    have before := accounts.of_grows derived.steady.grows
    rw [Location.location_cell] at stored
    exact before.storage l stored stack

/-- A unit starts with its first scope and mentions nothing. -/
theorem Session.start_confined {Q : Cell → Prop} (σ : Session) (whole : σ.classData.Whole)
    (foreign : Foreign Q) (unit : String) (pool : Pool) : (σ.start unit pool).Confined Q := by
  refine ⟨.nil, fun scope hs => ?_, fun frame hf v hv => ?_, fun _ hr => (by cases hr), whole,
    fun _ _ => admitted_of_foreign foreign _, fun e _ => e.admitted_of_foreign foreign⟩
  · rw [List.mem_singleton.1 hs]
    exact Scope.confined_empty
  · rw [List.mem_singleton.1 hf] at hv
    cases hv

namespace LateRead

def count : Expr := .staticField "C" "count"

def assignCount (n : Nat) : Stmt :=
  .ofKind (.assign (.staticField "C" "count") [] .set (.number (.ofNat n)))

/-- `C.bump()` assigns 5 to the static field `C.count` and returns 0. -/
def bump : MethodDecl :=
  { MethodDecl.named "bump" [] [assignCount 5, .ofKind (.return (some (.number (.ofNat 0))))] with
    isStatic := true }

def program : Program := ⟨[.named "C" none [.static "count" none] [] [bump]], [], []⟩

def bumped : Expr := .call (some "C") "bump" none []

/-- What two operands become that stand one behind the other at the start of a rule. -/
def operands? (σ : Session) (first later : Expr) :
    Option (List Element × UnitState × List Element × UnitState) :=
  match run (lowerExprs (expander (expansionBound σ)) [first]) (σ.start "rule" .global) with
  | some (.ok xs, u) =>
    match run (lowerExprs (expander (expansionBound σ)) [later]) u with
    | some (.ok ys, t) => some (xs, u, ys, t)
    | _ => none
  | _ => none

theorem operands?_some {σ : Session} {first later : Expr} {xs ys : List Element} {u t : UnitState}
    (h : operands? σ first later = some (xs, u, ys, t)) :
    run (lowerExprs (expander (expansionBound σ)) [first]) (σ.start "rule" .global) =
      some (.ok xs, u) ∧
      run (lowerExprs (expander (expansionBound σ)) [later]) u = some (.ok ys, t) := by
  unfold operands? at h
  split at h
  · next first =>
    split at h
    · next later =>
      cases h
      exact ⟨first, later⟩
    · cases h
  · cases h

/-- In `1 + C.bump()` with `C.bump()` behind it the first sum reads the slot of its own result. -/
theorem operands_kept_bumped : ∃ σ xs u ys t, Session.new .default program = .ok σ ∧
    operands? σ (.binary .add (.number (.ofNat 1)) bumped) bumped = some (xs, u, ys, t) ∧
      ∃ c, Lowers (.exprs [bumped]) u c ys t ∧ ∃ x ∈ xs, x.cells ≠ [] ∧
        ∀ (h : Host) (m m' : Memory) (exit : Exit), Exec h [] c m exit m' →
          Engine.eval (h.context m') x = Engine.eval (h.context m) x := by
  have computed : (Session.new .default program).toOption.any (fun σ =>
      (operands? σ (.binary .add (.number (.ofNat 1)) bumped) bumped).any fun r =>
        r.2.2.2.deferred.isEmpty && r.1.any fun x => !x.cells.isEmpty && x.cells.all fun cell =>
          !r.2.1.session.classData.locations.contains cell.location) = true := by decide +kernel
  obtain ⟨σ, started, computed⟩ := (Option.any_eq_true _ _).1 computed
  have new : Session.new .default program = .ok σ := by
    cases h : Session.new .default program with
    | error e => simp [h, Except.toOption] at started
    | ok τ => simpa [h, Except.toOption] using started
  obtain ⟨⟨xs, u, ys, t⟩, found, computed⟩ := (Option.any_eq_true _ _).1 computed
  simp only [Bool.and_eq_true, List.isEmpty_iff, List.any_eq_true, List.all_eq_true,
    Bool.not_eq_true',
    List.contains_eq_mem, decide_eq_false_iff_not] at computed
  obtain ⟨clean, x, mem, cells, apart⟩ := computed
  obtain ⟨first, later⟩ := operands?_some found
  have history : History .default program [] σ := .start new
  -- without reuse a new session hands out its slots in order
  have orderly : (σ.start "rule" .global).Orderly [] :=
    (history.orderly rfl "rule" .global).congr rfl rfl rfl
  obtain ⟨c, derived, -, kept, -⟩ := operands_kept orderly
    (σ.start_confined history.whole (fun _ _ _ known => known) _ _) first later clean
  exact ⟨σ, xs, u, ys, t, new, found, c, derived, x, mem, fun e => by simp [e] at cells,
    kept rfl x mem apart⟩

/-- A rule that assigns 1 to `C.count`, and adds the result of `C.bump()` to it. -/
def rule : List Stmt :=
  [assignCount 1, .define "out" (some (.binary .add count bumped))]

/-- Whether the rule begins by writing 1 to a slot, and ends with 5 as the sum of that slot, which
is 5 by then, and of another one, which is 0. -/
def readsLate (output : UnitOutput) (list : ActionList) (e : Engine) : Bool :=
  match list.get? 0, list.get? (list.length - 1) with
  | some (.set .global slot none (.number x)),
    some
      (.set .global sum none (.arithmetic .add (.variable .global lhs) (.variable .global rhs))) =>
    decide (x = .ofNat 1) && decide (lhs = slot) && decide ((e.global lhs).asNumber = .ofNat 5) &&
      decide ((e.global rhs).asNumber = .ofNat 0) &&
      output.symbols.any fun sym =>
        sym.name == "out" && sym.slot == sum && decide ((e.global sum).asNumber = .ofNat 5)
  | _, _ => false

/-- From left to right the sum is 1. The rule gives 5, since the static field is read behind the
call. -/
theorem static_read_late : ∃ σ output list e,
    FirstRun .default program rule (.new .default) σ output list e ∧ output.deferred = [] ∧
      readsLate output list e = true := by
  obtain ⟨σ, output, list, e, first, h⟩ := exists_firstRun .default program rule (.new .default)
    (fun output list e => output.deferred.isEmpty && readsLate output list e) (by decide +kernel)
  simp only [Bool.and_eq_true, List.isEmpty_iff] at h
  exact ⟨σ, output, list, e, first, h⟩

end LateRead

end SkipCode
