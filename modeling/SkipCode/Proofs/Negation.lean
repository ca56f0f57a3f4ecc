import SkipCode.Proofs.Guards
import SkipCode.Proofs.LoopSteps
import SkipCode.Proofs.Pieces

/-!
# Negations as guards and as values

The negation of a condition folds into it where it can: a comparison becomes its inverse, a constant
flips, and a negation loses its sign.

* `Guarding.step_eq`: a guard is taken when its condition does not hold, unless a NaN is compared by
  order, when it is not taken although the condition does not hold either;
* `Lower.negation_value`: as a value an odd number of negations is a boolean, and an even number of
  them is what they negate, whatever that is;
* `loop_entered_of_nan`, `double_negation_kept`: a loop whose condition does not hold makes three
  rounds, and `!!5` is 5.
-/

namespace SkipCode

open Engine (Context)
open Lower
open Source (Expr Program Stmt)

/-! ## Guards -/

/-- An action is the guard of a conditional or a loop with a condition, as it is pushed. -/
inductive Guarding (condition : Element) : Action → Prop
  | branch {block block' : IfBlock} {list list' : ActionList} {action : Action} :
      block.setup condition list = .ok (block', list') → list'.get? list.length = some action →
      Guarding condition action
  | loop {block block' : LoopBlock} {flow flow' : Flow} {action : Action} :
      Attempt.run (LoopBlock.guard (some condition)) (block, flow) = (.ok (), block', flow') →
      flow'.list.get? flow.list.length = some action → Guarding condition action

/-- A skip that is written stands at the end, waiting. -/
theorem ActionList.get?_pushSkip (list : ActionList) (condition : Option Element) :
    (list.pushSkip condition).get? list.length = some (pendingSkip condition) := by
  rw [get?_eq_toList, pushSkip, toList_push, ← length_toList, List.getElem?_concat_length]

/-- A guard skips when the negation of its condition holds. -/
theorem Guarding.eq {condition : Element} {action : Action} (guarding : Guarding condition action) :
    action = .skipIf condition.negate none := by
  cases guarding with
  | branch setup here =>
    obtain ⟨_, -, setup⟩ := except_bind_ok.1 setup
    cases setup
    rw [ActionList.get?_pushSkip] at here
    cases here
    rfl
  | @loop block block' flow flow' action guard here =>
    obtain ⟨exit, leaves, -, rfl⟩ := LoopBlock.run_guard_ok guard
    rw [ActionList.get?_pushSkip] at here
    cases here
    -- a loop over an array takes no condition
    cases kind : block.kind with
    | forEach array index =>
      rw [kind] at leaves
      cases leaves
    | _ =>
      rw [kind] at leaves
      cases leaves
      rfl

/-- What is no number is below nothing. -/
theorem Binary64.less_of_isNaN {x y : Binary64} (h : x.isNaN = true ∨ y.isNaN = true) :
    x.less y = false := by
  rcases h with h | h <;> simp [less, h]

/-- Nor is it below or equal. -/
theorem Binary64.lessEq_of_isNaN {x y : Binary64} (h : x.isNaN = true ∨ y.isNaN = true) :
    x.lessEq y = false := by
  rcases h with h | h <;> simp [lessEq, less, equal, h]

/-- Of two values of which one is a NaN, no order holds. -/
theorem Engine.compare_of_isNaN {op : Comparison} {a b : Value} (order : op.IsOrder)
    (h : a.asNumber.isNaN = true ∨ b.asNumber.isNaN = true) : Engine.compare op a b = false := by
  cases op with
  | equal | notEqual => exact order.elim
  | less => exact Binary64.less_of_isNaN h
  | lessEqual => exact Binary64.lessEq_of_isNaN h
  | greater => exact Binary64.less_of_isNaN h.symm
  | greaterEqual => exact Binary64.lessEq_of_isNaN h.symm

/-- The inverse of an order is one. -/
theorem Comparison.IsOrder.inverse {op : Comparison} (order : op.IsOrder) : op.inverse.IsOrder := by
  cases op <;> exact order

/-- An order and its inverse are opposites of each other when no NaN is compared, and only then. -/
theorem Engine.compare_inverse_iff {op : Comparison} {a b : Value} :
    (Engine.compare op.inverse a b = !Engine.compare op a b) ↔
      (op.IsOrder → a.asNumber.isNaN = false ∧ b.asNumber.isNaN = false) := by
  refine ⟨fun opposite order => ?_, Engine.compare_inverse⟩
  by_contra some
  have nan : a.asNumber.isNaN = true ∨ b.asNumber.isNaN = true := by
    rw [not_and_or, Bool.not_eq_false, Bool.not_eq_false] at some
    exact some
  rw [compare_of_isNaN order nan, compare_of_isNaN order.inverse nan] at opposite
  cases opposite

/-- Where a NaN is compared by order, neither the condition nor its negation holds. -/
theorem Element.negate_of_not_compares {c : Context} {e : Element} {v : Value}
    (nan : ¬ e.Compares c) (value : Engine.eval c e = .ok v) :
    v.truthy = false ∧ ∃ w, Engine.eval c e.negate = .ok w ∧ w.truthy = false := by
  cases e with
  | compare lhs op rhs =>
    rw [Element.Compares] at nan
    push Not at nan
    obtain ⟨order, a, b, ha, hb, some⟩ := nan
    have nan : a.asNumber.isNaN = true ∨ b.asNumber.isNaN = true := by
      cases h : a.asNumber.isNaN with
      | true => exact Or.inl rfl
      | false => exact Or.inr (by simpa using some h)
    rw [Engine.eval, ha, hb] at value
    cases value
    refine ⟨Engine.compare_of_isNaN order nan, .bool (Engine.compare op.inverse a b), ?_,
      Engine.compare_of_isNaN order.inverse nan⟩
    rw [Element.negate, Engine.eval, ha, hb]
    rfl
  | _ => exact absurd trivial nan

/-- A guard whose condition has a value is taken exactly when the condition does not hold, unless
its condition compares a NaN by order: then it does not hold, and the guard is not taken. Of
comparisons that is so exactly where the inverse of one is not its opposite. -/
theorem Guarding.step_eq {condition : Element} {action : Action} {e : Engine} {v : Value}
    (guarding : Guarding condition action) (value : Engine.eval e.context condition = .ok v)
    (ip len : Nat) (count : Int32) :
    (condition.Compares e.context → e.step ip len (action.withCount count) =
      (if v.truthy then .ok (.goto (ip + 1)) else Engine.taken ip len (some count), e)) ∧
    (¬ condition.Compares e.context →
      v.truthy = false ∧ e.step ip len (action.withCount count) = (.ok (.goto (ip + 1)), e)) ∧
    ∀ (op : Comparison) (a b : Value), (Engine.compare op.inverse a b = !Engine.compare op a b) ↔
      (op.IsOrder → a.asNumber.isNaN = false ∧ b.asNumber.isNaN = false) := by
  rw [guarding.eq]
  refine ⟨fun compares => ?_, fun nan => ?_, fun op a b => Engine.compare_inverse_iff⟩
  · obtain ⟨w, eval, opposite⟩ := guard_negate compares value
    rw [Action.withCount, Engine.step, eval]
    cases h : v.truthy <;> simp [opposite, h]
  · obtain ⟨fails, w, eval, passes⟩ := Element.negate_of_not_compares nan value
    rw [Action.withCount, Engine.step, eval]
    exact ⟨fails, by simp [passes]⟩

/-- The guard of what is done when 2 is less than 1. -/
theorem guard_taken_two_below_one :
    Guarding (.compare (.ofNat 2) .less (.ofNat 1))
      (.skipIf (.compare (.ofNat 2) .greaterEqual (.ofNat 1)) none) ∧
      Engine.eval (Engine.new .default).context (.compare (.ofNat 2) .less (.ofNat 1)) =
        .ok (.bool false) ∧
      (Engine.new .default).step 3 9 (.skipIf (.compare (.ofNat 2) .greaterEqual (.ofNat 1))
        (some 4)) =
        (.ok (.goto 8), Engine.new .default) := by
  have guarding : Guarding (.compare (.ofNat 2) .less (.ofNat 1))
      (.skipIf (.compare (.ofNat 2) .greaterEqual (.ofNat 1)) none) :=
    @Guarding.branch _ .new _ .empty _ _ rfl rfl
  have value : Engine.eval (Engine.new .default).context (.compare (.ofNat 2) .less (.ofNat 1)) =
      .ok (.bool false) := by rfl
  refine ⟨guarding, value, ?_⟩
  refine ((guarding.step_eq value 3 9 4).1 fun _ a b ha hb => ?_).trans rfl
  cases ha
  cases hb
  decide +kernel

namespace NotANumber

/-- A rule that counts the rounds of a loop while a NaN is less than one, and leaves it in the
third. -/
def loop : List Stmt :=
  [.define "large" (some large), .define "nan" (some nan),
    .define "rounds" (some (.number (.ofNat 0))),
    .ofKind (.while (isLess (.var "nan"))
      [.assign "rounds" (.binary .add (.var "rounds") (.number (.ofNat 1))),
        .ofKind (.cond [.mk (.binary .eq (.var "rounds") (.number (.ofNat 3))) [.ofKind (.break 0)]]
          none)])]

/-- Whether the condition on a slot has a guard at a position, does not hold in the end, and was
tested in three rounds. -/
def entered (slot : UInt32) (position : Nat) (output : UnitOutput) (list : ActionList)
    (e : Engine) :
    Bool :=
  output.deferred.isEmpty && (list.get? position).any (guards slot) &&
    (match Engine.eval e.context (condition slot) with
      | .ok v => !v.truthy
      | .error _ => false) &&
    output.symbols.any fun sym => sym.name == "rounds" && decide
      ((e.global sym.slot).asNumber = .ofNat 3)

end NotANumber

open NotANumber in
/-- The condition is false throughout, and the loop makes three rounds. -/
theorem loop_entered_of_nan : ∃ σ output list e,
    FirstRun .default ⟨[], [], []⟩ loop (.new .default) σ output list e ∧
      entered 1 3 output list e = true :=
  exists_firstRun .default ⟨[], [], []⟩ loop (.new .default) (entered 1 3) (by decide +kernel)

/-! ## Values -/

namespace Source.Expr

/-- How many negations an expression begins with. -/
def negations : Expr → Nat
  | .not inner => inner.negations + 1
  | _ => 0

/-- What the negations at the beginning of an expression negate. -/
def bare : Expr → Expr
  | .not inner => inner.bare
  | e => e

/-- An expression without its negations is no negation. -/
theorem bare_ne_not (e inner : Expr) : e.bare ≠ .not inner := by
  fun_induction bare e with
  | case1 _ ih => exact ih
  | case2 e other => exact other inner

end Source.Expr

namespace Lower

/-- A value that is no negation stays none in a variable. -/
theorem materialize_affirmed {value x : Element} {s t : UnitState}
    (affirmed : ∀ inner, value ≠ .not inner) (h : run (materialize value) s = some (.ok x, t))
    (inner : Element) : x ≠ .not inner := by
  obtain ⟨_, _, ⟨⟩, h⟩ := run_bind_ok.1 h
  split at h
  · obtain ⟨name, u, -, h⟩ := run_bind_ok.1 h
    obtain ⟨v, u, -, h⟩ := run_bind_ok.1 h
    cases h
    nofun
  · cases h
    exact affirmed inner

end Lower

/-- What becomes of an expression that is not a negation is none. -/
theorem Lowers.affirmed {e : Expr} {s t : UnitState} {c : Code} {x : Element}
    (h : Lowers (.expr e) s c [x] t) (affirms : s.Affirms) (head : ∀ inner, e ≠ .not inner)
    (inner : Element) : x ≠ .not inner := by
  -- by the head of the expression: only `not` builds a bare negation
  cases h with
  | @node _ es build _ _ xs _ node _ =>
    cases e with
    | not e => exact absurd rfl (head e)
    | number _ | bool _ | array _ | currentActor =>
      cases node
      nofun
    | index _ _ | negate _ | length _ =>
      cases node
      dsimp only
      split <;> nofun
    | binary op _ _ =>
      cases node
      dsimp only
      split
      · cases op <;> nofun
      · nofun
    | _ => cases node
  | var e | this e =>
    exact Variable.getFor_ne_not (affirms.bound? (run_lookup_eq.1 e.run).1) none inner
  | field _ _ | staticField _ => exact IndexedVar.get_ne_not _ none inner
  | actorVar e _ =>
    have place := (run_actorVar_ok e.run).2.2
    exact Variable.getFor_ne_not (Variable.not_negation (by rw [place]; rfl)) _ inner
  | call _ _ _ _ called =>
    cases called with
    | inline _ _ _ e | reenter _ _ _ _ e | region _ _ _ _ _ _ _ _ _ _ _ e =>
      exact materialize_affirmed (IndexedVar.get_ne_not _ none) e.run inner
  | new _ made =>
    cases made with
    | make _ _ _ declares =>
      exact Variable.getFor_ne_not (Variable.not_negation declares.declared) none inner

/-- Negating twice gives back an element that is no negation. -/
theorem Element.negate_negate {x : Element} (affirmed : ∀ inner, x ≠ .not inner) :
    x.negate.negate = x := by
  cases x with
  | compare lhs op rhs => rw [negate, negate, Comparison.inverse_inverse]
  | bool b => rw [negate, negate, Bool.not_not]
  | not inner => exact absurd rfl (affirmed inner)
  | _ => rfl

/-- The negation of what is no negation is a boolean. -/
theorem Element.eval_negate_bool {x : Element} {c : Context} {w : Value}
    (affirmed : ∀ inner, x ≠ .not inner) (value : Engine.eval c x.negate = .ok w) :
    w = .bool w.truthy := by
  have wrapped {inner : Element} (value : Engine.eval c (.not inner) = .ok w) :
    w = .bool w.truthy := by
    rw [Engine.eval] at value
    obtain ⟨v, -, value⟩ := except_bind_ok.1 value
    cases value
    rfl
  cases x with
  | compare lhs op rhs =>
    rw [negate, Engine.eval] at value
    obtain ⟨a, -, value⟩ := except_bind_ok.1 value
    obtain ⟨b, -, value⟩ := except_bind_ok.1 value
    cases value
    rfl
  | bool b =>
    cases value
    rfl
  | not inner => exact absurd rfl (affirmed inner)
  | _ => exact wrapped value

namespace Lower

variable {into : Expander} {e : Expr} {s t : UnitState}

/-- A negation is lowered by negating what its operand is. -/
theorem lowerExpr_not {y : Element} : run (lowerExpr into (.not e)) s = some (.ok y, t) ↔
    ∃ x, run (lowerExpr into e) s = some (.ok x, t) ∧ y = x.negate := by
  rw [lowerExpr, run_bind_ok]
  simp [eq_comm]

/-- Negations cancel in pairs. -/
theorem lowerExpr_bare {x : Element} (h : run (lowerExpr into e) s = some (.ok x, t))
    (affirmed : ∀ y, run (lowerExpr into e.bare) s = some (.ok y, t) → ∀ inner, y ≠ .not inner) :
    ∃ y, run (lowerExpr into e.bare) s = some (.ok y, t) ∧ (∀ inner, y ≠ .not inner) ∧
      (e.negations % 2 = 0 → x = y) ∧ (e.negations % 2 = 1 → x = y.negate) := by
  fun_induction Expr.bare e generalizing x with
  | case1 inner ih =>
    obtain ⟨_, negated, rfl⟩ := lowerExpr_not.1 h
    obtain ⟨y, bare, affirmed, even, odd⟩ := ih negated affirmed
    refine ⟨y, bare, affirmed, fun parity => ?_, fun parity => ?_⟩ <;> rw [Expr.negations] at parity
    · rw [odd (by omega), Element.negate_negate affirmed]
    · rw [even (by omega)]
  | case2 e other =>
    have none : e.negations = 0 := by
      unfold Expr.negations
      split
      · next inner => exact absurd rfl (other inner)
      · rfl
    exact ⟨x, h, affirmed x h, fun _ => rfl, fun parity => by omega⟩

/-- As a value, the negation of an expression that begins with an even number of negations is a
boolean. With an odd number of them it is the expression behind all negations. Either way it holds
when the expression that is negated does not. -/
theorem negation_value {σ : Session} {unit : String} {pool : Pool} {task : Task} {depth : Nat}
    {y : Element} (instance' : task.Affirms)
    (comes : task.Comes (σ.start unit pool) (.expr (.not e)) s)
    (lowered : run (lowerExpr (expander depth) (.not e)) s = some (.ok y, t))
    (clean : t.deferred = []) :
    ∃ x, run (lowerExpr (expander depth) e) s = some (.ok x, t) ∧
      ∀ (c : Context) (v : Value), Engine.eval c x = .ok v → x.Compares c →
        ∃ w, Engine.eval c y = .ok w ∧ w.truthy = !v.truthy ∧
          (e.negations % 2 = 0 → w = .bool (!v.truthy)) ∧
          (e.negations % 2 = 1 → run (lowerExpr (expander depth) e.bare) s = some (.ok y, t) ∧
            v = .bool (!w.truthy)) := by
  have affirms := comes.affirms instance' (σ.start_affirms unit pool)
  obtain ⟨x, h, rfl⟩ := lowerExpr_not.1 lowered
  -- below all negations there is an element that is none itself
  obtain ⟨x₀, bare, affirmed, even, odd⟩ := lowerExpr_bare h fun y bare => by
    obtain ⟨_, derived, -⟩ := yields_expr (yields_expander depth) _ s y t bare clean
    exact derived.affirmed affirms e.bare_ne_not
  refine ⟨x, h, fun c v value compares => ?_⟩
  obtain ⟨w, eval, opposite⟩ := guard_negate compares value
  refine ⟨w, eval, opposite, fun parity => ?_, fun parity => ?_⟩
  · rw [← opposite]
    rw [even parity] at eval
    exact Element.eval_negate_bool affirmed eval
  · obtain rfl := odd parity
    rw [Element.negate_negate affirmed]
    refine ⟨bare, ?_⟩
    rw [opposite, Bool.not_not]
    exact Element.eval_negate_bool affirmed value

/-- `!!5` has a value whose negation is what `!5` is. -/
theorem negation_value_of_five : ∃ σ y t, Session.new .default ⟨[], [], []⟩ = .ok σ ∧
    run (lowerExpr (expander 0) (.not (.not (.number (.ofNat 5))))) (σ.start "rule" .global) =
      some (.ok y, t) ∧
      ∃ x, run (lowerExpr (expander 0) (.not (.number (.ofNat 5)))) (σ.start "rule" .global) =
        some (.ok x, t) ∧
        Engine.eval (Engine.new .default).context x = .ok (.bool false) ∧
          ∃ w, Engine.eval (Engine.new .default).context y = .ok w ∧ w.truthy = true := by
  obtain ⟨σ, new⟩ : ∃ σ, Session.new .default ⟨[], [], []⟩ = .ok σ := ⟨_, rfl⟩
  have lowered : run (lowerExpr (expander 0) (.not (.not (.number (.ofNat 5)))))
    (σ.start "rule" .global) =
      some (.ok (.number (.ofNat 5)), σ.start "rule" .global) := by simp [lowerExpr, Element.negate]
  have instance' : (Task.expr (.not (.not (.number (.ofNat 5))))).Affirms := trivial
  obtain ⟨x, once, value⟩ := negation_value instance' .refl lowered rfl
  obtain rfl : x = .not (.number (.ofNat 5)) := by
    simpa [lowerExpr, Element.negate, eq_comm] using once
  obtain ⟨w, eval, opposite, -⟩ :=
    value (Engine.new .default).context (.bool false) (by rfl) trivial
  exact ⟨σ, _, _, new, lowered, _, once, by rfl, w, eval, opposite⟩

/-- A rule that negates 5 twice. -/
def twice : List Stmt :=
  [.define "x" (some (.number (.ofNat 5))), .define "out" (some (.not (.not (.var "x"))))]

/-- The double negation of a number is the number. -/
theorem double_negation_kept : ∃ σ output list e,
    FirstRun .default ⟨[], [], []⟩ twice (.new .default) σ output list e ∧
      (output.symbols.any fun sym => sym.name == "out" && match e.global sym.slot with
        | .number x => decide (x = .ofNat 5)
        | _ => false) = true :=
  exists_firstRun .default ⟨[], [], []⟩ twice (.new .default)
    (fun output _ e => output.symbols.any fun sym =>
      sym.name == "out" && match e.global sym.slot with
      | .number x => decide (x = .ofNat 5)
      | _ => false) (by decide +kernel)

end Lower

end SkipCode
