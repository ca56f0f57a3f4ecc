import SkipCode.Proofs.Access
import SkipCode.Proofs.Stacks

/-!
# What a guard tests

A guard skips a body when the negation of its condition holds. The negation of a comparison is the
inverse comparison, which is not the same when a NaN is compared by order: then neither holds.

* `guard_negate`: apart from that a guard is taken when the condition does not hold;
* `branch_taken_of_nan`, `return_taken_of_nan`: there a body runs whose condition does not hold, in
  a rule and in a function that a rule calls.
-/

namespace SkipCode

open Engine (Context)
open Source (Expr MethodDecl Program Stmt)

namespace Binary64

/-- The magnitude is what is left of the bits without the highest one. -/
theorem magnitude_toNat (x : Binary64) : x.magnitude.toNat = x.bits.toNat % 2 ^ 63 := by
  rw [← Nat.and_two_pow_sub_one_eq_mod, magnitude, UInt64.toNat_and]
  rfl

/-- The highest bit is the sign. -/
theorem isNegative_iff (x : Binary64) : x.isNegative = true ↔ 2 ^ 63 ≤ x.bits.toNat := by
  have shift : (x.bits >>> 63).toNat = x.bits.toNat / 2 ^ 63 := by
    rw [UInt64.toNat_shiftRight, Nat.shiftRight_eq_div_pow]
    rfl
  rw [isNegative, beq_iff_eq, ← UInt64.toNat_inj, shift]
  have := x.bits.toNat_lt
  show _ = 1 ↔ _
  omega

/-- Of two numbers that are no NaN one is below the other or not above it. -/
theorem lessEq_eq_not_less {x y : Binary64} (hx : x.isNaN = false) (hy : y.isNaN = false) :
    y.lessEq x = !x.less y := by
  have mx := x.magnitude_toNat
  have my := y.magnitude_toNat
  have nx := x.isNegative_iff
  have ny := y.isNegative_iff
  have bx := x.bits.toNat_lt
  have yx := y.bits.toNat_lt
  rw [Bool.eq_iff_iff]
  simp only [lessEq, less, equal, isZero, hx, hy, Bool.not_false, Bool.true_and, Bool.or_eq_true,
    beq_iff_eq, Bool.and_eq_true, Bool.not_eq_true', ← UInt64.toNat_inj]
  cases sx : x.isNegative <;> cases sy : y.isNegative <;> rw [sx] at nx <;> rw [sy] at ny <;>
    simp only [decide_eq_true_eq, decide_eq_false_iff_not, UInt64.lt_iff_toNat_lt,
      Bool.not_eq_true',
      Bool.not_eq_false', Bool.and_eq_false_iff, Bool.and_eq_true, beq_eq_false_iff_ne, beq_iff_eq,
      ne_eq, ← UInt64.toNat_inj, UInt64.toNat_zero, Bool.false_eq_true, false_iff, true_iff,
        iff_true,
      false_or] at nx ny ⊢ <;>
    omega

end Binary64

/-- The operator is an order, which a NaN is on neither side of. -/
def Comparison.IsOrder : Comparison → Prop
  | .equal | .notEqual => False
  | _ => True

/-- The inverse of a comparison holds when the comparison does not, unless a NaN is compared by
order. -/
theorem Engine.compare_inverse {op : Comparison} {a b : Value}
    (number : op.IsOrder → a.asNumber.isNaN = false ∧ b.asNumber.isNaN = false) :
    Engine.compare op.inverse a b = !Engine.compare op a b := by
  cases op with
  | equal => rfl
  | notEqual => exact (Bool.not_not _).symm
  | less => exact Binary64.lessEq_eq_not_less (number trivial).1 (number trivial).2
  | lessEqual =>
    rw [compare, Binary64.lessEq_eq_not_less (number trivial).2 (number trivial).1, Bool.not_not]
    rfl
  | greater => exact Binary64.lessEq_eq_not_less (number trivial).2 (number trivial).1
  | greaterEqual =>
    rw [compare, Binary64.lessEq_eq_not_less (number trivial).1 (number trivial).2, Bool.not_not]
    rfl

/-- A condition that compares no NaN by order where it is negated. -/
def Element.Compares (c : Context) : Element → Prop
  | .compare lhs op rhs =>
    op.IsOrder → ∀ a b, Engine.eval c lhs = .ok a → Engine.eval c rhs = .ok b →
    a.asNumber.isNaN = false ∧ b.asNumber.isNaN = false
  | _ => True

/-- A guard is taken when its condition does not hold. -/
theorem guard_negate {c : Context} {e : Element} {v : Value} (ok : e.Compares c)
    (value : Engine.eval c e = .ok v) :
    ∃ w, Engine.eval c e.negate = .ok w ∧ w.truthy = !v.truthy := by
  have wrapped : ∃ w, Engine.eval c (.not e) = .ok w ∧ w.truthy = !v.truthy := by
    refine ⟨.bool (!v.truthy), ?_, rfl⟩
    rw [Engine.eval, value]
    rfl
  cases e with
  | compare lhs op rhs =>
    -- a comparison is inverted, which for orders needs comparable operands
    rw [Engine.eval] at value
    obtain ⟨a, ha, value⟩ := except_bind_ok.1 value
    obtain ⟨b, hb, value⟩ := except_bind_ok.1 value
    cases value
    refine ⟨.bool (Engine.compare op.inverse a b), ?_, ?_⟩
    · rw [Element.negate, Engine.eval, ha, hb]
      rfl
    · exact Engine.compare_inverse fun order => ok order a b ha hb
  | not inner =>
    -- a double negation is not written
    rw [Engine.eval] at value
    obtain ⟨w, hw, value⟩ := except_bind_ok.1 value
    cases value
    exact ⟨w, hw, (Bool.not_not _).symm⟩
  | bool b =>
    cases value
    exact ⟨.bool !b, rfl, rfl⟩
  | _ => exact wrapped

/-! ## Comparisons with a NaN -/

namespace NotANumber

/-- A number too large to be finite, and a sum of it that is none. -/
def large : Expr := .binary .mul (.number (.ofNat (10 ^ 308))) (.number (.ofNat 10))

def nan : Expr := .binary .sub (.var "large") (.var "large")

def isLess (e : Expr) : Expr := .binary .lt e (.number (.ofNat 1))

/-- A rule that changes `out` when a NaN is less than one. -/
def branch : List Stmt :=
  [.define "large" (some large), .define "nan" (some nan),
    .define "out" (some (.number (.ofNat 7))),
    .ofKind (.cond [.mk (isLess (.var "nan")) [.assign "out" (.number (.ofNat 1))]] none)]

/-- `below(x)` is 1 when `x` is less than one, else 7. -/
def callee : MethodDecl :=
  .named "below" ["x"]
    [.ofKind (.cond [.mk (isLess (.var "x")) [.ofKind (.return (some (.number (.ofNat 1))))]] none),
      .ofKind (.return (some (.number (.ofNat 7))))]

/-- A rule that calls `below` with a NaN. -/
def call : List Stmt :=
  [.define "large" (some large), .define "out" (some (.callFunction "below" [nan]))]

/-- The condition that a slot is less than one. -/
def condition (slot : UInt32) : Element :=
  .compare (.variable .global slot) .less (.number (.ofNat 1))

/-- The action skips a body unless a slot is less than one. -/
def guards (slot : UInt32) : Action → Bool
  | .skipIf (.compare (.variable .global s) op (.number n)) _ =>
    s == slot && op == Comparison.inverse .less && n == .ofNat 1
  | _ => false

/-- Whether a list has a guard at a position for the condition on a slot, which does not hold in the
end, where `out` is 1. -/
def misled (slot : UInt32) (position : Nat) (output : UnitOutput) (list : ActionList) (e : Engine) :
    Bool :=
  output.deferred.isEmpty && (list.get? position).any (guards slot) &&
    (match Engine.eval e.context (condition slot) with
      | .ok v => !v.truthy
      | .error _ => false) &&
    output.symbols.any fun sym => sym.name == "out" && decide
      ((e.global sym.slot).asNumber = .ofNat 1)

end NotANumber

open NotANumber in
/-- The condition is false, and its branch is taken. -/
theorem branch_taken_of_nan : ∃ σ output list e,
    FirstRun .default ⟨[], [], []⟩ branch (.new .default) σ output list e ∧
      misled 1 3 output list e = true :=
  exists_firstRun .default ⟨[], [], []⟩ branch (.new .default) (misled 1 3) (by decide +kernel)

open NotANumber in
/-- The condition is false, and the function returns what it should return if it were true. -/
theorem return_taken_of_nan : ∃ σ output list e,
    FirstRun .default ⟨[], [callee], []⟩ call (.new .default) σ output list e ∧
      misled 2 2 output list e = true :=
  exists_firstRun .default ⟨[], [callee], []⟩ call (.new .default) (misled 2 2) (by decide +kernel)

end SkipCode
