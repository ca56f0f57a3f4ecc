import SkipCode.Proofs.Host
import SkipCode.Proofs.Lowering
import SkipCode.Proofs.Parts

/-!
# Constants

An expression without names, instances and calls is lowered to the same element everywhere, whose
value depends neither on stores nor on the actor (`constant_eval`).
-/

namespace SkipCode

open Engine (Context)
open Source (Expr)

mutual

/-- The element of a constant, an expression without names, instances and calls. -/
def Source.Expr.constant? : Expr → Option Element
  | .number x => some (.number x)
  | .bool b => some (.bool b)
  | .array items => (constants? items).map .array
  | .index array index => do return .itemAt (← array.constant?) (← index.constant?)
  | .binary op lhs rhs => do return .binary op (← lhs.constant?) (← rhs.constant?)
  | .not inner => inner.constant?.map Element.negate
  | .negate inner => inner.constant?.map (Element.ofNat 0).subtract
  | .length array => array.constant?.map .countOf
  | _ => none

def Source.constants? : List Expr → Option (List Element)
  | [] => some []
  | e :: rest => do return (← e.constant?) :: (← constants? rest)

end

/-- The value of a constant. -/
def Source.Expr.constantValue (e : Expr) : Value :=
  match e.constant?.map (Engine.eval (Engine.new .default).context) with
  | some (.ok v) => v
  | _ => .neutral

/-! ## Closed elements -/

/-- An element that reads no slot and does not ask for the actor. -/
inductive Element.Closed : Element → Prop
  | number (x : Binary64) : Closed (.number x)
  | bool (b : Bool) : Closed (.bool b)
  | array {items} : (∀ x ∈ items, Closed x) → Closed (.array items)
  | itemAt {array index} : Closed array → Closed index → Closed (.itemAt array index)
  | countOf {array} : Closed array → Closed (.countOf array)
  | arithmetic {op lhs rhs} : Closed lhs → Closed rhs → Closed (.arithmetic op lhs rhs)
  | compare {lhs op rhs} : Closed lhs → Closed rhs → Closed (.compare lhs op rhs)
  | and {lhs rhs} : Closed lhs → Closed rhs → Closed (.and lhs rhs)
  | or {lhs rhs} : Closed lhs → Closed rhs → Closed (.or lhs rhs)
  | not {inner} : Closed inner → Closed (.not inner)

namespace Element.Closed

variable {x y : Element}

/-- The negation of a closed element is closed. -/
theorem negate (h : x.Closed) : x.negate.Closed := by
  cases h with
  | compare hl hr => exact .compare hl hr
  | not h => exact h
  | bool b => exact .bool _
  | number x => exact .not (.number x)
  | array h => exact .not (.array h)
  | itemAt ha hi => exact .not (.itemAt ha hi)
  | countOf h => exact .not (.countOf h)
  | arithmetic hl hr => exact .not (.arithmetic hl hr)
  | and hl hr => exact .not (.and hl hr)
  | or hl hr => exact .not (.or hl hr)

/-- An operator between closed elements is closed. -/
theorem binary (op : Source.BinaryOp) (hx : x.Closed) (hy : y.Closed) :
    (Element.binary op x y).Closed := by
  cases op with
  | add | sub | mul | div | mod => exact .arithmetic hx hy
  | eq | ne | lt | le | gt | ge => exact .compare hx hy
  | and => exact .and hx hy
  | or => exact .or hx hy

/-- Elements that have values each have them together. -/
theorem evalAll {items : List Element}
    (h : ∀ x ∈ items, ∃ v, ∀ c, Engine.eval c x = .ok v) :
    ∃ vs, ∀ c, Engine.evalAll c items = .ok vs := by
  induction items with
  | nil => exact ⟨[], fun c => rfl⟩
  | cons x rest ih =>
    obtain ⟨⟨v, hv⟩, hrest⟩ := List.forall_mem_cons.1 h
    obtain ⟨vs, hvs⟩ := ih hrest
    exact ⟨v :: vs, fun c => by rw [Engine.evalAll, hv, hvs]; rfl⟩

/-- A closed element has one value, whatever it is evaluated in. -/
theorem eval (h : x.Closed) : ∃ v, ∀ c, Engine.eval c x = .ok v := by
  induction h with
  | number x => exact ⟨_, fun c => by rw [Engine.eval]⟩
  | bool b => exact ⟨_, fun c => by rw [Engine.eval]⟩
  | array _ ih =>
    obtain ⟨vs, hvs⟩ := evalAll ih
    exact ⟨.array vs, fun c => by rw [Engine.eval, hvs]; rfl⟩
  | itemAt _ _ ih₁ ih₂ =>
    obtain ⟨⟨a, ha⟩, i, hi⟩ := And.intro ih₁ ih₂
    exact ⟨_, fun c => by rw [Engine.eval, ha, hi]; rfl⟩
  | countOf _ ih =>
    obtain ⟨a, ha⟩ := ih
    exact ⟨_, fun c => by rw [Engine.eval, ha]; rfl⟩
  | arithmetic _ _ ih₁ ih₂ =>
    obtain ⟨⟨a, ha⟩, b, hb⟩ := And.intro ih₁ ih₂
    exact ⟨_, fun c => by rw [Engine.eval, ha, hb]; rfl⟩
  | compare _ _ ih₁ ih₂ =>
    obtain ⟨⟨a, ha⟩, b, hb⟩ := And.intro ih₁ ih₂
    exact ⟨_, fun c => by rw [Engine.eval, ha, hb]; rfl⟩
  | and _ _ ih₁ ih₂ =>
    obtain ⟨⟨a, ha⟩, b, hb⟩ := And.intro ih₁ ih₂
    -- the right operand is evaluated only where the left one does not decide
    refine ⟨.bool (a.truthy && b.truthy), fun c => ?_⟩
    rw [Engine.eval, ha, except_bind_ok]
    refine ⟨a, rfl, ?_⟩
    cases a.truthy with
    | true =>
      rw [if_pos rfl, hb]
      rfl
    | false => rfl
  | or _ _ ih₁ ih₂ =>
    obtain ⟨⟨a, ha⟩, b, hb⟩ := And.intro ih₁ ih₂
    refine ⟨.bool (a.truthy || b.truthy), fun c => ?_⟩
    rw [Engine.eval, ha, except_bind_ok]
    refine ⟨a, rfl, ?_⟩
    cases a.truthy with
    | true => rfl
    | false =>
      rw [if_neg Bool.false_ne_true, hb]
      rfl
  | not _ ih =>
    obtain ⟨a, ha⟩ := ih
    exact ⟨_, fun c => by rw [Engine.eval, ha]; rfl⟩

end Element.Closed

/-! ## The elements of constants -/

mutual

/-- What is written for a constant reads no cell, by induction on the expression. -/
theorem closed_constant : (e : Expr) → {x : Element} → e.constant? = some x → x.Closed
  | .number x, _, h => by
    cases h
    exact .number x
  | .bool b, _, h => by
    cases h
    exact .bool b
  -- the parts of a constant are constants; what has no case here is none
  | .array items, _, h => by
    rw [Expr.constant?] at h
    obtain ⟨xs, hxs, rfl⟩ := Option.map_eq_some_iff.1 h
    exact .array (closed_constants items hxs)
  | .index array index, _, h => by
    rw [Expr.constant?] at h
    obtain ⟨a, ha, h⟩ := Option.bind_eq_some_iff.1 h
    obtain ⟨i, hi, h⟩ := Option.bind_eq_some_iff.1 h
    cases h
    exact .itemAt (closed_constant array ha) (closed_constant index hi)
  | .binary op lhs rhs, _, h => by
    rw [Expr.constant?] at h
    obtain ⟨a, ha, h⟩ := Option.bind_eq_some_iff.1 h
    obtain ⟨b, hb, h⟩ := Option.bind_eq_some_iff.1 h
    cases h
    exact .binary op (closed_constant lhs ha) (closed_constant rhs hb)
  | .not inner, _, h => by
    rw [Expr.constant?] at h
    obtain ⟨x, hx, rfl⟩ := Option.map_eq_some_iff.1 h
    exact (closed_constant inner hx).negate
  | .negate inner, _, h => by
    rw [Expr.constant?] at h
    obtain ⟨x, hx, rfl⟩ := Option.map_eq_some_iff.1 h
    exact .arithmetic (.number _) (closed_constant inner hx)
  | .length array, _, h => by
    rw [Expr.constant?] at h
    obtain ⟨x, hx, rfl⟩ := Option.map_eq_some_iff.1 h
    exact .countOf (closed_constant array hx)

/-- So for the items of an array. -/
theorem closed_constants : (es : List Expr) → {xs : List Element} → Source.constants? es = some xs →
    ∀ x ∈ xs, x.Closed
  | [], _, h => by
    cases h
    exact List.forall_mem_nil _
  | e :: rest, _, h => by
    rw [Source.constants?] at h
    obtain ⟨x, hx, h⟩ := Option.bind_eq_some_iff.1 h
    obtain ⟨xs, hxs, h⟩ := Option.bind_eq_some_iff.1 h
    cases h
    exact List.forall_mem_cons.2 ⟨closed_constant e hx, closed_constants rest hxs⟩

end

mutual

/-- A constant is lowered to its element, whatever is known where it stands. -/
theorem lower_constant (into : Expander) : (e : Expr) → {x : Element} → e.constant? = some x →
    lowerExpr into e = pure x
  | .number x, _, h | .bool b, _, h => by
    cases h
    rw [lowerExpr]
  | .array items, _, h => by
    rw [Expr.constant?] at h
    obtain ⟨xs, hxs, rfl⟩ := Option.map_eq_some_iff.1 h
    rw [lowerExpr, lower_constants into items hxs, pure_bind]
  | .index array index, _, h => by
    rw [Expr.constant?] at h
    obtain ⟨a, ha, h⟩ := Option.bind_eq_some_iff.1 h
    obtain ⟨i, hi, h⟩ := Option.bind_eq_some_iff.1 h
    cases h
    rw [lowerExpr, lower_constant into array ha, lower_constant into index hi, pure_bind, pure_bind]
  | .binary op lhs rhs, _, h => by
    rw [Expr.constant?] at h
    obtain ⟨a, ha, h⟩ := Option.bind_eq_some_iff.1 h
    obtain ⟨b, hb, h⟩ := Option.bind_eq_some_iff.1 h
    cases h
    rw [lowerExpr, lower_constant into lhs ha, lower_constant into rhs hb, pure_bind, pure_bind]
  | .not inner, _, h | .negate inner, _, h | .length inner, _, h => by
    rw [Expr.constant?] at h
    obtain ⟨x, hx, rfl⟩ := Option.map_eq_some_iff.1 h
    rw [lowerExpr, lower_constant into inner hx, pure_bind]

/-- Constants are written without an action. -/
theorem lower_constants (into : Expander) : (es : List Expr) → {xs : List Element} →
    Source.constants? es = some xs → lowerExprs into es = pure xs
  | [], _, h => by
    cases h
    rw [lowerExprs]
  | e :: rest, _, h => by
    rw [Source.constants?] at h
    obtain ⟨x, hx, h⟩ := Option.bind_eq_some_iff.1 h
    obtain ⟨xs, hxs, h⟩ := Option.bind_eq_some_iff.1 h
    cases h
    rw [lowerExprs, lower_constant into e hx, lower_constants into rest hxs, pure_bind, pure_bind]

end

/-- The element of a constant has its value everywhere. -/
theorem constant_eval {e : Expr} {x : Element} (h : e.constant? = some x) (c : Context) :
    Engine.eval c x = .ok e.constantValue := by
  obtain ⟨v, hv⟩ := (closed_constant e h).eval
  rw [hv, Expr.constantValue, h, Option.map_some, hv]

end SkipCode
