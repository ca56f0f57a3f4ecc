import SkipCode.Proofs.Ways

/-!
# Ways end

A way goes into the source, and from there into the bodies of declarations. A step within a body
goes to a smaller piece of it (`Source.Part.size`); a step into another body has less depth left. So
no way goes on for ever (`Spot.Inward.wellFounded`), and what is found at a spot can be followed
inwards to the last spot that has it.
-/

namespace SkipCode

open Lower
open Source (Branch Expr Fragment Loop Part Place Stmt StmtKind)

/-! ## The size of a piece -/

/-- How much source there is in a piece. The array of a loop that is being lowered is no source any
more. -/
noncomputable def Source.Part.size : Part → Nat
  | .expr e => sizeOf e
  | .fragment (.stmts body) => sizeOf body
  | .fragment (.stmt first) => sizeOf first
  | .fragment (.kind k) => sizeOf k
  | .fragment (.arms _ _ branches) => sizeOf branches
  | .fragment (.loop (.while condition body)) => sizeOf condition + sizeOf body
  | .fragment (.loop (.for condition step body)) => sizeOf condition + sizeOf step + sizeOf body
  | .fragment (.loop (.forEach _ _ _ body)) => 1 + sizeOf body

theorem Source.Expr.sizeOf_pos (e : Expr) : 0 < sizeOf e := by
  cases e <;> grind

theorem sizeOf_toList_lt {o : Option Expr} {e : Expr} (mem : e ∈ o.toList) :
    sizeOf e < sizeOf o := by
  obtain rfl := Option.mem_toList.1 mem
  simp

theorem Source.StmtKind.sizeOf_operand {k : StmtKind} {e : Expr} (mem : e ∈ k.operands) :
    sizeOf e < sizeOf k := by
  cases k with
  | define name initial recursive | «return» initial =>
    have := sizeOf_toList_lt mem
    grind
  | assign target index op value =>
    have := List.sizeOf_lt_of_mem (show e ∈ index from mem)
    grind
  | forEach element index array body | delete array className =>
    obtain rfl := List.mem_singleton.1 mem
    grind
  | expr value =>
    obtain rfl := List.mem_singleton.1 mem
    simp
  | _ => cases mem

namespace UnitState

variable {s : UnitState} {e : Expr}

theorem eq_of_mem_actorOf {name : String} {actor : Expr} (mem : e ∈ s.actorOf name actor) :
    e = actor := by
  unfold actorOf at mem
  split at mem
  · exact List.mem_singleton.1 mem
  · cases mem

/-- What a call passes is its receiver or one of its arguments. -/
theorem of_mem_passed {className : Option String} {method : String} {object : Option Expr}
    {arguments : List Expr} (mem : e ∈ s.passed className method object arguments) :
    e = object.getD .this ∨ e ∈ arguments := by
  unfold passed at mem
  split at mem
  · split at mem
    · refine (List.mem_append.1 mem).imp_left fun receiver => ?_
      unfold receiverOf at receiver
      split at receiver
      · exact List.mem_singleton.1 receiver
      · cases receiver
    · cases mem
  · cases mem

theorem sizeOf_targetOperand {target : Place} (mem : e ∈ s.targetOperands target) :
    sizeOf e < sizeOf target := by
  cases target with
  | field object className field =>
    obtain rfl := List.mem_singleton.1 mem
    grind
  | actorVar actor name =>
    obtain rfl := eq_of_mem_actorOf mem
    grind
  | _ => cases mem

theorem sizeOf_operand {outer : Expr} (mem : e ∈ s.operands outer) : sizeOf e < sizeOf outer := by
  cases outer with
  | array items | new className index items =>
    have := List.sizeOf_lt_of_mem (show e ∈ items from mem)
    grind
  | index first second | binary op first second =>
    obtain rfl | rfl := List.mem_pair.1 mem <;> grind
  | field object className field =>
    obtain rfl := List.mem_singleton.1 mem
    grind
  | actorVar actor name =>
    obtain rfl := eq_of_mem_actorOf mem
    grind
  | not inner | negate inner | length inner =>
    obtain rfl := List.mem_singleton.1 mem
    simp
  | call className method object arguments =>
    obtain rfl | mem := of_mem_passed mem
    · cases object <;> grind
    · have := List.sizeOf_lt_of_mem mem
      grind
  | _ => cases mem

end UnitState

/-! ## Steps inwards -/

namespace Spot

/-- A step goes into a smaller piece, or into a body, for which less depth is left. -/
theorem Inward.shrinks {p q : Spot} (step : p.Inward q) :
    Prod.Lex (· < ·) (· < ·) (q.depth, q.part.size) (p.depth, p.part.size) := by
  have inBody (body : List Stmt) : 0 < sizeOf body := by
    cases body <;> grind
  -- within a body the part gets smaller; a body that is expanded is one level further down
  cases step with
  | inner step _ =>
    refine .right _ ?_
    cases step with
    | head | tail | located | block | arms | otherwise | arm | nextArm | «while» | start | «for» =>
      grind [Source.Part.size]
    | @forEach _ _ array =>
      have := array.sizeOf_pos
      grind [Source.Part.size]
    | @step l _ _ _ _ _ _ known =>
      cases l with
      | «while» | forEach => cases known
      | «for» =>
        cases known
        grind [Source.Part.size]
  | tail | «for» | condition | value =>
    refine .right _ ?_
    grind [Source.Part.size]
  | @body _ _ _ l =>
    refine .right _ ?_
    cases l with
    | «while» condition | «for» condition =>
      have := condition.sizeOf_pos
      grind [Source.Part.size, Source.Loop.body]
    | forEach => grind [Source.Part.size, Source.Loop.body]
  | @test _ _ _ l _ _ _ _ _ known =>
    refine .right _ ?_
    cases l with
    | «while» _ body | «for» _ _ body =>
      cases known
      have := inBody body
      grind [Source.Part.size]
    | forEach => cases known
  | operand row =>
    exact .right _ (StmtKind.sizeOf_operand (row ▸ List.mem_append_right _ List.mem_cons_self))
  | @target _ _ _ target _ _ _ e _ _ _ _ row =>
    refine .right _ ?_
    have := UnitState.sizeOf_targetOperand (row ▸ List.mem_singleton_self e)
    grind [Source.Part.size]
  | part row =>
    exact .right _ (UnitState.sizeOf_operand (row ▸ List.mem_append_right _ List.mem_cons_self))
  | expands => exact .left _ _ (Nat.lt_succ_self _)

/-- No way goes on for ever. -/
theorem Inward.wellFounded : WellFounded fun q p : Spot => p.Inward q :=
  Subrelation.wf Inward.shrinks
    (InvImage.wf (fun p : Spot => (p.depth, p.part.size)) (Prod.lex Nat.lt_wfRel Nat.lt_wfRel).wf)

/-- To show something of all spots, it may be assumed of those further inside. -/
theorem inwardInduction {P : Spot → Prop} (h : ∀ p, (∀ q, Relation.TransGen Inward p q → P q) → P p)
    (p : Spot) :
    P p := by
  refine Inward.wellFounded.transGen.induction (C := P) p fun p ih => h p fun q way => ih q ?_
  exact Relation.transGen_swap.2 way

end Spot

end SkipCode
