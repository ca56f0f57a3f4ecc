import SkipCode.Proofs.ExprLayout
import SkipCode.Proofs.LoopSteps

/-!
# Lowered statements in the finished list

The second half of the induction: assignments, conditionals, loops and exits, and the tree of a
statement (`yields_stmt`, `yields_stmts`). For a whole unit it gives the code that its list holds
(`lays_of_runUnit`).
-/

namespace SkipCode

open Lower
open Source (AssignOp Branch Expr Place Stmt StmtKind)

variable {into : Expander} {s s' t u : UnitState}

/-! ## Assignments -/

/-- What is emitted if it can be made has been made. -/
theorem run_emitLift_ok {x : Except LowerError (List Action)}
    (h : run (do emit (← (x : Except LowerError _))) s = some (.ok (), s')) :
    ∃ actions, x = .ok actions ∧ s' = s.withList (s.list.extend actions) := by
  obtain ⟨actions, u, h₁, h₂⟩ := run_bind_ok.1 h
  obtain ⟨rfl, rfl⟩ := run_lift_ok.1 h₁
  cases h₂
  exact ⟨actions, rfl, rfl⟩

/-- The write of an assignment behind what it reads. -/
theorem yields_write {m : Lower Element} {value : Expr}
    {f : Element → Except LowerError (List Action)}
    (settled : ∀ x actions, f x = .ok actions → Settled actions)
    (operand : Yields m (.expr value) fun x => [x]) (h : run (do
      let x ← m
      emit (← (f x : Except LowerError _))) s = some (.ok (), s')) (clean : s'.deferred = []) :
    ∃ x actions e u, Lowers (.expr value) s e [x] u ∧ f x = .ok actions ∧
      s' = u.withList (u.list.extend actions) ∧ Laid s (.seq e (.acts actions)) s' := by
  obtain ⟨x, u, h₁, h₂⟩ := run_bind_ok.1 h
  obtain ⟨actions, hset, rfl⟩ := run_emitLift_ok h₂
  obtain ⟨e, lowers, laid⟩ := operand s x u h₁ clean
  have write : Laid u (.acts actions) (u.withList (u.list.extend actions)) :=
    .extend (settled x actions hset) rfl rfl rfl rfl
  exact ⟨x, actions, e, u, lowers, hset, rfl, laid.seq write⟩

theorem settled_set_ok {v : Variable} {name : String} {value : Element} {extra : List Element}
    {actions : List Action} (h : v.set name value extra = .ok actions) : Settled actions :=
  settled_variable h

/-- An assignment yields its operands, its place, its value and the write. -/
theorem yields_assign (bodies : into.Yields) (target : Place) (index : List Expr) (op : AssignOp)
    (value : Expr) :
    Yields (do
      let is ← lowerExprs into index
      assign into target is op value) (.kind (.assign target index op value)) fun _ => [] := by
  intro s _ s' h clean
  have operand := yields_expr bodies value
  obtain ⟨is, s₁, hindex, hassign⟩ := run_bind_ok.1 h
  -- that nothing is deferred is known at the end, so in each case the last step is opened first
  cases target with
  | var name =>
    obtain ⟨v, s₂, hlookup, hwrite⟩ := run_bind_ok.1 hassign
    obtain rfl := run_lookup_ok hlookup
    obtain ⟨x, actions, e, u, lowers, hset, rfl, laid⟩ :=
      yields_write (fun _ _ => settled_set_ok) operand hwrite clean
    have clean₁ := lowers.clean clean
    obtain ⟨c, lowersIndex, laidIndex⟩ := yields_exprs bodies index s is s₂ hindex clean₁
    exact ⟨_, .assign _ lowersIndex .nil ⟨hlookup, .refl _, clean₁⟩ lowers hset,
       laidIndex.seq ((Laid.nothing _).seq laid)⟩
  | field object className field =>
    obtain ⟨handle, s₂, hobject, h₂⟩ := run_bind_ok.1 hassign
    obtain ⟨v, s₃, hfield, hwrite⟩ := run_bind_ok.1 h₂
    obtain ⟨x, actions, e, u, lowers, hset, rfl, laid⟩ :=
      yields_write (f := fun x => .ok (v.set (combine op (v.get none) is x) none is))
        (fun _ _ h => by
          cases h
          exact settled_set _ _ _ _) operand hwrite clean
    have found := emits_of_silent (.fieldVar _ _ _) hfield (lowers.clean clean)
    obtain ⟨d, lowersObject, laidObject⟩ := yields_exprs_cons (yields_expr bodies object)
      yields_exprs_nil hobject rfl found.before
    obtain ⟨c, lowersIndex, laidIndex⟩ :=
      yields_exprs bodies index s is s₁ hindex (lowersObject.clean found.before)
    have resolved : Emits (resolveTarget (.field object className field) [handle]) s₂ []
        (.indexed v) s₃ :=
      ⟨run_bind_ok.2 ⟨v, s₃, hfield, rfl⟩, found.extends', found.clean⟩
    exact ⟨_, .assign _ lowersIndex lowersObject resolved lowers hset,
      laidIndex.seq (laidObject.seq (found.laid.seq laid).of_nothing)⟩
  | staticField className field =>
    obtain ⟨v, s₂, hfield, hwrite⟩ := run_bind_ok.1 hassign
    obtain ⟨x, actions, e, u, lowers, hset, rfl, laid⟩ :=
      yields_write (f := fun x => .ok (v.set (combine op (v.get none) is x) none is))
        (fun _ _ h => by
          cases h
          exact settled_set _ _ _ _) operand hwrite clean
    have found := emits_of_silent (.staticVar _ _) hfield (lowers.clean clean)
    obtain ⟨c, lowersIndex, laidIndex⟩ := yields_exprs bodies index s is s₁ hindex found.before
    have resolved : Emits (resolveTarget (.staticField className field) []) s₁ []
        (.indexed v) s₂ :=
      ⟨run_bind_ok.2 ⟨v, s₂, hfield, rfl⟩, found.extends', found.clean⟩
    exact ⟨_, .assign _ lowersIndex .nil resolved lowers hset,
      laidIndex.seq ((Laid.nothing _).seq (found.laid.seq laid).of_nothing)⟩
  | actorVar actor name =>
    obtain ⟨v, s₂, hactorVar, h₂⟩ := run_bind_ok.1 hassign
    obtain ⟨rfl, -, -⟩ := run_actorVar_ok hactorVar
    obtain ⟨a, s₃, hactor, hwrite⟩ := run_bind_ok.1 h₂
    obtain ⟨x, actions, e, u, lowers, hset, rfl, laid⟩ :=
      yields_write (f := fun x => v.setFor name (combine op (v.getFor (some a)) is x) (some a) is)
        (fun _ _ => settled_variable) operand hwrite clean
    obtain ⟨d, lowersActor, laidActor⟩ := yields_expr bodies actor s₂ a s₃ hactor
      (lowers.clean clean)
    have clean₂ := lowersActor.clean (lowers.clean clean)
    obtain ⟨c, lowersIndex, laidIndex⟩ := yields_exprs bodies index s is s₂ hindex clean₂
    exact ⟨_, .assignActor _ lowersIndex ⟨hactorVar, .refl _, clean₂⟩ lowersActor lowers hset,
      laidIndex.seq (laidActor.seq laid)⟩

/-- Giving up an instance is plain. -/
theorem plain_deleteHandle (handle : Element) (className : String) :
    Plain (deleteHandle handle className) :=
  .bind (.hiddenName _) fun _ => .bind (Plain.rules.declare _ _ _) fun _ => .bind .get fun _ =>
    .onStorage (.release _ _ _)

/-! ## Conditionals -/

/-- A condition is closed with its scope. -/
theorem run_closeCondition_ok {tail : List Action}
    (h : run closeCondition s = some (.ok tail, s')) (clean : s'.deferred = []) :
    Closes s tail s' := by
  obtain ⟨_, _, ⟨⟩, h₁⟩ := run_bind_ok.1 h
  obtain ⟨_, u, hclose, hreturn⟩ := run_bind_ok.1 h₁
  cases hreturn
  obtain ⟨scope, rest, σ, e, freed, rfl⟩ := run_closeScope_ok hclose
  have pops : pendingPops s (s.scopes.length - 1) = scopePops scope := by
    simp [pendingPops, UnitState.scopesFrom, e, scopePops]
  rw [pops]
  exact ⟨⟨scope, rest, σ, e, rfl, freed, rfl⟩, clean⟩

/-- The condition of an arm, its guard, and the end of its scope. -/
theorem run_openArm_ok (bodies : into.Yields) {condition : Expr} {block : IfBlock}
    {tail : List Action} (h : run (openArm into condition) s = some (.ok (block, tail), s'))
    (clean : s'.deferred = []) :
    ∃ c x u, Lowers (.expr condition) s.opened c [x] u ∧ Laid s c u ∧
      block = ⟨.setup, some u.list.length⟩ ∧
      Closes (u.withList (u.list.pushSkip (some x.negate))) tail s' := by
  obtain ⟨x, u, hcondition, h₁⟩ := run_bind_ok.1 h
  obtain ⟨_, _, ⟨⟩, hcondition⟩ := run_bind_ok.1 hcondition
  obtain ⟨_, _, ⟨⟩, h₂⟩ := run_bind_ok.1 h₁
  obtain ⟨_, _, ⟨⟩, h₃⟩ := run_bind_ok.1 h₂
  obtain ⟨_, _, ⟨⟩, h₄⟩ := run_bind_ok.1 h₃
  obtain ⟨_, t, hclose, hreturn⟩ := run_bind_ok.1 h₄
  cases hreturn
  have closes := run_closeCondition_ok hclose clean
  obtain ⟨c, lowers, laid⟩ := yields_expr bodies condition _ x u hcondition closes.before
  exact ⟨c, x, u, lowers, laid.congr rfl rfl rfl rfl rfl rfl rfl rfl, rfl, closes⟩

/-- The second half of closing an arm: the end of its skip, its tail, and the skip over the tail. -/
def Lower.endArm (block : IfBlock) (tail : List Action) (chain : IfChain) (overTail : Option Nat) :
    Lower IfChain := do
  let (_, list) ← (block.finish (← get).list : Except LowerError _)
  modifyList fun _ => list
  emit tail
  match overTail with
  | some skip => resolveHere skip
  | none => pure ()
  return chain

/-- The end of a branch depends on whether more follow. -/
theorem closeArm_eq (block : IfBlock) (tail : List Action) (chain : IfChain) (more : Bool) :
    closeArm block tail chain more =
      if more then do
        let (chain, list) := chain.skipToEnd (← get).list
        modifyList fun _ => list
        endArm block tail chain none
      else if tail.isEmpty then endArm block tail chain none
      else (do endArm block tail chain (some (← pushSkip))) := rfl

/-- A branch ends where its skip leads. -/
theorem run_endArm_ok {block : IfBlock} {tail : List Action} {chain chain' : IfChain}
    {overTail : Option Nat}
    (h : run (endArm block tail chain overTail) s = some (.ok chain', s')) :
    chain' = chain ∧ ∃ b l, block.finish s.list = .ok (b, l) ∧
      ((overTail = none ∧ s' = s.withList (l.extend tail)) ∨
        ∃ skip l', overTail = some skip ∧ (l.extend tail).resolveHere skip = .ok l' ∧
          s' = s.withList l') := by
  obtain ⟨_, _, ⟨⟩, h₁⟩ := run_bind_ok.1 h
  obtain ⟨⟨b, l⟩, _, lifted, h₂⟩ := run_bind_ok.1 h₁
  obtain ⟨hfinish, rfl⟩ := run_lift_ok.1 lifted
  obtain ⟨_, _, ⟨⟩, h₃⟩ := run_bind_ok.1 h₂
  obtain ⟨_, _, ⟨⟩, h₄⟩ := run_bind_ok.1 h₃
  cases overTail with
  | none =>
    cases h₄
    exact ⟨rfl, b, l, hfinish, Or.inl ⟨rfl, rfl⟩⟩
  | some skip =>
    obtain ⟨_, _, hresolve, h₅⟩ := run_bind_ok.1 h₄
    cases h₅
    obtain ⟨l', hl', rfl⟩ := run_resolveHere_ok.1 hresolve
    exact ⟨rfl, b, l, hfinish, Or.inr ⟨skip, l', rfl, hl', rfl⟩⟩

/-- A branch that is set up is finished by resolving its exit. -/
theorem IfBlock.finish_setup_ok {exit : Nat} {list l : ActionList} {b : IfBlock}
    (h : IfBlock.finish ⟨.setup, some exit⟩ list = .ok (b, l)) : list.resolveHere exit = .ok l := by
  have e : IfBlock.finish ⟨.setup, some exit⟩ list =
      (list.resolveHere exit).bind fun l => .ok (⟨.finished, none⟩, l) := rfl
  rw [e] at h
  cases hr : list.resolveHere exit with
  | error e => simp [hr, Except.bind] at h
  | ok l =>
    rw [hr] at h
    cases h
    rfl

/-- How an arm is closed: with more to come, and at the end of a chain without or with a tail. -/
theorem run_closeArm_ok {exit : Nat} {tail : List Action} {chain chain' : IfChain} {more : Bool}
    (h : run (closeArm ⟨.setup, some exit⟩ tail chain more) s = some (.ok chain', s')) :
    (more = false ∧ tail = [] ∧ chain' = chain ∧
        ∃ l, s.list.resolveHere exit = .ok l ∧ s' = s.withList l) ∨
      (∃ l, (s.list.pushSkip none).resolveHere exit = .ok l ∧
        ((more = true ∧ chain' = ⟨chain.ends ++ [s.list.length]⟩ ∧
            s' = s.withList (l.extend tail)) ∨
          (more = false ∧ chain' = chain ∧
            ∃ l', (l.extend tail).resolveHere s.list.length = .ok l' ∧ s' = s.withList l'))) := by
  rw [closeArm_eq] at h
  cases more with
  | true =>
    obtain ⟨_, _, ⟨⟩, h₁⟩ := run_bind_ok.1 h
    obtain ⟨_, _, ⟨⟩, h₂⟩ := run_bind_ok.1 h₁
    obtain ⟨rfl, b, l, hl, ⟨-, rfl⟩ | ⟨_, _, ⟨⟩, -⟩⟩ := run_endArm_ok h₂
    exact Or.inr ⟨l, IfBlock.finish_setup_ok hl, Or.inl ⟨rfl, rfl, rfl⟩⟩
  | false =>
    rw [if_neg Bool.false_ne_true] at h
    split at h
    · next empty =>
      -- nothing has to be popped if the test fails, so there is no tail to skip
      obtain rfl := List.isEmpty_iff.1 empty
      obtain ⟨rfl, b, l, hl, ⟨-, rfl⟩ | ⟨_, _, ⟨⟩, -⟩⟩ := run_endArm_ok h
      exact Or.inl ⟨rfl, rfl, rfl, l, IfBlock.finish_setup_ok hl, rfl⟩
    · obtain ⟨_, _, h₁, h₂⟩ := run_bind_ok.1 h
      rw [run_pushSkip] at h₁
      cases h₁
      obtain ⟨rfl, b, l, hl, ⟨⟨⟩, -⟩ | ⟨_, l', ⟨⟩, hl', rfl⟩⟩ := run_endArm_ok h₂
      exact Or.inr ⟨l, IfBlock.finish_setup_ok hl, Or.inr ⟨rfl, rfl, l', hl', rfl⟩⟩

/-- Closing an arm changes nothing but the list. -/
theorem run_closeArm_list {block : IfBlock} {tail : List Action} {chain chain' : IfChain}
    {more : Bool} (h : run (closeArm block tail chain more) s = some (.ok chain', s')) :
    ∃ l, s' = s.withList l := by
  have ended {chain : IfChain} {overTail : Option Nat} {u : UnitState}
      (h : run (endArm block tail chain overTail) u = some (.ok chain', s')) :
      ∃ l, s' = u.withList l := by
    obtain ⟨-, _, l, -, ⟨-, e⟩ | ⟨_, l', -, -, e⟩⟩ := run_endArm_ok h
    · exact ⟨_, e⟩
    · exact ⟨_, e⟩
  rw [closeArm_eq] at h
  cases more with
  | true =>
    obtain ⟨_, _, ⟨⟩, h₁⟩ := run_bind_ok.1 h
    obtain ⟨_, _, ⟨⟩, h₂⟩ := run_bind_ok.1 h₁
    obtain ⟨l, rfl⟩ := ended h₂
    exact ⟨l, rfl⟩
  | false =>
    rw [if_neg Bool.false_ne_true] at h
    split at h
    · exact ended h
    · obtain ⟨_, _, h₁, h₂⟩ := run_bind_ok.1 h
      rw [run_pushSkip] at h₁
      cases h₁
      obtain ⟨l, rfl⟩ := ended h₂
      exact ⟨l, rfl⟩

/-- A tail has no skips, so it can be laid anywhere. -/
theorem laid_tail {l : ActionList} {tail : List Action} (settled : Settled tail) (s : UnitState) :
    Laid (s.withList l) (.acts tail) (s.withList (l.extend tail)) :=
  .extend settled rfl rfl rfl rfl

theorem Lower.Closes.settled {pops : List Action} (h : Closes s pops s') : Settled pops := by
  obtain ⟨scope, _, _, -, rfl, -, -⟩ := h.closed
  exact .flatMap (fun v => settled_pop v none) _

/-- After the last branch nothing is left to do. -/
theorem nothing_more {rest : List Branch} {otherwise : Option (List Stmt)} {more : Bool}
    (last : more = false) (known : more = (!rest.isEmpty || otherwise.isSome)) :
    rest = [] ∧ otherwise = none := by
  rw [last] at known
  cases rest with
  | nil =>
    cases otherwise with
    | none => exact ⟨rfl, rfl⟩
    | some body => cases known
  | cons b rest => cases known

/-- One arm of a conditional before the others. -/
theorem yields_arms_cons (bodies : into.Yields) {condition : Expr} {body : List Stmt}
    {rest : List Branch} {otherwise : Option (List Stmt)} {m : Lower Unit} {block : IfBlock}
    {tail : List Action} {chain chain' chain'' : IfChain} {more : Bool}
    {s₂ s₃ s₄ : UnitState} (inner : Yields m (.block body) fun _ => [])
    (hopen : run (openArm into condition) s = some (.ok (block, tail), s₂))
    (hbody : run m s₂ = some (.ok (), s₃))
    (hclose : run (closeArm block tail chain more) s₃ = some (.ok chain', s₄))
    (known : more = (!rest.isEmpty || otherwise.isSome))
    (others : ∃ new d, chain''.ends = chain'.ends ++ new ∧
      Lowers (.arms rest otherwise) s₄ d [] s' ∧ Joined new s₄ d s') (clean : s'.deferred = []) :
    ∃ new c, chain''.ends = chain.ends ++ new ∧
      Lowers (.arms (.mk condition body :: rest) otherwise) s c [] s' ∧ Joined new s c s' := by
  obtain ⟨new, e, ends, lowersRest, laidRest⟩ := others
  have clean₃ : s₃.deferred = [] := by
    have clean₄ := lowersRest.clean clean
    obtain ⟨l, rfl⟩ := run_closeArm_list hclose
    exact clean₄
  obtain ⟨d, lowersBody, laidBody⟩ := inner s₂ () s₃ hbody clean₃
  -- only now is the state behind the condition known to be clean
  obtain ⟨c, x, u, lowersCondition, laidCondition, rfl, closes⟩ :=
    run_openArm_ok bodies hopen (lowersBody.clean clean₃)
  have pops := (Laid.closes closes).seq laidBody
  rcases run_closeArm_ok hclose with ⟨last, rfl, rfl, l, hl, rfl⟩ |
      ⟨l, hl, ⟨-, rfl, rfl⟩ | ⟨last, rfl, l', hl', rfl⟩⟩
  · -- the last arm, without a tail
    obtain ⟨rfl, rfl⟩ := nothing_more last known
    cases lowersRest
    exact ⟨new, _, ends, .arms_last _ _ lowersCondition closes lowersBody,
      (laidCondition.seq (.arm pops.of_nothing hl)).joined new⟩
  · -- the skip at the end of this arm joins those of the arms behind it
    refine ⟨s₃.list.length :: new, _, ?_, .arms_cons _ _ lowersCondition closes lowersBody
      lowersRest,
      .before laidCondition (.choice pops hl (.before ?_ laidRest))⟩
    · rw [ends]
      simp
    · exact laid_tail closes.settled s₃
  · -- the last arm skips its own tail
    obtain ⟨rfl, rfl⟩ := nothing_more last known
    cases lowersRest
    refine ⟨new, _, ends, .arms_cons _ _ lowersCondition closes lowersBody .arms_nil, ?_⟩
    have joined : Joined [s₃.list.length] u
        (.choice x.negate (.seq (.acts tail) d) (.seq (.acts tail) (.acts [])))
        (s₃.withList (l.extend tail)) :=
      .choice pops hl (((laid_tail closes.settled s₃).seq (.nothing _)).joined [])
    exact (laidCondition.seq (@Joined.close _ _ _ _ l' joined (by
      rw [List.foldlM_cons]
      simp only [UnitState.withList]
      rw [hl']
      rfl))).joined new

/-! ## Loops -/

/-- The head of a loop with a condition, its guard, and the end of the scope of the condition. -/
theorem run_openLoop_ok {kind : LoopKind} {condition : Expr} {block : LoopBlock}
    {tail : List Action} (plain : ∀ array index, kind ≠ .forEach array index)
    (h : run (openLoop into kind condition) s = some (.ok (block, tail), s')) :
    ∃ x u, run (lowerExpr into condition) (s.looping s.list).opened = some (.ok x, u) ∧
      block = ⟨kind, .guarded, s.list.length, some u.list.length, []⟩ ∧
      run closeCondition (u.withList (u.list.pushSkip (some x.negate))) = some (.ok tail, s') := by
  obtain ⟨_, _, ⟨⟩, h₁⟩ := run_bind_ok.1 h
  obtain ⟨b₁, s₁, hsetup, h₂⟩ := run_bind_ok.1 h₁
  obtain ⟨x, u, hopen, h₃⟩ := run_bind_ok.1 h₂
  obtain ⟨_, _, ⟨⟩, hcondition⟩ := run_bind_ok.1 hopen
  obtain ⟨b₂, v, hguard, h₄⟩ := run_bind_ok.1 h₃
  obtain ⟨_, t, hclose, hreturn⟩ := run_bind_ok.1 h₄
  cases hreturn
  obtain ⟨flow₁, begun, rfl⟩ := run_onLoop_ok.1 hsetup
  obtain ⟨zero, hzero, rfl, rfl⟩ := LoopBlock.run_setup_ok begun
  obtain ⟨flow₂, guarded, rfl⟩ := run_onLoop_ok.1 hguard
  obtain ⟨exit, hexit, rfl, rfl⟩ := LoopBlock.run_guard_ok guarded
  -- a loop with a condition starts without actions, and leaves when its condition fails
  obtain rfl : [] = zero := by
    cases kind with
    | forEach array index => exact absurd rfl (plain array index)
    | «while» => exact Except.ok.inj hzero
    | «for» => exact Except.ok.inj hzero
  obtain rfl : x.negate = exit := by
    cases kind with
    | forEach array index => exact absurd rfl (plain array index)
    | «while» => exact Except.ok.inj hexit
    | «for» => exact Except.ok.inj hexit
  exact ⟨x, u, hcondition, rfl, hclose⟩

/-- At its epilogue a loop gives up its frame and resolves what goes on there. -/
theorem run_epilogue_ok {block block' : LoopBlock}
    (h : run (onLoop block LoopBlock.epilogue) s = some (.ok block', s')) :
    ∃ frame rest list, s.loops.frames = frame :: rest ∧ frame.start = block.start ∧
      frame.continues.foldlM ActionList.resolveHere s.list = .ok list ∧
      block' = { block with breaks := frame.breaks, stage := .epilogue } ∧
      s' = s.looped list := by
  obtain ⟨flow, closed, rfl⟩ := run_onLoop_ok.1 h
  obtain ⟨-, frame, rest, list, found, same, resolved, rfl, rfl⟩ := LoopBlock.run_epilogue_ok closed
  have found : s.loops.frames = frame :: rest := found
  refine ⟨frame, rest, list, found, same, resolved, rfl, ?_⟩
  simp only [UnitState.looped, found, List.tail_cons]

/-- The end of a loop leads back to its start, and resolves its guard and what leaves it. -/
theorem run_closeLoop_ok {block : LoopBlock} {tail : List Action} (stage : block.stage = .epilogue)
    (h : run (closeLoop block tail) s = some (.ok (), s')) :
    ∃ next exit l₁ done,
      LoopBlock.indexWrite block.kind (fun index => index.add (.ofNat 1)) = .ok next ∧
      block.exit = some exit ∧
      ((s.list.extend next).pushSkipTo block.start).resolveHere exit = .ok l₁ ∧
      block.breaks.foldlM ActionList.resolveHere (l₁.extend tail) = .ok done ∧
      s' = s.withList done := by
  obtain ⟨block', hfinish, -⟩ := run_map_ok.1 h
  obtain ⟨flow, finished, rfl⟩ := run_onLoop_ok.1 hfinish
  obtain ⟨next, exit, l₁, done, hnext, hexit, ended, leaves, rfl⟩ :=
    LoopBlock.run_finish_ok stage finished
  exact ⟨next, exit, l₁, done, hnext, hexit, ended, leaves, rfl⟩

/-- A loop that is closed while its body is open closes the body first. -/
theorem run_closeLoop_guarded {block : LoopBlock} {tail : List Action}
    (stage : block.stage = .guarded) (h : run (closeLoop block tail) s = some (.ok (), s')) :
    ∃ block' u, run (onLoop block LoopBlock.epilogue) s = some (.ok block', u) ∧
      run (closeLoop block' tail) u = some (.ok (), s') := by
  obtain ⟨block₂, hfinish, -⟩ := run_map_ok.1 h
  obtain ⟨flow, finished, rfl⟩ := run_onLoop_ok.1 hfinish
  obtain ⟨b₁, flow₁, first, -, second⟩ := LoopBlock.run_finish_guarded stage finished
  exact ⟨b₁, _, run_onLoop_ok.2 ⟨flow₁, first, rfl⟩,
    run_map_ok.2 ⟨block₂, run_onLoop_ok.2 ⟨flow, second, rfl⟩, rfl⟩⟩

/-- A loop with a condition yields its test, its body, its step and its tail. -/
theorem yields_loop (bodies : into.Yields) {kind : LoopKind} {condition : Expr}
    {body step : List Stmt} {m : Lower Unit} {block block' : LoopBlock} {tail : List Action}
    {s₂ s₃ s₄ s₅ : UnitState} (plain : ∀ array index, kind ≠ .forEach array index)
    (inner : Yields m (.block body) fun _ => [])
    (hopen : run (openLoop into kind condition) s = some (.ok (block, tail), s₂))
    (hbody : run m s₂ = some (.ok (), s₃))
    (hepilogue : run (onLoop block LoopBlock.epilogue) s₃ = some (.ok block', s₄))
    (hstep : s₅.deferred = [] → ∃ e, Lowers (.block step) s₄ e [] s₅ ∧ Laid s₄ e s₅)
    (hclose : run (closeLoop block' tail) s₅ = some (.ok (), s')) (clean : s'.deferred = []) :
    ∃ c, Lowers (.loop condition body step) s c [] s' ∧ Laid s c s' := by
  obtain ⟨frame, rest, round, found, -, rounds, rfl, rfl⟩ := run_epilogue_ok hepilogue
  obtain ⟨next, exit, l₁, done, hnext, hexit, ended, leaves, rfl⟩ := run_closeLoop_ok rfl hclose
  obtain ⟨e, lowersStep, laidStep⟩ := hstep clean
  have clean₃ : s₃.deferred = [] := lowersStep.clean clean
  obtain ⟨d, lowersBody, laidBody⟩ := inner s₂ () s₃ hbody clean₃
  obtain ⟨x, u, hcondition, rfl, hcloses⟩ := run_openLoop_ok plain hopen
  have closes := run_closeCondition_ok hcloses (lowersBody.clean clean₃)
  obtain ⟨c, lowersCondition, laidCondition⟩ :=
    yields_expr bodies condition _ x u hcondition closes.before
  obtain rfl : [] = next := by
    cases kind with
    | forEach array index => exact absurd rfl (plain array index)
    | «while» => exact Except.ok.inj hnext
    | «for» => exact Except.ok.inj hnext
  cases hexit
  -- the guard stands in the middle of the round, behind what computes the condition
  have guarded : Guarded u.list.length (s.looping s.list)
      (.seq c (.seq (.test x.negate) (.seq (.acts tail) d))) s₃ :=
    .before (laidCondition.congr rfl rfl rfl rfl rfl rfl rfl rfl)
      (.after (.test u x.negate) ((Laid.closes closes).seq laidBody))
  exact ⟨_, .loop s.list _ round done lowersCondition closes lowersBody lowersStep,
    .loop guarded found laidStep closes.settled ⟨rounds, l₁, _, ended, rfl, leaves⟩⟩

/-- The step of a loop that has none. -/
theorem block_nil (clean : s.deferred = []) :
    ∃ e, Lowers (.block []) s e [] s ∧ Laid s e s :=
  ⟨_, .block .stmts_nil ⟨⟨.empty, s.scopes, s.session, rfl, rfl, rfl, rfl⟩, clean⟩,
    (Laid.nothing s).seq (.nothing s)⟩

theorem plain_indexName (index : Option String) : Silent (indexName index) := by
  cases index with
  | none => exact .hiddenName _
  | some name => exact .pure _

/-- A loop over an array has an index that starts at zero, and the array in an element of its own.
-/
theorem run_openForEach_ok {index : Option String} {x current : Element} {block : LoopBlock}
    (h : run (openForEach index x) s = some (.ok (block, current), s')) :
    ∃ name t v u zero, run (indexName index) s = some (.ok name, t) ∧
      run (declare name none false) t = some (.ok v, u) ∧
      v.set "foreach index" (.ofNat 0) [] = .ok zero ∧ current = .itemAt x v.get ∧
      block = ⟨.forEach x v, .guarded, (u.list.extend zero).length,
        some (u.list.extend zero).length, []⟩ ∧
      s' = (u.looping (u.list.extend zero)).withList ((u.list.extend zero).pushSkip
        (some (.compare v.get .greaterEqual (.countOf x)))) := by
  have named : ∃ name t, run (indexName index) s = some (.ok name, t) ∧
      run (openForEachAt name x) t = some (.ok (block, current), s') := by
    cases index with
    | none => exact run_bind_ok.1 h
    | some name => exact ⟨name, s, rfl, h⟩
  obtain ⟨name, t, hname, h₁⟩ := named
  obtain ⟨v, u, hdeclare, h₂⟩ := run_bind_ok.1 h₁
  obtain ⟨_, _, ⟨⟩, h₃⟩ := run_bind_ok.1 h₂
  obtain ⟨b₁, s₁, hsetup, h₄⟩ := run_bind_ok.1 h₃
  obtain ⟨b₂, s₂, hguard, h₅⟩ := run_bind_ok.1 h₄
  obtain ⟨flow₁, begun, rfl⟩ := run_onLoop_ok.1 hsetup
  obtain ⟨zero, hzero, rfl, rfl⟩ := LoopBlock.run_setup_ok begun
  obtain ⟨flow₂, guarded, rfl⟩ := run_onLoop_ok.1 hguard
  obtain ⟨exit, hexit, rfl, rfl⟩ := LoopBlock.run_guard_ok guarded
  cases hexit
  cases h₅
  exact ⟨name, t, v, u, zero, hname, hdeclare, hzero, rfl, rfl, rfl⟩

/-- It yields a loop whose test is on the index. -/
theorem yields_forEach (bodies : into.Yields) {element : String} {index : Option String}
    {array : Expr} {body : List Stmt} {m : Lower Unit}
    (inner : Yields m (.stmts body) fun _ => []) :
    Yields (do
      let array ← lowerExpr into array
      inScope do
        let (block, current) ← openForEach index array
        inScope do
          bind element (.reference current)
          m
        closeLoop block []) (.kind (.forEach element index array body)) fun _ => [] := by
  intro s _ s₆ h clean
  -- the steps, from the outside in
  obtain ⟨x, s₁, harray, h₁⟩ := run_bind_ok.1 h
  obtain ⟨v₁, h₂, houter⟩ := run_inScope_ok.1 h₁
  obtain ⟨pops', closes'⟩ := closes_of_run houter clean
  obtain ⟨⟨block, current⟩, s₃', hopen, h₃⟩ := run_bind_ok.1 h₂
  dsimp only at h₃
  obtain ⟨_, s₅, h₄, hclose⟩ := run_bind_ok.1 h₃
  obtain ⟨s₄, h₅, hinner⟩ := run_inScope_ok.1 h₄
  obtain ⟨_, t, hbind, hbody⟩ := run_bind_ok.1 h₅
  obtain ⟨scope, rest, e, rfl⟩ := run_modifyScope_ok.1 hbind
  cases e
  obtain ⟨name, s₂, v, s₃, zero, hname, hdeclare, hzero, rfl, rfl, rfl⟩ := run_openForEach_ok hopen
  obtain ⟨block', u', hepilogue, hend⟩ := run_closeLoop_guarded rfl hclose
  obtain ⟨frame, rest, round, found, -, rounds, rfl, rfl⟩ := run_epilogue_ok hepilogue
  obtain ⟨next, exit, l₁, done, hnext, hexit, ended, leaves, rfl⟩ := run_closeLoop_ok rfl hend
  -- what they become, from the last to the first
  have clean₅ : s₅.deferred = [] := closes'.before
  obtain ⟨pops, closes⟩ := closes_of_run hinner clean₅
  obtain ⟨d, lowersBody, laidBody⟩ := inner _ () s₄ hbody closes.before
  obtain ⟨declared, declares⟩ := emits_of_plain (Plain.rules.declare name none false) hdeclare
    (lowersBody.clean closes.before)
  have named := emits_of_silent (plain_indexName index) hname declares.before
  obtain ⟨c, lowersArray, laidArray⟩ := yields_expr bodies array s x s₁ harray named.before
  cases hexit
  -- where the pieces stand: the start at the first position, and the round that the guard begins
  have guarded : Guarded (s₃.list.extend zero).length (s₃.looping (s₃.list.extend zero))
      (.seq (.test (.compare v.get .greaterEqual (.countOf x))) (.seq d (.acts pops))) s₅ := by
    have test := Guarded.test (s₃.looping (s₃.list.extend zero))
      (.compare v.get .greaterEqual (.countOf x))
    exact .after test ((laidBody.seq (.closes closes)).congr rfl rfl rfl rfl rfl rfl rfl rfl)
  have stepped : Laid (s₅.looped round) (.acts next)
      ((s₅.looped round).withList (round.extend next)) :=
    .extend (settled_variable hnext) rfl rfl rfl rfl
  have loop := Laid.loop guarded found stepped .nil ⟨rounds, l₁, _, ended, rfl, leaves⟩
  have head : Laid s₁ (.acts (declared ++ zero)) (s₃.withList (s₃.list.extend zero)) := by
    have start : Laid s₃ (.acts zero) (s₃.withList (s₃.list.extend zero)) :=
      .extend (settled_variable hzero) rfl rfl rfl rfl
    have all := (named.laid.seq ((declares.laid.seq start).merge)).of_nothing
    exact all.congr rfl rfl rfl rfl rfl rfl rfl rfl
  exact ⟨_, .forEach _ _ done lowersArray named declares hzero lowersBody closes hnext closes',
    laidArray.seq (head.seq (loop.seq (.closes closes')))⟩

/-! ## Exits -/

/-- What is popped on the way out has no skips. -/
theorem laid_pops (s : UnitState) (depth : Nat) :
    Laid s (.acts (pendingPops s depth)) (s.withList (s.list.extend (pendingPops s depth))) :=
  .extend (.flatMap (fun _ => .flatMap (fun v => settled_pop v none) _) _) rfl rfl rfl rfl

/-- The innermost frame is looked at, and is there. -/
theorem run_frame_ok {frame : Frame} (h : run Lower.frame s = some (.ok frame, s')) :
    s' = s ∧ ∃ frames, s.frames = frame :: frames := by
  obtain ⟨_, _, ⟨⟩, h₁⟩ := run_bind_ok.1 h
  split at h₁
  · next frame frames e =>
    cases h₁
    exact ⟨rfl, frames, e⟩
  · cases h₁

/-- An exit pops what is above its loop, writes a waiting skip and notes it there. -/
theorem run_leaveLoop_ok {depth : UInt32} {exit : String}
    {wait : LoopStack → Nat → Nat → Except LowerError LoopStack}
    (h : run (leaveLoop depth exit wait) s = some (.ok (), s')) :
    ∃ frame frames target loops, s.frames = frame :: frames ∧
      s.loops.frame depth frame.loopFloor exit = .ok target ∧
      wait s.loops frame.loopFloor (s.list.extend (pendingPops s target.scopeDepth)).length =
        .ok loops ∧
      s' = { s with
        list := (s.list.extend (pendingPops s target.scopeDepth)).pushSkip none
        loops } := by
  obtain ⟨frame, _, hframe, h₁⟩ := run_bind_ok.1 h
  obtain ⟨rfl, frames, found⟩ := run_frame_ok hframe
  obtain ⟨_, _, ⟨⟩, h₂⟩ := run_bind_ok.1 h₁
  obtain ⟨target, _, htarget, h₃⟩ := run_bind_ok.1 h₂
  rw [run_lift_ok] at htarget
  obtain ⟨htarget, rfl⟩ := htarget
  -- the pops come before the skip, whose position the loop is told
  obtain ⟨_, _, hunwind, h₄⟩ := run_bind_ok.1 h₃
  rw [run_unwindTo] at hunwind
  cases hunwind
  obtain ⟨_, _, hskip, h₅⟩ := run_bind_ok.1 h₄
  rw [run_pushSkip] at hskip
  cases hskip
  obtain ⟨_, _, ⟨⟩, h₆⟩ := run_bind_ok.1 h₅
  obtain ⟨loops, _, hwait, h₇⟩ := run_bind_ok.1 h₆
  rw [run_lift_ok] at hwait
  obtain ⟨hwait, rfl⟩ := hwait
  cases h₇
  exact ⟨frame, frames, target, loops, found, htarget, hwait, rfl⟩

/-- A break yields a way out of a loop. -/
theorem yields_break (depth : UInt32) :
    Yields (leaveLoop depth "break" (·.addBreak depth)) (.kind (.break depth)) fun _ => [] := by
  intro s _ s' h _
  obtain ⟨frame, frames, target, loops, found, reached, added, rfl⟩ := run_leaveLoop_ok h
  exact ⟨_, .break _ _ found reached added,
    (laid_pops s target.scopeDepth).seq (.leave found reached added)⟩

/-- A continue yields a way to its next round. -/
theorem yields_continue (depth : UInt32) :
    Yields (leaveLoop depth "continue" (·.addContinue depth)) (.kind (.continue depth))
      fun _ => [] := by
  intro s _ s' h _
  obtain ⟨frame, frames, target, loops, found, reached, added, rfl⟩ := run_leaveLoop_ok h
  exact ⟨_, .continue _ _ found reached added,
    (laid_pops s target.scopeDepth).seq (.again found reached added)⟩

/-- A return writes its result, pops what is above the body, and notes a waiting skip. -/
theorem run_leaveFrame_ok {value : Option Element}
    (h : run (leaveFrame value) s = some (.ok (), s')) :
    ∃ frame frames, s.frames = frame :: frames ∧
      s' = { s with
        list := (s.list.extend (storeResult frame.result value.toList ++
          pendingPops s frame.scopeDepth)).pushSkip none
        frames := { frame with
          returns := frame.returns ++ [(s.list.extend (storeResult frame.result value.toList ++
            pendingPops s frame.scopeDepth)).length] } :: frames } := by
  obtain ⟨frame, s, hframe, h₁⟩ := run_bind_ok.1 h
  obtain ⟨rfl, frames, found⟩ := run_frame_ok hframe
  refine ⟨frame, frames, found, ?_⟩
  -- with nothing to store, or nowhere to store it, an empty list of actions is emitted
  have stored : run (do
      emit (storeResult frame.result value.toList)
      unwindTo frame.scopeDepth
      addReturn (← pushSkip)) s = some (.ok (), s') := by
    cases value with
    | none =>
      rw [← h₁]
      rfl
    | some x =>
      dsimp only at h₁
      split at h₁
      · next x' result e₁ e₂ =>
        cases e₁
        rw [← h₁, e₂]
        rfl
      · next miss =>
        cases hr : frame.result with
        | none =>
          rw [← h₁]
          rfl
        | some result => exact absurd hr (miss x result rfl)
  obtain ⟨_, _, ⟨⟩, h₂⟩ := run_bind_ok.1 stored
  obtain ⟨_, _, hunwind, h₃⟩ := run_bind_ok.1 h₂
  rw [run_unwindTo] at hunwind
  cases hunwind
  obtain ⟨_, _, hskip, h₄⟩ := run_bind_ok.1 h₃
  rw [run_pushSkip] at hskip
  cases hskip
  obtain ⟨_, _, ⟨⟩, h₅⟩ := run_bind_ok.1 h₄
  dsimp only at h₅
  rw [found] at h₅
  cases h₅
  rw [extend_append]
  rfl

theorem settled_storeResult (result : Option IndexedVar) (value : List Element) :
    Settled (storeResult result value) := by
  unfold storeResult
  split
  · exact settled_set _ _ _ _
  · exact .nil

/-- A return yields its operand, and a way out of the body. -/
theorem yields_return {value : Option Expr} {m : Lower (Option Element)}
    (operand : Yields m (.exprs value.toList) Option.toList) :
    Yields (do leaveFrame (← m)) (.kind (.return value)) fun _ => [] := by
  intro s _ s' h clean
  obtain ⟨x, s₁, hvalue, hleave⟩ := run_bind_ok.1 h
  obtain ⟨frame, frames, found, rfl⟩ := run_leaveFrame_ok hleave
  obtain ⟨c, lowers, laid⟩ := operand s x s₁ hvalue clean
  have stored :
    Laid s₁ (.acts (storeResult frame.result x.toList ++ pendingPops s₁ frame.scopeDepth))
      (s₁.withList (s₁.list.extend (storeResult frame.result x.toList ++
        pendingPops s₁ frame.scopeDepth))) :=
    .extend ((settled_storeResult _ _).append
      (.flatMap (fun _ => .flatMap (fun v => settled_pop v none) _) _)) rfl rfl rfl rfl
  exact ⟨_, .return _ _ lowers found, laid.seq (stored.seq (.ret found))⟩

/-! ## The tree of a statement -/

/-- A value that may be missing yields the expressions that it has. -/
theorem yields_option (bodies : into.Yields) (value : Option Expr) :
    Yields (value.mapM (lowerExpr into)) (.exprs value.toList) Option.toList := by
  intro s x s' h clean
  cases value with
  | none =>
    cases h
    exact ⟨_, .nil, .nothing _⟩
  | some e =>
    obtain ⟨y, hy, rfl⟩ := run_map_ok.1 h
    exact yields_exprs_cons (yields_expr bodies e) yields_exprs_nil hy rfl clean

/-- Statements yield what the first and then the others yield. -/
theorem yields_stmts_cons {first : Stmt} {rest : List Stmt} {m n : Lower Unit}
    (head : Yields m (.stmt first) fun _ => []) (tail : Yields n (.stmts rest) fun _ => []) :
    Yields (do
      m
      n) (.stmts (first :: rest)) fun _ => [] := by
  intro s _ s' h clean
  obtain ⟨_, u, h₁, h₂⟩ := run_bind_ok.1 h
  obtain ⟨d, lowers₂, laid₂⟩ := tail u () s' h₂ clean
  obtain ⟨c, lowers₁, laid₁⟩ := head s () u h₁ (lowers₂.clean clean)
  exact ⟨_, .stmts_cons lowers₁ lowers₂, laid₁.seq laid₂⟩

theorem yields_stmts_nil : Yields (pure ()) (.stmts []) fun _ => [] := by
  intro s _ s' h _
  cases h
  exact ⟨_, .stmts_nil, .nothing _⟩

/-- A row of one yields what its statement yields. -/
theorem yields_stmts_one {first : Stmt} {m : Lower Unit}
    (head : Yields m (.stmt first) fun _ => []) : Yields m (.stmts [first]) fun _ => [] := by
  intro s _ s' h clean
  exact yields_stmts_cons head yields_stmts_nil s () s' (run_bind_ok.2 ⟨(), s', h, rfl⟩) clean

/-- A block yields its body in a scope. -/
theorem yields_block {body : List Stmt} {m : Lower Unit}
    (inner : Yields m (.stmts body) fun _ => []) :
    Yields (inScope m) (.block body) fun _ => [] := by
  intro s _ s' h clean
  obtain ⟨u, h, hclose⟩ := run_inScope_ok.1 h
  obtain ⟨pops, closes⟩ := closes_of_run hclose clean
  obtain ⟨c, lowers, laid⟩ := inner _ () u h closes.before
  exact ⟨_, .block lowers closes,
    (laid.seq (.closes closes)).congr rfl rfl rfl rfl rfl rfl rfl rfl⟩

/-- A condition yields its branches, and then the other one. -/
theorem yields_cond {branches : List Branch} {otherwise : Option (List Stmt)} {m : Lower Unit}
    (arms : ∀ s chain' s₁ s', run (lowerBranches into otherwise.isSome .new branches) s =
      some (.ok chain', s₁) → run m s₁ = some (.ok (), s') → s'.deferred = [] →
      ∃ c, Lowers (.arms branches otherwise) s c [] s' ∧ Joined chain'.ends s c s') :
    Yields (do
      let chain ← lowerBranches into otherwise.isSome .new branches
      m
      closeChain chain) (.kind (.cond branches otherwise)) fun _ => [] := by
  intro s _ s' h clean
  obtain ⟨chain, s₁, hbranches, h₁⟩ := run_bind_ok.1 h
  obtain ⟨_, s₂, hother, h₂⟩ := run_bind_ok.1 h₁
  obtain ⟨_, _, ⟨⟩, h₃⟩ := run_bind_ok.1 h₂
  obtain ⟨list, _, hfinish, h₄⟩ := run_bind_ok.1 h₃
  rw [run_lift_ok] at hfinish
  obtain ⟨hfinish, rfl⟩ := hfinish
  cases h₄
  obtain ⟨c, lowers, joined⟩ := arms s chain s₁ s₂ hbranches hother clean
  exact ⟨_, .cond list lowers, joined.close hfinish⟩

/-- A loop with a condition yields one. -/
theorem yields_while (bodies : into.Yields) {condition : Expr} {body : List Stmt} {m : Lower Unit}
    (inner : Yields m (.stmts body) fun _ => []) :
    Yields (do
      let (block, tail) ← openLoop into .while condition
      inScope m
      closeLoop block tail) (.kind (.while condition body)) fun _ => [] := by
  intro s _ s' h clean
  obtain ⟨⟨block, tail⟩, s₂, hopen, h₁⟩ := run_bind_ok.1 h
  obtain ⟨_, s₃, hbody, hclose⟩ := run_bind_ok.1 h₁
  have plain (array : Element) (index : Variable) : LoopKind.while ≠ .forEach array index := by
    intro e
    cases e
  obtain ⟨x, u, -, e, -⟩ := run_openLoop_ok plain hopen
  obtain ⟨block', s₄, hepilogue, hend⟩ := run_closeLoop_guarded (by rw [e]) hclose
  obtain ⟨c, lowers, laid⟩ := yields_loop bodies plain (yields_block inner) hopen
    hbody hepilogue block_nil hend clean
  exact ⟨c, .while lowers, laid⟩

/-- A loop with a start yields the start, and the loop behind it. -/
theorem yields_for (bodies : into.Yields) {start step : Option Stmt} {condition : Expr}
    {body : List Stmt} (first next : Lower Unit) {m : Lower Unit}
    (begin' : Yields first (.stmts start.toList) fun _ => [])
    (inner : Yields m (.stmts body) fun _ => [])
    (stepped : Yields next (.block step.toList) fun _ => []) :
    Yields (inScope do
      first
      let (block, tail) ← openLoop into .for condition
      inScope m
      let block ← onLoop block LoopBlock.epilogue
      next
      closeLoop block tail) (.kind (.for start condition step body)) fun _ => [] := by
  intro s _ s' h clean
  obtain ⟨v, h₁, hscope⟩ := run_inScope_ok.1 h
  obtain ⟨pops, closes⟩ := closes_of_run hscope clean
  obtain ⟨_, s₁, hfirst, h₂⟩ := run_bind_ok.1 h₁
  obtain ⟨⟨block, tail⟩, s₂, hopen, h₃⟩ := run_bind_ok.1 h₂
  obtain ⟨_, s₃, hbody, h₄⟩ := run_bind_ok.1 h₃
  obtain ⟨block', s₄, hepilogue, h₅⟩ := run_bind_ok.1 h₄
  obtain ⟨_, s₅, hnext, hclose⟩ := run_bind_ok.1 h₅
  have plain (array : Element) (index : Variable) : LoopKind.for ≠ .forEach array index := by
    intro e
    cases e
  -- the loop is laid first: that its end is clean makes the start clean
  obtain ⟨d, lowers₂, laid₂⟩ := yields_loop bodies plain (yields_block inner) hopen
    hbody hepilogue (stepped s₄ () s₅ hnext) hclose closes.before
  obtain ⟨c, lowers₁, laid₁⟩ := begin' _ () s₁ hfirst (lowers₂.clean closes.before)
  exact ⟨_, .for lowers₁ lowers₂ closes,
    (laid₁.seq (laid₂.seq (.closes closes))).congr rfl rfl rfl rfl rfl rfl rfl rfl⟩

/-- A step with a place in the source does what it does without one. -/
theorem run_located_ok {span : Source.Span} {m : Lower Unit}
    (h : run (located span m) s = some (.ok (), s')) :
    ∃ t, run m { s with span } = some (.ok (), t) ∧ s' = { t with span := s.span } := by
  have e : run (located span m) s = (run m { s with span }).bind fun p =>
      some (p.1.mapError (·.withSpan span), { p.2 with span := s.span }) := rfl
  rw [e] at h
  cases hr : run m { s with span } with
  | none =>
    rw [hr] at h
    cases h
  | some p =>
    obtain ⟨r, t⟩ := p
    rw [hr] at h
    cases r with
    | error e => cases h
    | ok _ =>
      cases h
      exact ⟨t, rfl, rfl⟩

mutual

/-- A successful lowering of a statement has a derivation, and its code is laid. -/
theorem yields_stmt (bodies : into.Yields) :
    (first : Stmt) → Yields (lowerStmt into first) (.stmt first) fun _ => []
  | .mk kind span => by
    intro s _ s' h clean
    rw [lowerStmt] at h
    obtain ⟨t, hkind, rfl⟩ := run_located_ok h
    obtain ⟨c, lowers, laid⟩ := yields_kind bodies kind _ () t hkind clean
    exact ⟨c, .stmt lowers, laid.congr rfl rfl rfl rfl rfl rfl rfl rfl⟩

/-- Every kind of statement yields what it stands for, by recursion over its parts. -/
theorem yields_kind (bodies : into.Yields) :
    (kind : StmtKind) → Yields (lowerKind into kind) (.kind kind) fun _ => []
  | .define name initial recursive => by
    intro s _ s' h clean
    rw [lowerKind] at h
    obtain ⟨x, s₁, hinitial, hdeclare⟩ := run_bind_ok.1 h
    obtain ⟨v, hdeclare, -⟩ := run_map_ok.1 hdeclare
    obtain ⟨actions, declares⟩ := emits_of_plain (Plain.rules.declare _ _ _) hdeclare clean
    obtain ⟨c, lowers, laid⟩ := yields_option bodies initial s x s₁ hinitial declares.before
    have same : x.toList.head? = x := by cases x <;> rfl
    rw [← same] at declares
    exact ⟨_, .define lowers declares, laid.seq declares.laid⟩
  | .assign target index op value => by
    rw [lowerKind]
    exact yields_assign bodies target index op value
  | .cond branches none => by
    rw [lowerKind]
    refine yields_cond (m := pure ()) fun s chain' s₁ s' h hother clean => ?_
    cases hother
    obtain ⟨new, c, ends, lowers, joined⟩ :=
      yields_branches bodies branches none .new s chain' s₁ s₁
      h (fun _ => ⟨_, .arms_nil, .nothing _⟩) clean
    rw [ends]
    exact ⟨c, lowers, joined⟩
  | .cond branches (some body) => by
    rw [lowerKind]
    refine yields_cond fun s chain' s₁ s' h hother clean => ?_
    obtain ⟨new, c, ends, lowers, joined⟩ := yields_branches bodies branches (some body) .new s
      chain' s₁ s' h (fun clean => by
        obtain ⟨d, lowers, laid⟩ :=
          yields_block (yields_stmts bodies body) s₁ () s' hother clean
        exact ⟨d, .arms_otherwise lowers, laid⟩) clean
    rw [ends]
    exact ⟨c, lowers, joined⟩
  | .while condition body => by
    rw [lowerKind]
    exact yields_while bodies (yields_stmts bodies body)
  -- a statement that is not there becomes no code
  | .for none condition none body => by
    rw [lowerKind]
    exact yields_for bodies (pure ()) (pure ()) yields_stmts_nil
      (yields_stmts bodies body) fun s _ s' h clean => by
        cases h
        exact block_nil clean
  | .for (some start) condition none body => by
    rw [lowerKind]
    exact yields_for bodies _ (pure ()) (yields_stmts_one (yields_stmt bodies start))
      (yields_stmts bodies body) fun s _ s' h clean => by
        cases h
        exact block_nil clean
  | .for none condition (some step) body => by
    rw [lowerKind]
    exact yields_for bodies (pure ()) _ yields_stmts_nil (yields_stmts bodies body)
      (yields_block (yields_stmts_one (yields_stmt bodies step)))
  | .for (some start) condition (some step) body => by
    rw [lowerKind]
    exact yields_for bodies _ _ (yields_stmts_one (yields_stmt bodies start))
      (yields_stmts bodies body) (yields_block (yields_stmts_one (yields_stmt bodies step)))
  | .forEach element index array body => by
    rw [lowerKind]
    exact yields_forEach bodies (yields_stmts bodies body)
  | .break depth => by
    rw [lowerKind]
    exact yields_break depth
  | .continue depth => by
    rw [lowerKind]
    exact yields_continue depth
  | .return value => by
    rw [lowerKind]
    exact yields_return (yields_option bodies value)
  | .delete object className => by
    intro s _ s' h clean
    rw [lowerKind] at h
    obtain ⟨x, s₁, hobject, hdelete⟩ := run_bind_ok.1 h
    obtain ⟨actions, deletes⟩ := emits_of_plain (plain_deleteHandle x className) hdelete clean
    obtain ⟨c, lowers, laid⟩ := yields_expr bodies object s x s₁ hobject deletes.before
    exact ⟨_, .delete lowers deletes, laid.seq deletes.laid⟩
  | .block body => by
    intro s _ s' h clean
    rw [lowerKind] at h
    obtain ⟨c, lowers, laid⟩ := yields_block (yields_stmts bodies body) s () s' h clean
    exact ⟨c, .blockKind lowers, laid⟩
  | .expr value => by
    intro s _ s' h clean
    rw [lowerKind] at h
    obtain ⟨x, h, -⟩ := run_map_ok.1 h
    obtain ⟨c, lowers, laid⟩ := yields_expr bodies value s x s' h clean
    exact ⟨c, .exprKind lowers, laid⟩

/-- So does a row of statements. -/
theorem yields_stmts (bodies : into.Yields) :
    (body : List Stmt) → Yields (lowerStmts into body) (.stmts body) fun _ => []
  | [] => yields_stmts_nil
  | first :: rest => by
    rw [lowerStmts]
    exact yields_stmts_cons (yields_stmt bodies first) (yields_stmts bodies rest)

/-- So do the branches of a condition. -/
theorem yields_branches (bodies : into.Yields) :
    (branches : List Branch) → ∀ (otherwise : Option (List Stmt)) (chain : IfChain)
      (s : UnitState) (chain' : IfChain) (s₁ s' : UnitState),
      run (lowerBranches into otherwise.isSome chain branches) s = some (.ok chain', s₁) →
      (s'.deferred = [] → ∃ d, Lowers (.arms [] otherwise) s₁ d [] s' ∧ Laid s₁ d s') →
      s'.deferred = [] →
      ∃ new c, chain'.ends = chain.ends ++ new ∧ Lowers (.arms branches otherwise) s c [] s' ∧
        Joined new s c s'
  | [], otherwise, chain, s, chain', s₁, s', h, others, clean => by
    cases h
    obtain ⟨d, lowers, laid⟩ := others clean
    exact ⟨[], d, (List.append_nil _).symm, lowers, laid.joined []⟩
  | .mk condition body :: rest, otherwise, chain, s, chain', s₁, s', h, others, clean => by
    rw [lowerBranches] at h
    obtain ⟨⟨block, tail⟩, s₂, hopen, h₁⟩ := run_bind_ok.1 h
    obtain ⟨_, s₃, hbody, h₂⟩ := run_bind_ok.1 h₁
    obtain ⟨chain₁, s₄, hclose, hrest⟩ := run_bind_ok.1 h₂
    exact yields_arms_cons bodies (yields_block (yields_stmts bodies body)) hopen hbody hclose rfl
      (yields_branches bodies rest otherwise chain₁ s₄ chain' s₁ s' hrest others clean) clean

end

/-! ## Units -/

/-- An expander yields bodies at any depth, by induction on it. -/
theorem yields_expander : (depth : Nat) → (expander depth).Yields
  | 0 => by
    constructor <;>
    · intro _ s _ s' h _
      cases h
  | depth + 1 => ⟨fun body => yields_block (yields_stmts (yields_expander depth) body),
      fun e => yields_expr (yields_expander depth) e⟩

/-- The static initializers yield a write for each of them. -/
theorem yields_statics (bodies : into.Yields) (initials : List (String × String × Expr)) :
    Yields (staticInitials into initials) (.statics initials) fun _ => [] := by
  induction initials with
  | nil =>
    intro s _ s' h _
    cases h
    exact ⟨_, .statics_nil, .nothing _⟩
  | cons first rest ih =>
    obtain ⟨className, field, e⟩ := first
    intro s _ s' h clean
    obtain ⟨_, t, h₁, hrest⟩ := run_bind_ok.1 h
    obtain ⟨d, lowers₂, laid₂⟩ := ih t () s' hrest clean
    obtain ⟨x, u, hvalue, h₂⟩ := run_bind_ok.1 h₁
    obtain ⟨v, w, hvar, hset⟩ := run_bind_ok.1 h₂
    cases hset
    have stored := emits_of_silent (.staticVar _ _) hvar (lowers₂.clean clean)
    obtain ⟨c, lowers₁, laid₁⟩ := yields_expr bodies e s x u hvalue stored.before
    exact ⟨_, .statics_cons _ lowers₁ stored lowers₂,
      laid₁.seq ((laid_stored stored (settled_set _ _ _ _)).seq laid₂)⟩

/-- The state in which the body of a unit is lowered. -/
def Session.start (σ : Session) (unit : String) (pool : Pool) : UnitState :=
  ((UnitState.new σ unit pool).entered unitFrame).opened

/-- What is known of a unit that was lowered without an exhaustion. -/
structure UnitCode (σ : Session) (unit : String) (pool : Pool) (task : Task) (output : UnitOutput)
    (list : ActionList) (c : Code) (pops : List Action) (last closed : UnitState) : Prop where
  lowers : Lowers task (σ.start unit pool) c [] last
  closes : Closes last pops closed
  symbols : output.symbols = closed.symbols.reverse
  session : output.session = closed.session
  check : list.check = .ok ()
  lays : list.length < 2 ^ 31 →
    Lays list ⟨[], 0, []⟩ 0 (.frame (.seq c (.acts pops))) list.length

theorem Covers.refl (list : ActionList) : Covers list list := fun _ a h => ⟨a, h, Or.inl rfl⟩

/-- What was opened for a unit is closed behind its body, and nothing else is open. -/
theorem run_unitBody_ok {body : Lower Unit} {list : ActionList} {t : UnitState}
    (h : run (unitBody body) s = some (.ok list, t)) :
    ∃ s₁ s₂ frame frames, run body (s.entered unitFrame).opened = some (.ok (), s₁) ∧
      run closeScope s₁ = some (.ok (), s₂) ∧ s₂.frames = frame :: frames ∧
        frame.returns.foldlM ActionList.resolveHere s₂.list = .ok list ∧ t = s₂.left list ∧
          list.check = .ok () := by
  obtain ⟨_, _, ⟨⟩, h₁⟩ := run_bind_ok.1 h
  obtain ⟨_, s₂, hscope, h₂⟩ := run_bind_ok.1 h₁
  obtain ⟨_, s₃, hframe, hfinish⟩ := run_bind_ok.1 h₂
  -- the returns of the body lead behind what closes its scope
  obtain ⟨frame, frames, list', found, resolved, rfl⟩ := run_closeFrame_ok hframe
  obtain ⟨s₁, hbody, hclose⟩ := run_inScope_ok.1 hscope
  obtain ⟨_, _, ⟨⟩, h₃⟩ := run_bind_ok.1 hfinish
  dsimp only at h₃
  split at h₃
  · obtain ⟨_, _, h₄, -⟩ := run_bind_ok.1 h₃
    cases h₄
  · split at h₃
    · next good =>
      cases h₃
      exact ⟨s₁, s₂, frame, frames, hbody, hclose, found, resolved, rfl, good⟩
    · cases h₃

/-- What a unit gives is the code of its body. -/
theorem unitCode_of_runUnit {σ : Session} {unit : String} {pool : Pool}
    {body : Expander → Lower Unit} {task : Task} {output : UnitOutput} {list : ActionList}
    (yields : ∀ into : Expander, into.Yields → Yields (body into) task fun _ => [])
    (h : σ.runUnit unit pool body = some output) (result : output.result = .ok list)
    (clean : output.deferred = []) :
    ∃ c pops last closed, UnitCode σ unit pool task output list c pops last closed := by
  unfold Session.runUnit at h
  obtain ⟨⟨r, t⟩, hrun, e⟩ := Option.bind_eq_some_iff.1 h
  cases e
  obtain rfl : r = .ok list := result
  have clean : t.deferred = [] := List.reverse_eq_nil_iff.1 clean
  obtain ⟨s₁, s₂, frame, frames, hbody, hclose, found, resolved, rfl, good⟩ := run_unitBody_ok hrun
  obtain ⟨pops, closes⟩ := closes_of_run hclose clean
  obtain ⟨c, lowers, laid⟩ := yields _ (yields_expander _) _ () s₁ hbody closes.before
  have steady : ((UnitState.new σ unit pool).entered unitFrame).Steady s₂ :=
    .inScope lowers.steady closes
  refine ⟨c, pops, s₁, s₂, lowers, closes, rfl, rfl, good, fun short => ?_⟩
  have whole : Laid (UnitState.new σ unit pool) (.frame (.seq c (.acts pops))) (s₂.left list) :=
    .frame ((laid.seq (.closes closes)).congr rfl rfl rfl rfl rfl rfl rfl rfl) steady rfl found
      resolved
  -- nothing is open where a unit starts, so nothing is where it ends
  have loops : (s₂.left list).loops.frames = [] := List.forall₂_nil_left_iff.1 steady.loops
  have frames : (s₂.left list).frames = [] :=
    List.forall₂_nil_left_iff.1 (UnitState.Steady.inBody steady list).frames
  have regions : (s₂.left list).regions = [] := List.forall₂_nil_left_iff.1 steady.regions
  have fits : Fits list ⟨[], [], []⟩ (s₂.left list) := by
    refine ⟨.refl _, ?_, ?_, ?_⟩
    · rw [loops]
      exact .nil
    · rw [frames]
      exact .nil
    · rw [regions]
      exact .nil
  exact (whole.fits list _ short (fun _ h => by cases h) fits).2

/-- For a rule that is the code of its statements. -/
theorem unitCode_of_lowerUnit {σ : Session} {unit : String} {pool : Pool} {body : List Stmt}
    {output : UnitOutput} {list : ActionList} (h : σ.lowerUnit unit pool body = some output)
    (result : output.result = .ok list) (clean : output.deferred = []) :
    ∃ c pops last closed, UnitCode σ unit pool (.stmts body) output list c pops last closed :=
  unitCode_of_runUnit (fun _ bodies => yields_stmts bodies body) h result clean

/-- For the static initializers it is that of their values. -/
theorem unitCode_of_lowerStaticInit {σ : Session} {output : UnitOutput} {list : ActionList}
    (h : σ.lowerStaticInit = some output) (result : output.result = .ok list)
    (clean : output.deferred = []) :
    ∃ c pops last closed, UnitCode σ Session.staticInitUnit .global
      (.statics (σ.classes.decls.flatMap Source.ClassDecl.staticInitials)) output list c pops last
        closed :=
  unitCode_of_runUnit (fun _ bodies => yields_statics bodies _) h result clean

end SkipCode
