import SkipCode.Proofs.Outcomes

/-!
# A loop that is too long for its skips

The count of a skip has 32 bits, and a list may have more actions than that. The rule

```
x
while true { break; x = 1; ...; x = 1 }
```

with `n` assignments is lowered to `n + 3` actions. Two of its skips lead over all of the
assignments, and what becomes of them depends on what a count can hold:

* `LongLoop.check_done_beyond`: with `2 ^ 31` assignments the list of the rule is unfit to run;
* `LongLoop.check_done_around`: with `2 ^ 32` the counts are taken around, and it is fit again, but
  the `break` leads into the loop (`LongLoop.skipAt_done`).
-/

namespace SkipCode

open Lower
open Source (Stmt)

/-- A position is resolved in a list in which a jump waits there. -/
theorem ActionList.resolveHere_ok {l m : ActionList} {p : Nat} {a : Action}
    (found : l.toList[p]? = some a) (pending : a.isPending)
    (e : m.toList = l.toList.set p (a.withCount (Action.skipDistance p l.length))) :
    l.resolveHere p = .ok m :=
  resolve_eq_ok_iff.2 ⟨a, (get?_eq_toList l p).trans found, pending, e⟩

/-- An action without a flaw is passed by. -/
theorem ActionList.checkFrom_cons {a : Action} {len ip : Nat} {rest : List Action}
    (sound : a.flaw? ip len = none) :
    checkFrom len ip (a :: rest) = checkFrom len (ip + 1) rest := by
  rw [checkFrom, sound]

/-- So are any number of actions that have none anywhere. -/
theorem ActionList.checkFrom_replicate {a : Action} (plain : ∀ ip len, a.flaw? ip len = none)
    {n len ip : Nat} {rest : List Action} :
    checkFrom len ip (List.replicate n a ++ rest) = checkFrom len (ip + n) rest := by
  induction n generalizing ip with
  | zero => rfl
  | succ n ih =>
    rw [List.replicate_succ, List.cons_append, checkFrom_cons (plain _ _), ih, Nat.add_assoc,
      Nat.add_comm 1]

namespace LongLoop

/-! ## The rule -/

def declaration : Stmt := .ofKind (.define "x" none false)

def filler : Stmt := .ofKind (.assign (.var "x") [] .set (.number (.ofNat 1)))

/-- The body of a loop that is left at once, with `n` statements behind the exit. -/
def inside (n : Nat) : List Stmt := .ofKind (.break 0) :: List.replicate n filler

def body (n : Nat) : List Stmt := [declaration, .ofKind (.while (.bool true) (inside n))]

/-- A session of a program without declarations. -/
def session : Session :=
  match Session.new .default ⟨[], [], []⟩ with
  | .ok σ => σ
  | .error _ => default

/-- The session has no declarations. -/
theorem session_new : Session.new .default ⟨[], [], []⟩ = .ok session := rfl

/-! ## What it is lowered to -/

/-- The exit condition of the loop. -/
def test : Element := (Element.bool true).negate

/-- What a statement behind the exit is lowered to. -/
def write : Action := .set .global 0 none (.number (.ofNat 1))

/-- What the loop writes up to its end. -/
def unclosed (n : Nat) : ActionList :=
  (ActionList.ofList [.skipIf test none, .skip none]).extend (List.replicate n write)

/-- The loop as it is in the list of the rule. -/
def done (n : Nat) : ActionList :=
  .ofList ([.skipIf test (some (Action.skipDistance 0 (n + 3))),
    .skip (some (Action.skipDistance 1 (n + 3)))] ++ List.replicate n write ++
      [.skip (some (Action.skipDistance (n + 2) 0))])

/-- The loop's list before it is closed, action by action. -/
theorem toList_unclosed (n : Nat) :
    (unclosed n).toList = [.skipIf test none, .skip none] ++ List.replicate n write := by
  rw [unclosed, ActionList.toList_extend, ActionList.toList_ofList]

/-- It is as long as its filler says. -/
theorem length_unclosed (n : Nat) : (unclosed n).length = n + 2 := by
  rw [← ActionList.length_toList, toList_unclosed, List.length_append, List.length_replicate]
  exact Nat.add_comm 2 n

/-- Closed, the list has one action more. -/
theorem length_done (n : Nat) : (done n).length = n + 3 := by
  rw [← ActionList.length_toList, done, ActionList.toList_ofList]
  simp

/-! ## The lowering, statement by statement -/

/-- Where the body of the rule begins. -/
def start : UnitState := ((UnitState.new session "rule" .global).entered unitFrame).opened

/-- Behind the declaration, which has the only slot. -/
def declared : UnitState :=
  match run (lowerStmt (expander 0) declaration) start with
  | some (_, t) => t
  | none => start

/-- Behind the test of the loop. -/
def opened : UnitState :=
  { declared with list := .ofList [.skipIf test none], loops := ⟨[.new 0 1]⟩ }

/-- In the body of the loop, behind its exit. -/
def behind (list : ActionList) : UnitState :=
  { declared with list, scopes := .empty :: declared.scopes, loops := ⟨[⟨0, 1, [], [1]⟩]⟩ }

/-- Behind the loop. -/
def closed (list : ActionList) : UnitState := { declared with list }

variable {into : Expander} {list : ActionList} {n : Nat}

/-- The loop stands behind the declaration of what it writes. -/
theorem run_declaration : run (lowerStmt into declaration) start = some (.ok (), declared) := rfl

/-- The loop is opened with its guard. -/
theorem run_openLoop : run (openLoop into .while (.bool true)) declared =
    some (.ok (⟨.while, .guarded, 0, some 0, []⟩, []), opened) := rfl

/-- The break is a skip that waits. -/
theorem run_break : run (lowerKind into (.break 0)) opened.opened =
    some (.ok (), behind (.ofList [.skipIf test none, .skip none])) := rfl

/-- Each of the fillers is one write. -/
theorem run_filler :
    run (lowerStmt into filler) (behind list) = some (.ok (), behind (list.push write)) := rfl

/-- The statements behind the exit write one action each. -/
theorem run_fillers : run (lowerStmts into (List.replicate n filler)) (behind list) =
    some (.ok (), behind (list.extend (List.replicate n write))) := by
  induction n generalizing list with
  | zero => rfl
  | succ n ih =>
    rw [List.replicate_succ, List.replicate_succ, lowerStmts, run_bind, run_filler]
    exact ih

/-- So the body is a break and as many writes as one likes. -/
theorem run_inside : run (inScope (lowerStmts into (inside n))) opened = some (.ok (),
    { closed (unclosed n) with loops := ⟨[⟨0, 1, [], [1]⟩]⟩ }) := by
  refine run_inScope_ok.2 ⟨behind (unclosed n), ?_, rfl⟩
  rw [inside, lowerStmts]
  have exit : run (lowerStmt into (.ofKind (.break 0))) opened.opened =
      some (.ok (), behind (.ofList [.skipIf test none, .skip none])) := rfl
  exact run_bind_ok.2 ⟨(), _, exit, run_fillers⟩

/-- A single position is resolved. -/
theorem run_resolveAllHere {l : ActionList} {b : LoopBlock} {flow : Flow} {p : Nat}
    (resolved : flow.list.resolveHere p = .ok l) :
    Attempt.run (LoopBlock.resolveAllHere [p]) (b, flow) = (.ok (), b, ⟨l, flow.loops⟩) := by
  have first : Attempt.run ((do
      let s ← get
      set (s.1, { s.2 with list := ← (s.2.list.resolveHere p : Except LowerError _) }) :
        LoopBlock.Step Unit) >>= fun _ => LoopBlock.resolveAllHere []) (b, flow) =
      (.ok (), b, ⟨l, flow.loops⟩) := by
    rw [Attempt.run_bind, Attempt.run_bind, Attempt.run_get]
    dsimp only
    rw [Attempt.run_bind, Attempt.run_lift_ok.2 ⟨resolved, rfl⟩]
    rfl
  exact first

/-- The end of the loop leads back to its test, and resolves the test and the exit behind itself. -/
theorem run_closeLoop {s : UnitState} {l₁ l₂ : ActionList} (loops : s.loops = ⟨[⟨0, 1, [], [1]⟩]⟩)
    (guard : (s.list.pushSkipTo 0).resolveHere 0 = .ok l₁) (exit : l₁.resolveHere 1 = .ok l₂) :
    run (closeLoop ⟨.while, .guarded, 0, some 0, []⟩ []) s =
      some (.ok (), { s with list := l₂, loops := .empty }) := by
  obtain ⟨session, unit, pool, list, scopes, ⟨frames⟩, rest⟩ := s
  cases loops
  simp only at guard
  have begins : Attempt.run (LoopBlock.finish [])
      (⟨.while, .guarded, 0, some 0, []⟩, ⟨list, ⟨[⟨0, 1, [], [1]⟩]⟩⟩) =
      Attempt.run (do
        LoopBlock.resolveAllHere [0]
        LoopBlock.modifyList (·.extend [])
        LoopBlock.modifyBlock ({ · with breaks := [] })
        LoopBlock.resolveAllHere [1]
        LoopBlock.modifyBlock ({ · with stage := .finished }))
        (⟨.while, .epilogue, 0, none, [1]⟩, ⟨list.pushSkipTo 0, .empty⟩) := rfl
  have goesOn : Attempt.run (do
        LoopBlock.modifyList (·.extend [])
        LoopBlock.modifyBlock ({ · with breaks := [] })
        LoopBlock.resolveAllHere [1]
        LoopBlock.modifyBlock ({ · with stage := .finished }))
        (⟨.while, .epilogue, 0, none, [1]⟩, ⟨l₁, .empty⟩) =
      Attempt.run (do
        LoopBlock.resolveAllHere [1]
        LoopBlock.modifyBlock ({ · with stage := .finished }))
        (⟨.while, .epilogue, 0, none, []⟩, ⟨l₁, .empty⟩) := rfl
  have ran : Attempt.run (LoopBlock.finish [])
      (⟨.while, .guarded, 0, some 0, []⟩, ⟨list, ⟨[⟨0, 1, [], [1]⟩]⟩⟩) =
      (.ok (), ⟨.while, .finished, 0, none, []⟩, ⟨l₂, .empty⟩) := by
    rw [begins, Attempt.run_bind, run_resolveAllHere guard]
    dsimp only
    rw [goesOn, Attempt.run_bind, run_resolveAllHere exit]
    rfl
  exact run_map_ok.2 ⟨_, run_onLoop_ok.2 ⟨⟨l₂, .empty⟩, ran, rfl⟩, rfl⟩

/-- The loop is lowered in full. -/
theorem run_while : run (lowerKind into (.while (.bool true) (inside n))) declared =
    some (.ok (), closed (done n)) := by
  have toList : ((unclosed n).pushSkipTo 0).toList = [.skipIf test none, .skip none] ++
      List.replicate n write ++ [.skip (some (Action.skipDistance (n + 2) 0))] := by
    rw [ActionList.pushSkipTo, ActionList.toList_push, toList_unclosed, length_unclosed]
  have length : ((unclosed n).pushSkipTo 0).length = n + 3 := by
    rw [ActionList.length_pushSkipTo, length_unclosed]
  -- the list in between, in which only the exit waits
  let guarded : ActionList :=
    .ofList ([.skipIf test (some (Action.skipDistance 0 (n + 3))), .skip none] ++
      List.replicate n write ++ [.skip (some (Action.skipDistance (n + 2) 0))])
  have guard : ((unclosed n).pushSkipTo 0).resolveHere 0 = .ok guarded := by
    refine ActionList.resolveHere_ok (a := .skipIf test none) ?_ rfl ?_
    · rw [toList]
      rfl
    · rw [toList, length]
      rfl
  have exit : guarded.resolveHere 1 = .ok (done n) := by
    refine ActionList.resolveHere_ok (a := .skip none) rfl rfl ?_
    have length : guarded.length = n + 3 := by
      rw [← ActionList.length_toList, ActionList.toList_ofList]
      simp
    rw [length]
    rfl
  rw [lowerKind]
  exact run_bind_ok.2 ⟨_, _, run_openLoop,
    run_bind_ok.2 ⟨(), _, run_inside, run_closeLoop rfl guard exit⟩⟩

/-- So is the whole unit's body. -/
theorem run_body : run (lowerStmts into (body n)) start = some (.ok (), closed (done n)) := by
  rw [body, lowerStmts]
  refine run_bind_ok.2 ⟨(), declared, run_declaration, ?_⟩
  rw [lowerStmts, Stmt.ofKind, lowerStmt]
  exact run_bind_ok.2 ⟨(), _, run_located_some run_while, rfl⟩

/-! ## What the unit gives -/

/-- A list, if it is fit to run. -/
def checked (list : ActionList) : Except LowerError ActionList :=
  (list.check.mapError fun e => .defect (.badList e)).map fun _ => list

/-- Behind the scope and the frame of the rule. -/
def ended (list : ActionList) : UnitState :=
  match run (do
    closeScope
    closeFrame) (closed list) with
  | some (_, t) => t
  | none => closed list

/-- The end of a unit leaves its list alone. -/
theorem list_ended : (ended list).list = list := rfl

/-- Scope and frame are closed. -/
theorem run_end : run (do
    closeScope
    closeFrame) (closed list) = some (.ok (), ended list) := rfl

/-- The unit ends in the check of its list. -/
theorem run_finish : run finish (ended list) = some (checked list, ended list) := by
  unfold finish checked
  rw [run_bind, run_get]
  dsimp only
  rw [list_ended]
  cases list.check <;> rfl

/-- The unit gives the list of its loop, if that is fit to run. -/
theorem run_unit (n : Nat) :
    run (unitBody (lowerStmts into (body n))) (.new session "rule" .global) =
      some (checked (done n), ended (done n)) := by
  have behind : (do
      closeScope
      closeFrame
      finish) = (do
      closeScope
      closeFrame) >>= fun _ => finish := (bind_assoc ..).symm
  rw [run_unitBody]
  show run _ start = _
  rw [run_bind, run_body]
  dsimp only
  rw [behind, run_bind, run_end]
  exact run_finish

/-! ## Which lists are fit to run -/

/-- The list passes if both of its skips land. -/
theorem check_done
    (guard : (Action.skipIf test (some (Action.skipDistance 0 (n + 3)))).flaw? 0 (n + 3) = none)
    (exit : (Action.skip (some (Action.skipDistance 1 (n + 3)))).flaw? 1 (n + 3) = none)
    (back : (Action.skip (some (Action.skipDistance (n + 2) 0))).flaw? (n + 2) (n + 3) = none) :
    (done n).check = .ok () := by
  have behind : 0 + 1 + 1 + n = n + 2 := by omega
  rw [ActionList.check, length_done, done, ActionList.toList_ofList, List.append_assoc,
    List.cons_append, List.cons_append, List.nil_append, ActionList.checkFrom_cons guard,
    ActionList.checkFrom_cons exit, ActionList.checkFrom_replicate fun _ _ => rfl, behind,
    ActionList.checkFrom_cons back, ActionList.checkFrom]

/-- It fails at its guard if that does not. -/
theorem check_done_error {flaw : Flaw}
    (guard : (Action.skipIf test (some (Action.skipDistance 0 (n + 3)))).flaw? 0 (n + 3) =
      some flaw) : (done n).check = .error ⟨0, flaw⟩ := by
  rw [ActionList.check, length_done, done, ActionList.toList_ofList, List.append_assoc,
    List.cons_append, ActionList.checkFrom, guard]

/-- The count of the test has become negative, and leads before the list. -/
theorem check_done_beyond : ∃ flaw, (done (2 ^ 31)).check = .error ⟨0, flaw⟩ :=
  ⟨_, check_done_error rfl⟩

/-- The counts are taken around, and each leads to a place in the list. -/
theorem check_done_around : (done (2 ^ 32)).check = .ok () := check_done rfl rfl rfl

/-- Where the exit leads is up to what its count has become. -/
theorem skipAt_done {target : Nat}
    (lands : Action.skipTarget? 1 (Action.skipDistance 1 (n + 3)) (n + 3) = some target) :
    SkipAt (done n) 1 target := by
  refine ⟨Action.skipDistance 1 (n + 3), ?_, (length_done n).symm ▸ lands⟩
  rw [ActionList.get?_eq_toList, done, ActionList.toList_ofList]
  rfl

end LongLoop

end SkipCode
