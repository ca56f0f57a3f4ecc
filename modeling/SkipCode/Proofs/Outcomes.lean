import SkipCode.Proofs.Defects

/-!
# What a unit fails for

Between two units of a session nothing is on loan, even behind a unit that failed in the middle, so
every unit starts in an intact state, and all that it does is safe.

* `History.fails_regularly`: what a unit reports is an exhausted pool, a construct without a
  counterpart, or a mistake in the program.
-/

namespace SkipCode

open Lower
open Source (MethodDecl Program Stmt)

/-! ## Between units -/

/-- What holds of a unit all the time, and of the next one when it starts. -/
structure UnitState.Settled (s : UnitState) : Prop where
  lends : s.session.Lends []
  deferred : ∀ e ∈ s.deferred, e.Regular

namespace UnitState.Settled

variable {s t : UnitState}

/-- A unit stays settled in a session that lends nothing else. -/
theorem withSession (h : s.Settled) (lends : t.session.Lends [])
    (deferred : t.deferred = s.deferred) :
    t.Settled := ⟨lends, deferred ▸ h.deferred⟩

/-- So does it when it is handed a slot. -/
theorem allocate {owner : String} {r : Except LowerError UInt32} (h : s.Settled)
    (ran : run (Lower.allocate owner) s = some (r, t)) : t.Settled := by
  obtain ⟨-, -, ⟨slot, p, taken, session, deferred, -⟩ | ⟨e, failed, session, deferred, -⟩⟩ :=
    run_allocate ran
  · exact h.withSession (session ▸ (h.lends.allocate taken).forget) deferred
  · refine ⟨session ▸ h.lends, fun e' mem => ?_⟩
    rw [deferred] at mem
    rcases List.mem_cons.1 mem with rfl | mem
    · exact (FailsRegularly.allocate _ _ e failed).withSpan _
    · exact h.deferred e' mem

instance : Invariant UnitState.Settled where
  congr h session _ deferred := h.withSession (session ▸ h.lends) deferred
  declared hf :=
    Preserves.bind (fun _ _ _ ran h => h.allocate ran) fun slot =>
      Preserves.bind (fun s r t ran h => by
        cases ran
        exact h.withSession h.lends rfl) fun _ => hf slot
  freeSlot pool slot := by
    refine .replace fun s r t ran h => ?_
    rw [run_bind, run_lift] at ran
    cases freed : (s.session.slotPool pool).release slot with
    | error e =>
      rw [freed] at ran
      cases ran
      exact h
    | ok p =>
      rw [freed] at ran
      cases ran
      refine h.withSession (fun other => ?_) rfl
      rw [Session.slotPool_setSlotPool]
      split
      · next e => exact (h.lends pool).released freed
      · exact h.lends other
  onStorage orders := by
    intro s r t ran h
    cases ran
    refine h.withSession (fun pool => ?_) rfl
    cases pool with
    | global => exact (orders _ _ _ rfl).lends (h.lends .global)
    | actor => exact h.lends .actor

end UnitState.Settled

section

variable {config : LowerConfig} {program : Program} {past : List Symbol} {σ : Session}
  {output : UnitOutput}

/-- A unit that was run leaves its session settled. -/
theorem Session.settled_runUnit {unit : String} {pool : Pool} {body : Expander → Lower Unit}
    (composed : ∀ into : Expander, into.Composed → Lower.Composed (body into))
    (h : σ.runUnit unit pool body = some output) (lends : σ.Lends []) :
    output.session.Lends [] ∧ ∀ e ∈ output.deferred, e.Regular := by
  obtain ⟨⟨r, last⟩, ran, e⟩ := Option.bind_eq_some_iff.1 h
  cases e
  have settled : last.Settled :=
    (Lower.Composed.unitBody (composed _ (.expander _))).preserves _ _ _ ran ⟨lends, nofun⟩
  exact ⟨settled.lends, fun e mem => settled.deferred e (List.mem_reverse.1 mem)⟩

/-- Between two units nothing is on loan. -/
theorem History.lends (h : History config program past σ) : σ.Lends [] := by
  induction h with
  | start h =>
    obtain ⟨_, -, h⟩ := except_bind_ok.1 h
    obtain ⟨_, -, h⟩ := except_bind_ok.1 h
    cases h
    intro pool
    cases pool <;> exact SlotPool.lends_new _ _ _
  | unit _ h ih => exact (Session.settled_runUnit (fun _ bodies => .stmts bodies _) h ih).1
  | statics _ h ih =>
    exact (Session.settled_runUnit (fun _ bodies => .staticInitials bodies _) h ih).1

/-- In every history the class table is a built one. -/
theorem History.built (h : History config program past σ) : σ.classes.Built := by
  obtain ⟨first, start, akin⟩ := h.exists_akin
  obtain ⟨classes, built, start⟩ := except_bind_ok.1 start
  obtain ⟨_, -, start⟩ := except_bind_ok.1 start
  cases start
  rw [akin.classes]
  exact ClassTable.built_build built

end

/-! ## Units -/

namespace Lower

/-- What has no end never fails. -/
theorem Safe.endless {α : Type} : Safe (Lower.endless : Lower α) :=
  fun _ _ _ _ => ⟨fun _ _ ran => (by cases ran), fun _ _ ran => by cases ran⟩

/-- Lowering of every depth is safe, by induction on it. -/
theorem Safe.expander : (depth : Nat) → (SkipCode.expander depth).Safe
  | 0 => ⟨fun _ => .endless, fun _ => .endless⟩
  | depth + 1 => ⟨fun body => .inScope (.stmts (expander depth) body),
      fun e => .expr (expander depth) e⟩

/-- So are initial values of static fields. -/
theorem Safe.staticInitials {into : Expander} (bodies : into.Safe)
    (initials : List (String × String × Source.Expr)) : Safe (Lower.staticInitials into initials) :=
  .forM (fun _ => .bind (.expr bodies _) fun _ => .bind (.staticVar _ _) fun _ =>
    .emit (contained_set _ _ _ _)) _

variable {σ : Session} {unit : String} {pool : Pool} {body : Lower Unit} {last : UnitState}
  {r : Except LowerError ActionList}

/-- A unit lowers its body in its outermost frame and scope, and then ends. -/
theorem run_unitBody (body : Lower Unit) (σ : Session) (unit : String) (pool : Pool) :
    run (unitBody body) (.new σ unit pool) = run (body >>= fun _ => do
      closeScope
      closeFrame
      finish) ((UnitState.new σ unit pool).entered unitFrame).opened := by
  simp only [unitBody, inScope, bind_assoc, pure_bind]
  rfl

/-- A unit's body is safe at its beginning. -/
theorem safeAt_unit (safe : Safe body) (lends : σ.Lends []) (built : σ.classes.Built) :
    body.SafeAt [] ((UnitState.new σ unit pool).entered unitFrame).opened := by
  have start : (UnitState.new σ unit pool).Intact [] := ⟨.empty, nofun, nofun, nofun, lends, built⟩
  have entered : ((UnitState.new σ unit pool).entered unitFrame).Intact [] := start.entered rfl
  exact safe [] _ entered.opened ⟨List.cons_ne_nil _ _, List.cons_ne_nil _ _⟩

/-- Behind its body a unit fails only with a list that is sound and not fit to run. -/
theorem failed_behind_body (safe : Safe body) (lends : σ.Lends []) (built : σ.classes.Built)
    {t : UnitState} {e : LowerError}
    (done : run body ((UnitState.new σ unit pool).entered unitFrame).opened = some (.ok (), t))
    (failed : run (do
      closeScope
      closeFrame
      finish) t = some (.error e, last)) :
    last.list.Sound [] ∧ ∃ c, last.list.check = .error c ∧ e = .defect (.badList c) := by
  obtain ⟨intact, steady⟩ := (safeAt_unit safe lends built).ok _ _ done
  obtain ⟨scope, rest, scopes⟩ := steady.exists_scope (List.cons_ne_nil _ _)
  obtain ⟨τ, closed, more, intact⟩ := run_closeScope intact scopes
  have popped : ((UnitState.new σ unit pool).entered unitFrame).Steady
      { t with scopes := rest, list := t.list.extend (scopePops scope), session := τ } :=
        steady.pop scopes more
  obtain ⟨frame, frames, -, -, known⟩ := List.forall₂_cons_left_iff.1 popped.frames
  obtain ⟨list, left, intact⟩ := run_closeFrame intact known
  have steady := popped.inBody list
  rw [run_bind, closed] at failed
  dsimp only at failed
  rw [run_bind, left] at failed
  generalize UnitState.left _ list = u at failed intact steady
  -- nothing is open at the end, so no skip waits
  have scopes : u.scopes = [] := List.length_eq_zero_iff.1 steady.scopes.length_eq
  have frames : u.frames = [] := List.length_eq_zero_iff.1 steady.frames.length_eq.symm
  have loops : u.loops.frames = [] := List.length_eq_zero_iff.1 steady.loops.length_eq.symm
  have sound : u.list.Sound [] := by
    have := intact.skips
    rwa [UnitState.waiting, frames, loops] at this
  have closed : (!u.scopes.isEmpty || !u.frames.isEmpty || u.loops.depth != 0) = false := by
    rw [scopes, frames, LoopStack.depth, loops]
    rfl
  simp only [finish, run_bind, run_get, closed, Bool.false_eq_true, if_false] at failed
  split at failed
  · cases failed
  · next c flawed =>
    cases failed
    exact ⟨sound, c, flawed, rfl⟩

/-- A unit that fails does so for a mistake in the program, or with a list that is sound and not fit
to run. -/
theorem failed_unitBody (safe : Safe body) (lends : σ.Lends []) (built : σ.classes.Built)
    {e : LowerError} (ran : run (unitBody body) (.new σ unit pool) = some (.error e, last)) :
    e.Regular ∨ last.list.Sound [] ∧ ∃ c, last.list.check = .error c ∧
      e = .defect (.badList c) := by
  rw [run_unitBody] at ran
  obtain ⟨_, failed, ⟨⟩⟩ | ⟨_, t, done, ended⟩ := run_bind_cases ran
  · exact Or.inl ((safeAt_unit safe lends built).error _ _ failed)
  · exact Or.inr (failed_behind_body safe lends built done ended)

/-- A unit that fails does so at a name or an argument count. -/
theorem regular_unitBody (safe : Safe body) (lends : σ.Lends []) (built : σ.classes.Built)
    (ran : run (unitBody body) (.new σ unit pool) = some (r, last))
    (short : last.list.length < 2 ^ 31) : FailsRegularly r := by
  rintro e rfl
  obtain regular | ⟨sound, c, failed, -⟩ := failed_unitBody safe lends built ran
  · exact regular
  · rw [sound.check short] at failed
    cases failed

end Lower

/-- A unit of a session has ended: what it gives out, and the list it has written until then. -/
inductive Session.Ends (σ : Session) : UnitOutput → ActionList → Prop
  | rule {name pool body output r last} : σ.lowerUnit name pool body = some output →
      run (unitBody (lowerStmts (expander (expansionBound σ)) body)) (.new σ name pool) =
        some (r, last) → σ.Ends output last.list
  | statics {output r last} : σ.lowerStaticInit = some output →
      run (unitBody (staticInitials (expander (expansionBound σ))
        (σ.classes.decls.flatMap Source.ClassDecl.staticInitials)))
          (.new σ staticInitUnit .global) = some (r, last) → σ.Ends output last.list

section

variable {config : LowerConfig} {program : Program} {past : List Symbol} {σ : Session}
  {output : UnitOutput} {list : ActionList}

/-- How a unit ends is what it gives out. -/
theorem Session.lowerUnit_of_run {name : String} {pool : Pool} {body : List Stmt}
    {r : Except LowerError ActionList} {last : UnitState}
    (ran : run (unitBody (lowerStmts (expander (expansionBound σ)) body)) (.new σ name pool) =
      some (r, last)) :
    σ.lowerUnit name pool body =
      some ⟨r, last.deferred.reverse, last.symbols.reverse, last.session⟩ :=
  Option.bind_eq_some_iff.2 ⟨_, ran, rfl⟩

/-- All that a unit reports. -/
def UnitOutput.Reports (output : UnitOutput) (e : LowerError) : Prop :=
  output.result = .error e ∨ e ∈ output.deferred

/-- So does a unit in its session. -/
theorem Session.regular_runUnit {unit : String} {pool : Pool} {body : Expander → Lower Unit}
    {r : Except LowerError ActionList} {last : UnitState} {e : LowerError}
    (safe : ∀ into : Expander, into.Safe → Lower.Safe (body into))
    (composed : ∀ into : Expander, into.Composed → Lower.Composed (body into))
    (h : History config program past σ) (lowered : σ.runUnit unit pool body = some output)
    (ran : run (unitBody (body (expander (expansionBound σ)))) (.new σ unit pool) = some (r, last))
    (short : last.list.length < 2 ^ 31) (reported : output.Reports e) : e.Regular := by
  rcases reported with failed | deferred
  · obtain ⟨⟨r', last'⟩, ran', same⟩ := Option.bind_eq_some_iff.1 lowered
    cases same
    cases ran'.symm.trans ran
    exact Lower.regular_unitBody (safe _ (Lower.Safe.expander _)) h.lends h.built ran short e failed
  · exact (Session.settled_runUnit composed lowered h.lends).2 e deferred

/-- No unit of a session reports a defect of the lowering, whatever units came before it. -/
theorem History.fails_regularly (h : History config program past σ) (ends : σ.Ends output list)
    (short : list.length < 2 ^ 31) {e : LowerError} (reported : output.Reports e) {d : Defect}
    (defect : e.cause = .defect d) : d.inProgram = true := by
  have regular : e.Regular := by
    cases ends with
    | rule lowered ran =>
      exact Session.regular_runUnit (fun _ bodies => .stmts bodies _)
        (fun _ bodies => .stmts bodies _) h lowered ran short reported
    | statics lowered ran =>
      exact Session.regular_runUnit (fun _ bodies => .staticInitials bodies _)
        (fun _ bodies => .staticInitials bodies _) h lowered ran short reported
  exact regular d defect

end

namespace WrongCallInRegion

/-- A recursive function that calls itself with one argument too many, in a loop. -/
def down : MethodDecl :=
  (MethodDecl.named "down" ["n"]
    [.ofKind (.while (.var "n")
      [.ofKind (.return (some (.callFunction "down" [.var "n", .var "n"])))])]).markRecursive

def body : List Stmt := [.expr (.callFunction "down" [.number (.ofNat 3)])]

def program : Program := ⟨[], [down], [⟨"rule", .global, body⟩]⟩

def session : Session :=
  match Session.new .default program with
  | .ok σ => σ
  | .error _ => default

/-- The history is empty. -/
theorem history : History .default program [] session :=
  .start (σ := session) (by
    have fine : (Session.new .default program).isOk = true := by decide +kernel
    unfold session
    cases h : Session.new .default program with
    | ok σ => rfl
    | error e =>
      rw [h] at fine
      cases fine)

/-- The unit up to its failure. -/
def ending : Option (Except LowerError ActionList × UnitState) :=
  run (unitBody (lowerStmts (expander (expansionBound session)) body)) (.new session "rule" .global)

/-- Whether the unit fails for the wrong call. -/
def fails : Bool :=
  match ending with
  | some (.error ⟨.defect (.wrongArgumentCount callee expected actual), _⟩, last) =>
    callee == "down" && expected == 1 && actual == 2 && decide (last.list.length < 2 ^ 31)
  | _ => false

/-- The unit fails at its call with the wrong number of arguments. -/
theorem exists_failure : ∃ span last,
    ending = some (.error ⟨.defect (.wrongArgumentCount "down" 1 2), span⟩, last) ∧
      last.list.length < 2 ^ 31 := by
  have h : fails = true := by decide +kernel
  unfold fails at h
  split at h
  · next callee expected actual span last e =>
    simp only [Bool.and_eq_true, beq_iff_eq, decide_eq_true_eq] at h
    obtain ⟨⟨⟨rfl, rfl⟩, rfl⟩, short⟩ := h
    exact ⟨span, last, e, short⟩
  · cases h

end WrongCallInRegion

open WrongCallInRegion in
/-- In the middle of a loop in a region the wrong call is reported. -/
theorem fails_regularly_wrong_call_in_region : ∃ output list e d,
    History .default program [] session ∧ session.Ends output list ∧ list.length < 2 ^ 31 ∧
      output.Reports e ∧ e.cause = .defect d ∧ d = .wrongArgumentCount "down" 1 2 ∧
        d.inProgram = true := by
  obtain ⟨span, last, ran, short⟩ := exists_failure
  have ends := Session.Ends.rule (Session.lowerUnit_of_run ran) ran
  exact ⟨_, _, _, _, history, ends, short, .inl rfl, rfl, rfl,
    history.fails_regularly ends short (.inl rfl) rfl⟩

end SkipCode
