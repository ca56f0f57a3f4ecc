import SkipCode.Proofs.Writes

/-!
# What an activation keeps over a call

The variables of a recursive body are on stacks, and a call back into the body pushes on the same
stacks. The code of an expression pops and overwrites only what it pushed itself, so it could stand
behind any stacks (`Lowers.pushes`). What the running activation, and those that wait for it, have
there is therefore the same behind the expression as before it (`Lowers.items_kept`), and so is what
is read from there (`Lowers.eval_kept`).
-/

namespace SkipCode

open Lower
open Engine (Host Memory)
open Source (Expr)

variable {S P : Location → Prop}

/-- The top of an own stack can be read from a cell. -/
def Cell.Occupied (cell : Cell) (h : Host) (S : Location → Prop) (m : Memory) : Prop :=
  ∃ l, S l ∧ cell = l.cell ∧ (h.value m l).items ≠ []

/-- A value with items is an array, which has no more than its items. -/
theorem Value.eq_of_items {v w : Value} (same : w.items = v.items) (some : v.items ≠ []) :
    w = v := by
  cases v with
  | array xs =>
    cases w with
    | array ys => exact congrArg Value.array same
    | number _ | bool _ => exact absurd same.symm some
  | number _ | bool _ => exact absurd rfl some

/-- Code that can stand behind any stacks, and leaves on top of them stacks of a kind. -/
def Pushes (S P : Location → Prop) (τ : List RoutineType) (c : Code) : Prop :=
  ∃ A, (∀ l ∈ A, P l) ∧ ∀ L R Δ, Balanced S τ L R Δ c (A ++ Δ)

section

variable {τ : List RoutineType} {L : List LoopType} {R Δ Δ' : List Location} {a b c : Code}
  {actions : List Action} {depth : Nat} {base : List Symbol} {s t : UnitState}

namespace Pushes

theorem standing (h : ∀ L R Δ, Balanced S τ L R Δ c Δ) : Pushes S P τ c :=
  ⟨[], fun _ hl => (by cases hl), h⟩

theorem nothing : Pushes S P τ (.acts []) := standing fun _ _ _ => .acts .nil

theorem seq (h₁ : Pushes S P τ a) (h₂ : Pushes S P τ b) : Pushes S P τ (.seq a b) := by
  obtain ⟨A, inA, first⟩ := h₁
  obtain ⟨B, inB, second⟩ := h₂
  refine ⟨B ++ A, fun l hl => (List.mem_append.1 hl).elim (inB l) (inA l), fun L R Δ => ?_⟩
  rw [List.append_assoc]
  exact .seq (first L R Δ) (second L R (A ++ Δ))

/-- A body starts with stacks of its own wherever it stands. -/
theorem frame (h : Balanced S τ L R Δ (.frame c) Δ') : Pushes S P τ (.frame c) := by
  cases h with
  | frame inner => exact standing fun _ _ _ => .frame inner

end Pushes

/-! ## Declarations -/

/-- A stack that is declared is a new place, and what it starts with is pushed. -/
theorem push_of_declareStack {name : String} {initial : Option Element} {v : RecursiveVar}
    (h : run (declareStack name initial) s = some (.ok v, t)) (clean : t.deferred = [])
    (accounts : Accounts S t) (grants : t.Grants P base) (later : base <:+ s.symbols) :
    v.Sound S ∧ P v.location ∧ ∃ x, t.list.toList = s.list.toList ++ [v.location.push x] := by
  obtain ⟨slot, rfl, takes⟩ := run_declareStack_ok h clean
  have sound : RecursiveVar.Sound S ⟨.plain name s.pool slot, 1⟩ :=
    ⟨rfl, (takes.kind accounts).2 rfl⟩
  exact ⟨sound, grants.taken later takes, initial.getD .neutral,
    (takes.extends (settled_push _ _ _) (Nat.le_refl _)).list⟩

/-- A variable without a value pushes its stack, if it has one, and can be written from then on. -/
theorem Lower.Emits.pushes_declared {name : String} {stacked : Bool} {v : Variable}
    (e : Emits (declare name none stacked) s actions v t) (accounts : Accounts S t)
    (grants : t.Grants P base) (later : base <:+ s.symbols) :
    ∃ A, (∀ l ∈ A, P l) ∧ ∀ Δ, TouchesAll S actions Δ (A ++ Δ) ∧ v.Writable S (A ++ Δ) := by
  rcases run_declare_ok e.run with ⟨-, w, rfl, h⟩ | ⟨-, w, rfl, h⟩
  · obtain ⟨sound, place, x, list⟩ := push_of_declareStack h e.clean accounts grants later
    obtain rfl := List.append_cancel_left (e.extends'.list.symm.trans list)
    exact ⟨[w.location], fun l hl => List.mem_singleton.1 hl ▸ place, fun Δ =>
      ⟨.cons (.push sound.2) .nil, sound, List.mem_cons_self⟩⟩
  · obtain ⟨slot, rfl, takes⟩ := run_declarePlain_ok h e.clean
    have list := (takes.extends .nil (Nat.le_refl _)).list
    obtain rfl := List.append_cancel_left (e.extends'.list.symm.trans list)
    refine ⟨[], fun _ hl => (by cases hl), fun Δ => ⟨.nil, fun stack => ?_⟩⟩
    cases (takes.kind accounts).1 stack

/-- A value that has to last is pushed on a stack of its own in a recursive body. -/
theorem Lower.Emits.pushes_materialized {value x : Element} {τ : List RoutineType}
    (e : Emits (materialize value) s actions x t) (accounts : Accounts S t)
    (grants : t.Grants P base) (later : base <:+ s.symbols) : Pushes S P τ (.acts actions) := by
  -- in a recursive frame the value is pushed on a stack of its own, elsewhere nothing is emitted
  obtain ⟨_, _, ⟨⟩, h⟩ := run_bind_ok.1 e.run
  split at h
  · obtain ⟨name, u, h₁, h₂⟩ := run_bind_ok.1 h
    rw [run_hiddenName] at h₁
    cases h₁
    obtain ⟨v, _, h₃, h₄⟩ := run_bind_ok.1 h₂
    cases h₄
    obtain ⟨sound, place, y, list⟩ := push_of_declareStack h₃ e.clean accounts grants later
    obtain rfl := List.append_cancel_left (e.extends'.list.symm.trans list)
    exact ⟨[v.location], fun l hl => List.mem_singleton.1 hl ▸ place, fun _ _ _ =>
      .acts (.cons (.push sound.2) .nil)⟩
  · cases h
    obtain rfl := List.append_cancel_left (e.extends'.list.symm.trans (List.append_nil _).symm)
    exact .nothing

/-! ## Expressions -/

/-- What is known where an expression is lowered behind `base`. -/
structure Amid (S : Location → Prop) (base : List Symbol) (τ : List RoutineType) (L : List LoopType)
    (R : List Location) (depth : Nat) (s : UnitState) : Prop where
  later : base <:+ s.symbols
  ready : Ready S τ L R depth s
  roomy : Roomy L depth s

/-- What is known of the places at the end. -/
structure Knowing (S P : Location → Prop) (base : List Symbol) (t : UnitState) : Prop where
  accounts : Accounts S t
  grants : t.Grants P base

theorem Knowing.of_grows (h : Knowing S P base t) (grows : s.Grows t) : Knowing S P base s :=
  ⟨h.accounts.of_grows grows, h.grants.of_grows grows⟩

theorem Knowing.withList {list : ActionList} (h : Knowing S P base (t.withList list)) :
    Knowing S P base t :=
  h.of_grows (.withList t list)

section

variable {τ : List RoutineType} {xs : List Element} {task : Task}

theorem Amid.steady (amid : Amid S base τ L R depth s) (steady : s.Steady t) (sound : t.Sound S) :
    Amid S base τ L R depth t :=
  ⟨amid.later.trans steady.grows.symbols, amid.ready.next amid.roomy steady sound,
    amid.roomy.steady steady⟩

theorem Amid.after (amid : Amid S base τ L R depth s) (h : Lowers task s c xs t)
    (knowing : Knowing S P base t) (fits : task.Fits S) : Amid S base τ L R depth t :=
  amid.steady h.steady
    (h.keeps τ L R depth knowing.accounts fits amid.ready (Or.inr amid.roomy)).sound

theorem Amid.step {α : Type} {m : Lower α} {r : α} (amid : Amid S base τ L R depth s)
    (e : Emits m s actions r t) (disciplined : Disciplined S m) (knowing : Knowing S P base t) :
    Amid S base τ L R depth t :=
  amid.steady e.extends'.steady
    (e.kept (τ := τ) (R := R) disciplined knowing.accounts amid.ready.sound amid.roomy).sound

theorem Amid.withList (amid : Amid S base τ L R depth s) (list : ActionList) :
    Amid S base τ L R depth (s.withList list) :=
  ⟨amid.later, amid.ready.withList list, amid.roomy.withList list⟩

/-- Outside of the statements of its own body a piece of the source becomes code that can stand
behind any stacks. -/
theorem Lowers.pushes (h : Lowers task s c xs t) (outer : ¬ task.InBody)
    (knowing : Knowing S P base t) (fits : task.Fits S) (amid : Amid S base τ L R depth s) :
    Pushes S P τ c := by
  induction h with
  | nil | fields_nil | statics_nil | var _ | this _ | staticField _ => exact .nothing
  | cons h₁ h₂ k₁ k₂ =>
    have knowing₁ := knowing.of_grows h₂.steady.grows
    exact (k₁ id knowing₁ (.expr _) amid).seq
      (k₂ id knowing (.exprs _) (amid.after h₁ knowing₁ (.expr _)))
  | node _ _ k => exact k id knowing (.exprs _) amid
  | field h₁ e k => exact k id (knowing.of_grows e.extends'.grows) (.expr _) amid
  | actorVar _ _ k => exact k id knowing (.expr _) amid
  | call e _ h₁ h₂ h₃ k₁ k₂ k₃ =>
    have knowing₂ := knowing.of_grows h₃.steady.grows
    have knowing₁ := knowing₂.of_grows h₂.steady.grows
    have amid₁ := amid.after h₁ knowing₁ (.exprs _)
    have tidy := amid.ready.tidy _ (run_resolveCallee_mem e.run)
    exact (k₁ id knowing₁ (.exprs _) amid).seq ((k₂ id knowing₂ (.exprs _) amid₁).seq
      (k₃ id knowing ⟨tidy, fun v h => (by cases h)⟩ (amid₁.after h₂ knowing₂ (.exprs _))))
  | new h₁ h₂ k₁ k₂ =>
    have knowing₁ := knowing.of_grows h₂.steady.grows
    exact (k₁ id knowing₁ (.exprs _) amid).seq
      (k₂ id knowing (.of_none rfl rfl) (amid.after h₁ knowing₁ (.exprs _)))
  | body list e h closes _ =>
    exact .frame ((Lowers.body list e h closes).keeps τ L R depth knowing.accounts fits amid.ready
      (Or.inr amid.roomy)).code
  | initials list h closes _ =>
    exact .frame ((Lowers.initials list h closes).keeps τ L R depth knowing.accounts fits amid.ready
      (Or.inr amid.roomy)).code
  | @inline callee receiver arguments _ result _ _ _ _ _ _ _ e h e' k =>
    -- the body stands behind any stacks, so all that is pushed here is its result
    have knowing₂ := knowing.of_grows e'.extends'.grows
    have knowing₁ := knowing₂.of_grows h.steady.grows
    have plain := ((reserved_temp e.run e.clean).single knowing₁.accounts).1
    have amid₁ := amid.step e (.temp _) knowing₁
    have fits₁ :
      Task.Fits S (.body callee.key callee.decl.params callee.decl.body receiver arguments
        (some result)) := ⟨fits.tidy, fun v h => by cases h; exact plain⟩
    exact (k id knowing₂ fits₁ amid₁).seq (e'.pushes_materialized knowing.accounts knowing.grants
      (amid₁.after h knowing₂ fits₁).later)
  | reenter list continuation _ found e =>
    -- the region pops what the call pushes on its stacks
    exact (Pushes.standing (amid.ready.reenter found _ _)).seq
      (e.pushes_materialized knowing.accounts knowing.grants amid.later)
  | region list list' list'' _ _ e₁ e₂ e₃ h open' closes e₄ _ =>
    have steady :=
      (UnitState.Steady.aroundRegion e₃.extends'.steady h.steady open' closes).withList list''
    have knowing₅ := knowing.of_grows e₄.extends'.grows
    have knowing₂ := knowing₅.of_grows steady.grows
    have knowing₁ := knowing₂.of_grows e₂.extends'.grows
    have plain := ((reserved_temp e₁.run e₁.clean).single knowing₁.accounts).1
    have plain' := (reserved_temp e₂.run e₂.clean).single knowing₂.accounts
    have amid₂ := (amid.step e₁ (.temp _) knowing₁).step e₂ (.temp _) knowing₂
    obtain ⟨code, -, -⟩ := amid₂.ready.region list list' e₃ h open' closes h.keeps
      knowing₅.withList.accounts fits.tidy plain plain'
    exact (Pushes.standing code).seq (e₄.pushes_materialized knowing.accounts knowing.grants
      (amid₂.later.trans steady.grows.symbols))
  | @make _ _ _ _ _ _ _ _ _ _ _ _ s₃ _ _ _ _ _ s₄ _ _ _ _ found _ named declares _ prepared acquires
      acquired stored h₁ h₂ k₁ k₂ =>
    have knowing₅ := knowing.of_grows h₂.steady.grows
    have knowing₄ := knowing₅.of_grows h₁.steady.grows
    have knowing₃ := knowing₄.of_grows acquired.extends'.grows
    have knowing₂ := knowing₃.of_grows prepared.extends'.grows
    have amid₁ := amid.step named (.hiddenName _) (knowing₂.of_grows declares.extends'.grows)
    have amid₃ := (amid₁.step declares (Disciplined.rules.declare _ _ _) knowing₂).step prepared
      (.onStorage (.prepare _))
      knowing₃
    have same : s₄.scopes = s₃.scopes := by
      obtain ⟨_, -, rfl⟩ := run_onStorage_ok.1 acquired.run
      rfl
    have amid₄ := amid₃.steady acquired.extends'.steady
      (amid₃.ready.sound.same same acquired.extends'.frames)
    have tidy := amid.ready.tidy.constructor found
    -- the handle, which the code that takes it writes to, and the bodies behind it
    obtain ⟨A, inA, handle⟩ :=
      declares.pushes_declared knowing₂.accounts knowing₂.grants amid₁.later
    have plain := knowing₄.accounts.storage _ (ClassData.mem_locations_of_table stored)
    have amid₅ := amid₄.after h₁ knowing₅ (.of_none rfl rfl)
    obtain ⟨B, inB, bodies⟩ := (k₁ id knowing₅ (.of_none rfl rfl) amid₄).seq
      (k₂ id knowing ⟨tidy, fun v h => (by cases h)⟩ amid₅)
    refine ⟨B ++ A, fun l hl => (List.mem_append.1 hl).elim (inB l) (inA l), fun L R Δ => ?_⟩
    rw [List.append_assoc]
    exact .seq (.acts (handle Δ).1) (.seq (.acquire acquires (handle Δ).2 plain)
      (bodies L R (A ++ Δ)))
  | fields_cons list h₁ e h₂ k₁ k₂ =>
    have knowing₂ := (knowing.of_grows h₂.steady.grows).withList
    have knowing₁ := knowing₂.of_grows e.extends'.grows
    have amid₂ := (amid.after h₁ knowing₁ (.exprs _)).step e (.onStorage (.fieldStack _)) knowing₂
    have plain := knowing₂.accounts.storage _ (run_fieldStack_location e.run)
    exact (k₁ id knowing₁ (.exprs _) amid).seq ((Pushes.standing fun _ _ _ =>
      .acts (touches_indexed plain _ _ _ _)).seq
        (k₂ id knowing (.of_none rfl rfl) (amid₂.withList list)))
  | statics_cons list h₁ e h₂ k₁ k₂ =>
    have knowing₂ := (knowing.of_grows h₂.steady.grows).withList
    have knowing₁ := knowing₂.of_grows e.extends'.grows
    have amid₂ := (amid.after h₁ knowing₁ (.expr _)).step e (.staticVar _ _) knowing₂
    have plain := knowing₂.accounts.storage _ (run_staticVar_location e.run)
    exact (k₁ id knowing₁ (.expr _) amid).seq ((Pushes.standing fun _ _ _ =>
      .acts (touches_indexed plain _ _ _ _)).seq
        (k₂ id knowing (.of_none rfl rfl) (amid₂.withList list)))
  | _ => exact absurd trivial outer

/-- Behind an expression every stack that the unit had before it has the items that it had, also if
the expression calls the recursive body that it stands in. -/
theorem Lowers.items_kept {es : List Expr} {ρ : List Routine} {h : Host} {m m' : Memory} {x : Exit}
    {l : Location} (lowers : Lowers (.exprs es) s c xs t) (accounts : Accounts S t)
    (ready : Ready S τ L R depth s) (roomy : Roomy L depth s)
    (limit : h.config.maxArrayLength ≤ 2 ^ 53) (routines : RoutinesBalanced S ρ τ)
    (exec : Exec h ρ c m x m') (stack : S l) (old : l ∈ s.symbols.map Symbol.location) :
    (h.value m' l).items = (h.value m l).items := by
  have grants : t.Grants (fun l => ¬ (S l ∧ l ∈ s.symbols.map Symbol.location)) s.symbols := by
    refine ⟨fun new e sym hs => ?_, fun l hl => fun both => accounts.storage l hl both.1⟩
    rintro ⟨-, old⟩
    have distinct := accounts.distinct
    rw [e, List.map_append, List.nodup_append] at distinct
    exact distinct.2.2 _ (List.mem_map_of_mem hs) _ old rfl
  obtain ⟨A, new, typed⟩ := lowers.pushes id ⟨accounts, grants⟩ (.exprs es)
    ⟨List.suffix_refl _, ready, roomy⟩
  -- all that the stacks have at the start is below what the code can reach
  obtain ⟨Δ, exit, based⟩ := (typed [] [] []).preserved limit exec routines (Based.self h m)
  have unnamed : l ∉ Δ := by
    cases x with
    | next =>
      cases exit
      exact fun mem => (List.mem_append.1 mem).elim
        (fun mem => new l mem ⟨stack, old⟩) fun mem => by cases mem
    | ret =>
      cases exit
      exact fun mem => by cases mem
    | ended => cases exit
    | leave k => cases exit
    | again k => cases exit
  obtain ⟨own, items, count, -⟩ := based l stack
  rw [List.count_eq_zero_of_not_mem unnamed, List.length_eq_zero_iff] at count
  rw [items, count, List.append_nil, SkipCode.below]
  simp

/-- So an element that reads nothing but such stacks gives the same value, if there is something on
them. -/
theorem Lowers.eval_kept {es : List Expr} {ρ : List Routine} {h : Host} {m m' : Memory} {x : Exit}
    {e : Element} (lowers : Lowers (.exprs es) s c xs t) (accounts : Accounts S t)
    (ready : Ready S τ L R depth s) (roomy : Roomy L depth s)
    (limit : h.config.maxArrayLength ≤ 2 ^ 53) (routines : RoutinesBalanced S ρ τ)
    (exec : Exec h ρ c m x m')
    (reads : e.Confined fun cell => cell.Occupied h S m ∧
      cell.location ∈ s.symbols.map Symbol.location) :
    Engine.eval (h.context m') e = Engine.eval (h.context m) e := by
  refine Engine.eval_agrees (c := h.context m) (fun cell key ⟨⟨l, stack, own, filled⟩, old⟩ found =>
    ?_) e reads
  subst own
  rw [Location.location_cell] at old
  have items := lowers.items_kept accounts ready roomy limit routines exec stack old
  cases (l.storeKey_eq h m).symm.trans found
  exact Value.eq_of_items items filled

end

end

end SkipCode
