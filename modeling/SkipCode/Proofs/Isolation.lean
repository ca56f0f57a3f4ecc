import SkipCode.Proofs.Access
import SkipCode.Proofs.Issued

/-!
# Actors do not see each other

Code whose sources name no actor mentions the shared store and that of whoever runs it. A run by an
actor that is a number then depends on these two stores alone and writes no other, whatever the
actors beside it have.

* `Session.Lowered.own`: what lowering makes of a program that names no actor mentions cells of its
  own actor only, also on stacks, in instances and in bodies that are expanded;
* `eval_alike`, `execute_alike`: two engines that agree on two stores go on agreeing;
* `actor_isolated`: so does every unit of such a program, with its writes where they belong.
-/

namespace SkipCode

open Engine (Memory StoreKey)
open Source (Expr Place Program Stmt StmtKind)

/-! ## Sources that name no actor -/

namespace Source

/-- Somewhere in an expression there is a variable of an actor. -/
def Expr.mentionsActor (e : Expr) : Bool := e.parts.any Expr.namesActor

/-- An expression of a statement or its target has a variable of an actor. -/
def StmtKind.mentionsActor (k : StmtKind) : Bool :=
  k.exprs.any Expr.mentionsActor || k.target?.any Place.namesActor

def mentionsActor (body : List Stmt) : Bool := (kindsOf body).any StmtKind.mentionsActor

/-- Somewhere in a program, be it in a body, a rule or an initial value, there is a variable of an
actor. -/
def Program.mentionsActor (p : Program) : Bool :=
  p.bodies.any Source.mentionsActor || p.rules.any (Source.mentionsActor ·.body) ||
    p.classes.any fun d => d.fields.any fun f => f.initial.any Expr.mentionsActor

end Source

section

variable {Q : Cell → Prop}

/-- An expression that mentions no actor is admitted everywhere. -/
theorem Source.Expr.admitted_of_not {e : Expr} (none : ¬ e.mentionsActor) : e.Admitted Q :=
  fun part mem names => absurd (List.any_eq_true.2 ⟨part, mem, names⟩) none

/-- So is a body. -/
theorem admitted_of_not {body : List Stmt} (none : ¬ Source.mentionsActor body) :
    Admitted Q (Source.kindsOf body) := by
  intro k mem
  have none : ¬ k.mentionsActor := fun found => none (List.any_eq_true.2 ⟨k, mem, found⟩)
  rw [StmtKind.mentionsActor, Bool.or_eq_true, not_or] at none
  refine ⟨fun e mem => e.admitted_of_not fun found => ?_, fun place target names => ?_⟩
  · exact none.1 (List.any_eq_true.2 ⟨e, mem, found⟩)
  · rw [target, Option.any_some] at none
    exact absurd names none.2

/-- The sessions of a program that names no actor have no source that names one. -/
theorem History.admitted {config : LowerConfig} {program : Program} {past : List Symbol}
    {σ : Session} (h : History config program past σ) (none : ¬ program.mentionsActor) :
    σ.Admitted Q := by
  simp only [Program.mentionsActor, Bool.or_eq_true, not_or] at none
  obtain ⟨⟨bodies, -⟩, initials⟩ := none
  refine ⟨fun body mem => admitted_of_not fun found => ?_,
    fun e mem => e.admitted_of_not fun found => ?_⟩
  · rw [h.bodies] at mem
    exact bodies (List.any_eq_true.2 ⟨body, mem, found⟩)
  · rw [ClassTable.initials, h.akin.2.1] at mem
    obtain ⟨d, hd, mem⟩ := List.mem_flatMap.1 mem
    obtain ⟨f, hf, initial⟩ := List.mem_filterMap.1 mem
    refine initials (List.any_eq_true.2 ⟨d, hd, List.any_eq_true.2 ⟨f, hf, ?_⟩⟩)
    rwa [initial, Option.any_some]

end

/-! ## Cells of the running actor -/

/-- A cell that is shared or belongs to whoever runs the code. -/
def Cell.Own (c : Cell) : Prop := c.store = c.location.store none

/-- A unit's own places are cells of its own. -/
theorem Location.own_cell (l : Location) : l.cell.Own := by
  rw [Cell.Own, location_cell]
  rfl

/-- A unit of a program that names no actor mentions cells of its own actor only. -/
theorem Session.Lowered.own {config : LowerConfig} {program : Program} {past : List Symbol}
    {σ : Session} {body : List Stmt} {output : UnitOutput} {list : ActionList}
    (history : History config program past σ) (lowered : σ.Lowered body output)
    (none : ¬ program.mentionsActor) (rule : body ∈ [] :: program.rules.map (·.body))
    (result : output.result = .ok list) : ∀ cell ∈ list.cells, cell.Own := by
  refine lowered.confined (history.admitted none)
    (admitted_of_not fun found => ?_) history.whole result
    fun l _ => l.own_cell
  rcases List.mem_cons.1 rule with rfl | rule
  · cases found
  · obtain ⟨r, mem, rfl⟩ := List.mem_map.1 rule
    simp only [Program.mentionsActor, Bool.or_eq_true, not_or] at none
    exact none.1.2 (List.any_eq_true.2 ⟨r, mem, found⟩)

/-! ## Two engines that agree on two stores -/

namespace Engine

/-- An actor that is a number, so that code which asks for its store gets it. -/
def IsNumber (actor : Int64) : Prop := (Binary64.ofInt actor.toInt).toInt64 = actor

/-- Stores that agree as far as an actor sees them. -/
def Memory.SameFor (actor : Int64) (m m' : Memory) : Prop :=
  ∀ pool slot, m'.get (.own actor pool) slot = m.get (.own actor pool) slot

/-- A write keeps two memories alike for the actor. -/
theorem Memory.SameFor.set {actor : Int64} {m m' : Memory} (h : SameFor actor m m') (key : StoreKey)
    (slot : UInt32) (v : Value) : SameFor actor (m.set key slot v) (m'.set key slot v) := by
  intro pool s
  rw [get_set, get_set]
  split
  · rfl
  · exact h pool s

/-- What an actor that is a number mentions is in its own stores. -/
theorem storeKey_own {c : Context} (number : IsNumber c.actor) {cell : Cell} (own : cell.Own) :
    storeKey c cell.store = .ok (.own c.actor cell.store.pool) := by
  have key := Location.storeKey_eq ⟨c.config, c.actor⟩ c.memory cell.location
  rw [← own] at key
  refine key.trans (congrArg Except.ok ?_)
  rw [show cell.location.pool = cell.store.pool from rfl]
  cases cell.store.pool with
  | global => rfl
  | actor => exact congrArg StoreKey.actor number

/-- The value of an element depends on the stores that it mentions. -/
theorem eval_alike {c : Context} {m : Memory} (number : IsNumber c.actor)
    (same : Memory.SameFor c.actor c.memory m) (e : Element) (own : e.Confined Cell.Own) :
    eval { c with memory := m } e = eval c e := by
  refine eval_agrees (fun cell key here found => ?_) e own
  obtain rfl := Except.ok.inj ((storeKey_own number here).symm.trans found)
  exact same _ _

/-! ### Runs -/

/-- The same engine with other stores, which agree as far as its actor sees them. -/
inductive Alike (e : Engine) : Engine → Prop
  | intro {m : Memory} : Memory.SameFor e.actor e.memory m → Alike e { e with memory := m }

variable {e e' : Engine} {list : ActionList} {ip : Nat}

/-- Engines are alike that differ in other actors' cells alone. -/
theorem Alike.of {e e' : Engine} (config : e'.config = e.config) (actor : e'.actor = e.actor)
    (steps : e'.steps = e.steps) (same : Memory.SameFor e.actor e.memory e'.memory) :
    Alike e e' := by
  obtain ⟨_, m, _, _⟩ := e'
  obtain rfl := config
  obtain rfl := actor
  obtain rfl := steps
  exact .intro same

/-- Engines that are alike have memories that are. -/
theorem Alike.same {e e' : Engine} (h : Alike e e') :
    Memory.SameFor e.actor e.memory e'.memory := by
  obtain ⟨same⟩ := h
  exact same

/-- A step leads two engines that agree to the same answer, and they agree after it. -/
def AgreesOn {α : Type} (f : Engine → α × Engine) (e : Engine) : Prop :=
  ∀ {e'}, Alike e e' → (f e').1 = (f e).1 ∧ Alike (f e).2 (f e').2

/-- A store does the same on memories that are alike. -/
theorem store_alike (key : StoreKey) (slot : UInt32) (v : Value) :
    AgreesOn (fun e => e.store key slot v) e := by
  rintro _ ⟨same⟩
  dsimp only [store]
  split
  · exact ⟨rfl, .intro same⟩
  · exact ⟨rfl, .intro (same.set key slot v)⟩

/-- So does a store at an index. -/
theorem storeAt_alike (pool : Pool) (slot : UInt32) (index : Binary64) (v : Value) :
    AgreesOn (fun e => e.storeAt (.own e.actor pool) slot index v) e := by
  rintro _ ⟨same⟩
  dsimp only [storeAt]
  split
  · exact ⟨rfl, .intro same⟩
  · split
    · exact ⟨rfl, .intro same⟩
    · rw [same]
      exact store_alike (e := e.write (.own e.actor pool) slot .neutral) _ _ _
        (.intro (same.set _ slot .neutral))

/-- Operands of own cells have the same values. -/
theorem operands_alike {c : Context} (number : IsNumber c.actor) {m : Memory}
    (same : Memory.SameFor c.actor c.memory m) {st : Store} {slot : UInt32} {index : Option Element}
    {value : Element} (own : (Action.set st slot index value).Confined Cell.Own) :
    operands { c with memory := m } st slot index value = operands c st slot index value := by
  obtain ⟨cell, -, inner, written⟩ := Action.confined_set.1 own
  have key := storeKey_own number cell
  have key' := storeKey_own (c := { c with memory := m }) number cell
  rw [operands, operands, key, key', eval_alike number same value written]
  cases index with
  | none => rfl
  | some index =>
    simp only [eval_alike number same index (inner index rfl)]
    rfl

/-- An assignment to an own cell does the same. -/
theorem assign_alike (number : IsNumber e.actor) {st : Store} {slot : UInt32}
    {index : Option Element} {value : Element}
    (own : (Action.set st slot index value).Confined Cell.Own) :
    AgreesOn (fun e => e.assign st slot index value) e := by
  rintro _ ⟨same⟩
  rename_i m
  have operands' : operands ({ e with memory := m } : Engine).context st slot index value =
      operands e.context st slot index value := operands_alike (c := e.context) number same own
  dsimp only [assign]
  rw [operands']
  cases found : operands e.context st slot index value with
  | error f => exact ⟨rfl, .intro same⟩
  | ok r =>
    obtain ⟨key, v, index?⟩ := r
    cases index? with
    | none => exact store_alike key slot v (.intro same)
    | some i =>
      have key' := storeKey_own (c := e.context) number (Action.confined_set.1 own).1
      obtain rfl : .own e.actor st.pool = key :=
        Except.ok.inj (key'.symm.trans (storeKey_of_operands found))
      exact storeAt_alike st.pool slot i v (.intro same)

/-- So does a step. -/
theorem step_alike (ip len : Nat) (number : IsNumber e.actor) {a : Action}
    (own : a.Confined Cell.Own) :
    AgreesOn (fun e => e.step ip len a) e := by
  intro e' alike
  -- only a write changes the memory, and only its own cells
  cases a with
  | set st slot index value =>
    obtain ⟨answer, after⟩ := assign_alike number own alike
    dsimp only [step] at answer after ⊢
    revert answer after
    rcases e.assign st slot index value with ⟨_ | _, e₁⟩ <;>
      rcases e'.assign st slot index value with ⟨_ | _, e₂⟩ <;> intro answer after <;>
      cases answer <;> exact ⟨rfl, after⟩
  | skipIf condition count =>
    obtain ⟨same⟩ := alike
    rename_i m
    have value : eval ({ e with memory := m } : Engine).context condition =
      eval e.context condition :=
      eval_alike (c := e.context) number same condition own
    dsimp only [step]
    rw [value]
    cases eval e.context condition <;> exact ⟨rfl, .intro same⟩
  | skip count =>
    obtain ⟨same⟩ := alike
    exact ⟨rfl, .intro same⟩
  | abort =>
    obtain ⟨same⟩ := alike
    exact ⟨rfl, .intro same⟩

/-- So does counting it. -/
theorem countStep_alike (ip : Nat) : AgreesOn (fun e => e.countStep ip) e := by
  rintro _ ⟨same⟩
  dsimp only [countStep]
  cases e.config.maxSteps with
  | none => exact ⟨rfl, .intro same⟩
  | some limit =>
    dsimp only
    split <;> exact ⟨rfl, .intro same⟩

/-- So does a step together with its count. -/
theorem tick_alike (ip : Nat) (number : IsNumber e.actor) (own : ∀ cell ∈ list.cells, cell.Own)
    (alike : Alike e e') :
    match e.tick list ip with
    | none => e'.tick list ip = none
    | some (r, e₁) => ∃ e₂, e'.tick list ip = some (r, e₂) ∧ Alike e₁ e₂ := by
  unfold tick
  cases found : list.get? ip with
  | none => rfl
  | some a =>
    have own : a.Confined Cell.Own := fun cell mem => by
      rw [ActionList.get?_eq_toList] at found
      exact own cell (List.mem_flatMap.2 ⟨a, List.mem_of_getElem? found, mem⟩)
    have number : IsNumber (e.countStep ip).2.actor := by
      rw [countStep_engine]
      exact number
    -- the count of the step is the same for both, and then so is the step
    obtain ⟨answer, counted⟩ := countStep_alike ip alike
    dsimp only at answer counted
    simp only [Option.map_some]
    rcases count : e.countStep ip with ⟨r, e₁⟩
    rcases count' : e'.countStep ip with ⟨r', e₂⟩
    rw [count] at number
    rw [count, count'] at answer counted
    obtain rfl : r' = r := answer
    cases r' with
    | error err => exact ⟨e₂, rfl, counted⟩
    | ok =>
      obtain ⟨answer, after⟩ := step_alike ip list.length number own counted
      exact ⟨(e₂.step ip list.length a).2, congrArg some (Prod.ext answer rfl), after⟩

/-- Two engines that agree on what an actor sees run its code alike. -/
theorem execute_alike (number : IsNumber e.actor) (own : ∀ cell ∈ list.cells, cell.Own)
    (alike : Alike e e') {fuel : Nat} {r : Except RuntimeError Outcome} {e₁ : Engine}
    (done : execute list fuel ip e = some (r, e₁)) :
    ∃ e₂, execute list fuel ip e' = some (r, e₂) ∧ Alike e₁ e₂ := by
  -- on the fuel: both engines tick alike, so they are alike behind every tick
  induction fuel generalizing ip e e' with
  | zero => cases done
  | succ fuel ih =>
    have step := tick_alike ip number own alike
    rw [execute_succ] at done ⊢
    cases tick : e.tick list ip with
    | none =>
      rw [tick] at done step
      cases done
      rw [show e'.tick list ip = none from step]
      exact ⟨e', rfl, alike⟩
    | some answer =>
      obtain ⟨next, e₃⟩ := answer
      rw [tick] at done step
      obtain ⟨e₄, same, after⟩ := step
      rw [same]
      cases next with
      | error err =>
        cases done
        exact ⟨e₄, rfl, after⟩
      | ok next =>
        cases next with
        | stop =>
          cases done
          exact ⟨e₄, rfl, after⟩
        | goto target =>
          obtain ⟨m, rfl, -⟩ := tick_writes tick
          exact ih (e := { e with memory := m, steps := e.steps + 1 }) number after done

/-- Where code of an actor's own cells may write. -/
theorem Trail.own (trail : Trail list ip e e') (number : IsNumber e.actor)
    (own : ∀ cell ∈ list.cells, cell.Own) {key : StoreKey} (other : ∀ pool, key ≠ .own e.actor pool)
    (slot : UInt32) : e'.memory.get key slot = e.memory.get key slot := by
  by_contra differs
  obtain ⟨cell, mem, m, found, -⟩ := trail.writes.2.2 key slot differs
  have found' := storeKey_own (c := ⟨e.config, m, e.actor⟩) number (own cell mem)
  exact other cell.store.pool (Except.ok.inj (found.symm.trans found'))

end Engine

/-! ## Units -/

/-- A unit that an actor runs. -/
structure Isolated (list : ActionList) (actor : Int64) : Prop where
  /-- At no time of the run is another store than the shared one and that of the actor changed. -/
  writes : ∀ e e' : Engine, Engine.Trail list 0 { e with actor := actor, steps := 0 } e' →
    ∀ key, (∀ pool, key ≠ StoreKey.own actor pool) → ∀ slot,
      e'.memory.get key slot = e.memory.get key slot
  /-- Its outcome and what is in these two stores then depend on what was in them before. -/
  reads : ∀ e₁ e₂ : Engine, e₂.config = e₁.config → Memory.SameFor actor e₁.memory e₂.memory →
    ∀ r e₁', e₁.runList list actor = some (r, e₁') →
      ∃ e₂', e₂.runList list actor = some (r, e₂') ∧ Memory.SameFor actor e₁'.memory e₂'.memory

/-- In a program that names no actor every unit that lowers is isolated, whichever actor runs it
that is a number: deferred exhaustions, units before it, stacks, instances and expanded bodies
included. -/
theorem actor_isolated {config : LowerConfig} {program : Program} {past : List Symbol} {σ : Session}
    {body : List Stmt} {output : UnitOutput} {list : ActionList} (none : ¬ program.mentionsActor)
    (history : History config program past σ) (rule : body ∈ [] :: program.rules.map (·.body))
    (lowered : σ.Lowered body output) (result : output.result = .ok list) {actor : Int64}
    (number : Engine.IsNumber actor) : Isolated list actor := by
  have own := lowered.own history none rule result
  refine ⟨fun e e' trail key other slot => ?_, fun e₁ e₂ limits same r e₁' done => ?_⟩
  · exact trail.own number own other slot
  · unfold Engine.runList at done ⊢
    split at done
    · cases done
      exact ⟨e₂, rfl, same⟩
    · have alike : Engine.Alike { e₁ with actor := actor, steps := 0 }
          { e₂ with actor := actor, steps := 0 } := .of limits rfl rfl same
      obtain ⟨e₂', done', after⟩ :=
        Engine.execute_alike (e := { e₁ with actor := actor, steps := 0 }) number own alike done
      have after := after.same
      rw [show e₁'.actor = actor from (Engine.trail_of_execute done).writes.2.1] at after
      rw [congrArg Engine.fuel limits]
      exact ⟨e₂', done', after⟩

namespace Visits

/-- Each actor counts in its own store, and the last one is noted in a static field. -/
def body : List Stmt :=
  [.define "count" (some (.number (.ofNat 0))), .assignOp "count" .add (.number (.ofNat 1)),
    .ofKind (.assign (.staticField "C" "last") [] .set .currentActor)]

def program : Program :=
  ⟨[.named "C" none [.static "last" none] [] []], [], [⟨"rule", .actor, body⟩]⟩

def list? : Option ActionList :=
  match Session.new .default program with
  | .error _ => none
  | .ok σ => (σ.lowerUnit "rule" .actor body).bind (·.result.toOption)

end Visits

open Visits in
/-- The unit that counts its visits keeps to the store of its actor. -/
theorem actor_isolated_visits : ∃ list, list? = some list ∧ Isolated list 7 := by
  have lowers : list?.isSome = true := by decide +kernel
  obtain ⟨list, found⟩ := Option.isSome_iff_exists.1 lowers
  refine ⟨list, found, ?_⟩
  unfold list? at found
  split at found
  · cases found
  · next σ start =>
    obtain ⟨output, lowered, ok⟩ := Option.bind_eq_some_iff.1 found
    have result : output.result = .ok list := by
      cases h : output.result with
      | error e =>
        rw [h] at ok
        cases ok
      | ok l =>
        rw [h] at ok
        cases ok
        rfl
    exact actor_isolated (by decide +kernel) (.start start)
      (List.mem_cons_of_mem _ List.mem_cons_self)
      (.rule lowered) result (by decide +kernel : (Binary64.ofInt (7 : Int64).toInt).toInt64 = 7)

end SkipCode
