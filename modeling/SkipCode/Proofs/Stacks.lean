import Mathlib.Data.List.Nodup
import SkipCode.Proofs.History
import SkipCode.Proofs.OtherLimits

/-!
# A completed run leaves every stack as it found it

Here the discipline of the code (`Lowers.keeps`), the places of the symbols (`History.orderly`) and
the reading of a run as an execution (`exec_of_runs`) come together.

* `Session.Lowered.stacks_kept`: the stacks of a unit have the same items before and after each
  completed run, in whatever stores it starts;
* `stacks_lost_to_hidden_name`: that asks for sources which leave hidden names alone. One that
  assigns to the return address of a region makes it return twice;
* `Reentry.value_lost_with_reuse`: and it asks for slots that are not given back.
-/

namespace SkipCode

open Engine (Host Memory StoreKey Trail)
open Source (Expr MethodDecl Program Stmt)

/-! ## Stores of an actor that no number stands for -/

namespace Engine.Host

variable {h : Host} {list : ActionList} {m m' : Memory}

/-- An action names an actor by a number, so the store of an actor that is no number stays. -/
theorem storeKey_ne_of_not_number {c : Context} {st : Store} {key : StoreKey} {actor : Int64}
    (none : (Binary64.ofInt actor.toInt).toInt64 ≠ actor) (found : storeKey c st = .ok key) :
    key ≠ .actor actor := by
  rintro rfl
  cases st with
  | global => cases found
  | actor who =>
    obtain ⟨v, -, e⟩ := except_bind_ok.1 found
    obtain rfl : v.asNumber.toInt64 = actor := by
      cases e
      rfl
    exact none (Binary64.toInt64_ofInt_toInt64 _)

theorem write_keeps {key : StoreKey} {st : Store} {slot : UInt32} {index : Option Element}
    {value : Element} (other : ∀ found, storeKey (h.context m) st = .ok found → found ≠ key)
    (done : h.write m st slot index value = some m') (s : UInt32) : m'.get key s = m.get key s := by
  obtain ⟨found, at', only⟩ := write_at done
  exact only key s fun e => other found at' e.1.symm

theorem Runs.keeps_actor {n ip ip' : Nat} {actor : Int64}
    (none : (Binary64.ofInt actor.toInt).toInt64 ≠ actor) (runs : Runs h list n ip m ip' m')
    (s : UInt32) : m'.get (.actor actor) s = m.get (.actor actor) s := by
  induction runs with
  | refl => rfl
  | next one _ ih =>
    rw [ih]
    -- only an assignment writes, and not to this actor
    unfold Host.step at one
    split at one
    · cases one
    · next st slot index value _ =>
      obtain ⟨m₁, done, e⟩ := Option.map_eq_some_iff.1 one
      cases e
      exact write_keeps (fun _ => storeKey_ne_of_not_number none) done s
    · split at one
      · obtain ⟨t, -, e⟩ := Option.map_eq_some_iff.1 one
        cases e
        rfl
      · cases one
        rfl
      · cases one
    · obtain ⟨t, -, e⟩ := Option.map_eq_some_iff.1 one
      cases e
      rfl
    · cases one

end Engine.Host

/-! ## Units -/

/-- A unit of a session: a rule with its body, or the initial values of static fields. -/
inductive Session.Lowered (σ : Session) : List Stmt → UnitOutput → Prop
  | rule {unit pool body output} : σ.lowerUnit unit pool body = some output → Lowered σ body output
  | statics {output} : σ.lowerStaticInit = some output → Lowered σ [] output

/-- The stacks of a unit. -/
def UnitOutput.IsStack (output : UnitOutput) (l : Location) : Prop :=
  ∃ sym ∈ output.symbols, sym.location = l ∧ sym.stacked = true

section

variable {config : LowerConfig} {program : Program} {past : List Symbol} {σ : Session}
  {output : UnitOutput} {list : ActionList} {unit : String} {pool : Pool} {body : List Stmt}

/-- The symbols of a unit tell which places are stacks. -/
theorem accounts_of_orderly {last closed : UnitState} (orderly : last.Orderly past)
    (symbols : output.symbols = last.symbols.reverse) (session : output.session = last.session)
    (deferred : output.deferred = last.deferred.reverse) (clean : output.deferred = [])
    (symbols' : output.symbols = closed.symbols.reverse)
    (session' : output.session = closed.session) :
    Accounts output.IsStack closed := by
  have same : closed.symbols = last.symbols :=
    List.reverse_injective (symbols'.symm.trans symbols)
  have distinct := orderly.distinct (List.reverse_eq_nil_iff.1 (deferred.symm.trans clean))
  have mem (sym : Symbol) : sym ∈ output.symbols ↔ sym ∈ closed.symbols := by
    rw [symbols', List.mem_reverse]
  refine ⟨fun sym hs => ⟨fun ⟨other, ho, place, stacked⟩ => ?_, fun stacked => ?_⟩, same ▸ distinct,
    fun l hl ⟨sym, hs, place, _⟩ => ?_⟩
  · -- two symbols of one place are one
    rw [← same] at distinct
    rwa [← List.inj_on_of_nodup_map distinct ((mem other).1 ho) hs place]
  · exact ⟨sym, (mem sym).2 hs, rfl, stacked⟩
  · refine orderly.storage l (session ▸ session' ▸ hl) (place ▸ List.mem_map_of_mem ?_)
    exact List.mem_append_left _ (same ▸ (mem sym).1 hs)

/-- What is known where the body of a unit begins. -/
theorem Session.start_ready {S : Location → Prop} (tidy : σ.Tidy) (unit : String) (pool : Pool) :
    Ready S [] [] [] 0 (σ.start unit pool) := by
  refine ⟨tidy, ⟨fun scope hs => ?_, fun frame hf v hv => ?_⟩,
    ⟨Nat.zero_le _, ⟨Lower.unitFrame, [], rfl, rfl, rfl, Or.inl ⟨rfl, rfl⟩⟩, .nil, .nil⟩⟩
  · rw [List.mem_singleton.1 hs]
    exact .empty
  · rw [List.mem_singleton.1 hf] at hv
    cases hv

/-- The code of a unit begins and ends without a stack of its own. -/
theorem UnitCode.balanced {S : Location → Prop} {task : Task} {c : Code} {pops : List Action}
    {last closed : UnitState} (code : UnitCode σ unit pool task output list c pops last closed)
    (accounts : Accounts S closed) (tidy : σ.Tidy) (fits : task.Fits S) :
    Balanced S [] [] [] [] (.frame (.seq c (.acts pops))) [] := by
  have roomy : Roomy [] 0 (σ.start unit pool) := ⟨Nat.zero_lt_one, fun _ h => by cases h⟩
  have kept := code.lowers.keeps [] [] [] 0 (accounts.of_grows code.closes.grows) fits
    (Session.start_ready tidy unit pool) (Or.inr roomy)
  obtain ⟨popped, -⟩ : TouchesAll S pops (stacksAbove last.scopes 0 ++ [])
    (stacksAbove [] 0 ++ []) ∧
      closed.Sound S :=
    code.closes.kept kept.sound code.lowers.steady.scopes (Nat.zero_le _) []
  exact .frame (.seq kept.code (.acts popped))

/-- A completed run of a balanced unit keeps the items of every stack. -/
theorem items_kept_of_runs {S : Location → Prop} {h : Host} {c : Code} {n ip : Nat}
    {m m' : Memory} (limit : h.config.maxArrayLength ≤ 2 ^ 53) (short : list.length ≤ 2 ^ 53)
    (lays : Lays list ⟨[], 0, []⟩ 0 (.frame c) list.length)
    (balanced : Balanced S [] [] [] [] (.frame c) [])
    (runs : Host.Runs h list n 0 m ip m') (past : list.get? ip = none) {l : Location} (hl : S l) :
    (h.value m' l).items = (h.value m l).items := by
  obtain ⟨x, m₁, t, k, exec, ht, rest, -⟩ := exec_of_runs limit short past n (Nat.le_refl _) runs
    lays .nil .nil balanced (Based.self h m)
  obtain ⟨Δ, found, based⟩ := balanced.preserved limit exec .nil (Based.self h m)
  cases exec with
  | frame exec hx =>
    cases ht
    cases found
    -- behind the list nothing is left to run
    have : m' = m₁ := by
      cases rest with
      | refl => rfl
      | next one _ => simp [Host.step, ActionList.get?, ActionList.length] at one
    rw [this]
    exact based.items_eq hl

/-- The store that a unit which runs as an actor has for a pool. -/
def Engine.StoreKey.own (actor : Int64) : Pool → StoreKey
  | .global => .global
  | .actor => .actor actor

/-- A completed run leaves every stack of its unit with the items that it had. The lengths of its
arrays are exact numbers, because of the limit or because they never come to more. -/
theorem Session.Lowered.stacks_kept (history : History config program past σ)
    (noReuse : config.reuseSlots = false) (lowered : σ.Lowered body output)
    (result : output.result = .ok list) (clean : output.deferred = [])
    (short : list.length < 2 ^ 31)
    (tidy : ∀ b ∈ body :: program.bodies, SkipCode.Tidy (Source.kindsOf b)) {e e' : Engine}
    {actor : Int64}
    (limit : e.config.maxArrayLength ≤ 2 ^ 53 ∨ ∀ e₁, Trail list 0 (e.started actor) e₁ →
      ∀ key slot, (e₁.memory.get key slot).items.length ≤ 2 ^ 53)
    (done : e.runList list actor = some (.ok .completed, e')) {sym : Symbol}
    (named : sym ∈ output.symbols) (stacked : sym.stacked = true) :
    (e'.memory.get (.own actor sym.pool) sym.slot).items =
      (e.memory.get (.own actor sym.pool) sym.slot).items := by
  have tidyσ : σ.Tidy := fun b hb => tidy b (List.mem_cons_of_mem _ (history.bodies ▸ hb))
  -- the code of the unit, whatever kind of unit it is
  obtain ⟨c, check, lays, balanced⟩ : ∃ c, list.check = .ok () ∧
      Lays list ⟨[], 0, []⟩ 0 (.frame c) list.length ∧
      Balanced output.IsStack [] [] [] [] (.frame c) [] := by
    cases lowered with
    | rule h =>
      obtain ⟨c, pops, last, closed, code⟩ := unitCode_of_lowerUnit h result clean
      obtain ⟨final, orderly, symbols, session, deferred⟩ :=
        Session.orderly_runUnit (fun _ bodies => .stmts bodies _) h (history.orderly noReuse _ _)
      exact ⟨_, code.check, code.lays short, code.balanced
        (accounts_of_orderly orderly symbols session deferred clean code.symbols code.session) tidyσ
        ⟨tidy _ (List.mem_cons_self ..), fun v h => by cases h⟩⟩
    | statics h =>
      obtain ⟨c, pops, last, closed, code⟩ := unitCode_of_lowerStaticInit h result clean
      obtain ⟨final, orderly, symbols, session, deferred⟩ :=
        Session.orderly_runUnit (fun _ bodies => .staticInitials bodies _) h
          (history.orderly noReuse _ _)
      exact ⟨_, code.check, code.lays short, code.balanced
        (accounts_of_orderly orderly symbols session deferred clean code.symbols code.session) tidyσ
        ⟨nofun, nofun⟩⟩
  -- the run is one under a limit of 2 ^ 53, too
  have done : Engine.execute list (Engine.fuel e.config) 0
      (Host.engine ⟨(e.atLimit (2 ^ 53)).config, actor⟩ e.memory 0) =
        some (.ok .completed, e'.atLimit (2 ^ 53)) := by
    have done := Engine.runList_atLimit done limit
    rw [Engine.runList, check] at done
    exact done
  obtain ⟨n, ip, m', steps, runs, past, ended⟩ := Host.runs_of_execute done
  have behind : e'.memory = m' := congrArg Engine.memory ended
  rw [behind]
  have items := items_kept_of_runs (Nat.le_refl _)
    (Nat.le_trans (Nat.le_of_lt short) (by decide)) lays
    balanced runs past (l := sym.location) ⟨sym, named, rfl, stacked⟩
  obtain ⟨name, pool, slot, _⟩ := sym
  cases pool with
  | global => exact items
  | actor =>
    by_cases same : (Binary64.ofInt actor.toInt).toInt64 = actor
    · have key : Host.key ⟨(e.atLimit (2 ^ 53)).config, actor⟩ .actor = .actor actor :=
        congrArg StoreKey.actor same
      rwa [Host.value, Host.value, Symbol.location, key] at items
    · exact congrArg Value.items (runs.keeps_actor same slot)

end

/-! ## First runs -/

/-- The first unit of a session of which something holds that can be computed begins in order. -/
theorem exists_start (config : LowerConfig) (program : Program) (unit : String) (pool : Pool)
    (p : Session → Bool) (noReuse : config.reuseSlots = false)
    (h : (Session.new config program).toOption.any p = true) :
    ∃ σ, Session.new config program = .ok σ ∧ (σ.start unit pool).Orderly [] ∧ p σ = true := by
  cases new : Session.new config program with
  | error e => simp [new, Except.toOption] at h
  | ok σ =>
    have history : History config program [] σ := .start new
    rw [new] at h
    exact ⟨σ, rfl, (history.orderly noReuse unit pool).congr rfl rfl rfl, h⟩

/-- A program whose only unit so far was lowered and has run to its end. -/
structure FirstRun (config : LowerConfig) (program : Program) (body : List Stmt) (e : Engine)
    (σ : Session) (output : UnitOutput) (list : ActionList) (e' : Engine) : Prop where
  session : Session.new config program = .ok σ
  lowered : σ.lowerUnit "rule" .global body = some output
  result : output.result = .ok list
  done : e.runList list Engine.defaultActor = some (.ok .completed, e')

def firstRun? (config : LowerConfig) (program : Program) (body : List Stmt) (e : Engine) :
    Option (Session × UnitOutput × ActionList × Engine) :=
  match Session.new config program with
  | .error _ => none
  | .ok σ =>
    match σ.lowerUnit "rule" .global body with
    | none => none
    | some output =>
      match output.result with
      | .error _ => none
      | .ok list =>
        match e.runList list Engine.defaultActor with
        | some (.ok .completed, e') => some (σ, output, list, e')
        | _ => none

/-- A first run of which something holds that can be computed. -/
theorem exists_firstRun (config : LowerConfig) (program : Program) (body : List Stmt) (e : Engine)
    (p : UnitOutput → ActionList → Engine → Bool)
    (h : (firstRun? config program body e).any (fun r => p r.2.1 r.2.2.1 r.2.2.2) = true) :
    ∃ σ output list e', FirstRun config program body e σ output list e' ∧
      p output list e' = true := by
  obtain ⟨⟨σ, output, list, e'⟩, found, h⟩ := (Option.any_eq_true _ _).1 h
  refine ⟨σ, output, list, e', ?_, h⟩
  unfold firstRun? at found
  split at found
  · cases found
  · next session =>
    split at found
    · cases found
    · next lowered =>
      split at found
      · cases found
      · next result =>
        split at found
        · next done =>
          cases found
          exact ⟨session, lowered, result, done⟩
        · cases found

namespace Countdown

/-- `f(n)` calls itself once when `n` is 2, and writes to a name when `n` is 1. -/
def body (target : String) : List Stmt :=
  let isNumber (n : Nat) : Expr := .binary .eq (.var "n") (.number (.ofNat n))
  [.ofKind (.cond
    [.mk (isNumber 1) [.assign target (.number (.ofNat 0))],
      .mk (isNumber 2) [.expr (.callFunction "f" [.number (.ofNat 1)])]] none)]

def program (target : String) : Program :=
  ⟨[], [(MethodDecl.named "f" ["n"] (body target)).markRecursive], []⟩

def rule (argument : Nat) : List Stmt := [.expr (.callFunction "f" [.number (.ofNat argument)])]

/-- The third slot is that of the return addresses. -/
def engine : Engine := (Engine.new .default).setGlobal 3 (.array [.number (.ofInt (-1))])

end Countdown

open Countdown in
theorem stacks_kept_countdown : ∃ σ output list e',
    FirstRun .default (program "n") (rule 2) engine σ output list e' ∧
      ∃ sym ∈ output.symbols, sym.stacked = true ∧
        (e'.memory.get (.own Engine.defaultActor sym.pool) sym.slot).items =
          (engine.memory.get (.own Engine.defaultActor sym.pool) sym.slot).items := by
  obtain ⟨σ, output, list, e', first, h⟩ := exists_firstRun .default (program "n") (rule 2) engine
    (fun output list _ => output.deferred.isEmpty && decide (list.length < 2 ^ 31) &&
      output.symbols.any (·.stacked)) (by decide +kernel)
  simp only [Bool.and_eq_true, List.isEmpty_iff, decide_eq_true_iff, List.any_eq_true] at h
  obtain ⟨⟨clean, short⟩, sym, named, stacked⟩ := h
  exact ⟨σ, output, list, e', first, sym, named, stacked,
    Session.Lowered.stacks_kept (.start first.session) rfl (.rule first.lowered) first.result clean
      short (by decide +kernel) (.inl (by decide)) first.done named stacked⟩

open Countdown in
/-- A body that writes 0 to the return address of its outermost call goes on behind the call inside,
and gives back more than it took. -/
theorem stacks_lost_to_hidden_name : ∃ σ output list e',
    FirstRun .default (program "__ret_addr3") (rule 1) engine σ output list e' ∧
      output.deferred = [] ∧ ∃ sym ∈ output.symbols, sym.stacked = true ∧
        (e'.memory.get (.own Engine.defaultActor sym.pool) sym.slot).items ≠
          (engine.memory.get (.own Engine.defaultActor sym.pool) sym.slot).items := by
  obtain ⟨σ, output, list, e', first, h⟩ :=
    exists_firstRun .default (program "__ret_addr3") (rule 1)
    engine (fun output _ e' => output.deferred.isEmpty && output.symbols.any fun sym =>
      sym.stacked &&
      (e'.memory.get (.own Engine.defaultActor sym.pool) sym.slot).items.length !=
        (engine.memory.get (.own Engine.defaultActor sym.pool) sym.slot).items.length)
    (by decide +kernel)
  simp only [Bool.and_eq_true, List.isEmpty_iff, List.any_eq_true, bne_iff_ne] at h
  obtain ⟨clean, sym, named, stacked, items⟩ := h
  exact ⟨σ, output, list, e', first, clean, sym, named, stacked, fun e => items (congrArg _ e)⟩

/-! ## Slots that are given back -/

namespace Reentry

/-- `f(1)` declares a variable, calls `f(0)` and returns the variable; `f(0)` calls `g`. -/
def body : List Stmt :=
  [.ofKind (.cond
    [.mk (.binary .eq (.var "n") (.number (.ofNat 1)))
      [.define "x" (some (.number (.ofNat 5))),
        .expr (.callFunction "f" [.number (.ofNat 0)]),
        .ofKind (.return (some (.var "x")))]]
    (some [.ofKind (.return (some (.callFunction "g" [])))]))]

def program : Program :=
  ⟨[], [.named "g" [] [.ofKind (.return (some (.number (.ofNat 9))))],
    (MethodDecl.named "f" ["n"] body).markRecursive], []⟩

def rule : List Stmt := [.define "result" (some (.callFunction "f" [.number (.ofNat 1)]))]

/-- Whether the rule ends with a number in its variable. -/
def endsWith (n : Nat) (output : UnitOutput) (e : Engine) : Bool :=
  output.symbols.any fun sym => sym.name == "result" &&
    decide ((e.global sym.slot).asNumber = .ofNat n)

/-- With reuse the result of `g` is put where the scope that is left by then had the stack of `x`,
but an activation of `f` that still needs its `x` waits for the call to end. So `f(1)` is 5 without
reuse and 0 with it. -/
theorem value_lost_with_reuse :
    (∃ σ output list e, FirstRun .default program rule (.new .default) σ output list e ∧
      output.deferred = [] ∧ endsWith 5 output e = true) ∧
    ∃ σ output list e, FirstRun { LowerConfig.default with reuseSlots := true } program rule
      (.new .default) σ output list e ∧ output.deferred = [] ∧ endsWith 0 output e = true := by
  constructor
  · obtain ⟨σ, output, list, e, first, h⟩ := exists_firstRun .default program rule
      (.new .default) (fun output _ e => output.deferred.isEmpty && endsWith 5 output e)
      (by decide +kernel)
    simp only [Bool.and_eq_true, List.isEmpty_iff] at h
    exact ⟨σ, output, list, e, first, h⟩
  · obtain ⟨σ, output, list, e, first, h⟩ := exists_firstRun
      { LowerConfig.default with reuseSlots := true } program rule (.new .default)
      (fun output _ e => output.deferred.isEmpty && endsWith 0 output e) (by decide +kernel)
    simp only [Bool.and_eq_true, List.isEmpty_iff] at h
    exact ⟨σ, output, list, e, first, h⟩

end Reentry

end SkipCode
