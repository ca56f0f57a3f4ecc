import SkipCode.Proofs.Arrivals
import SkipCode.Proofs.Inlining
import SkipCode.Proofs.Operands
import SkipCode.Proofs.Stacks

/-!
# What a call yields

A call yields what is in the slot of its result behind its body. Only a `return` with a value writes
to that slot, and nothing resets it.

* `call_result`: wherever it stands, a call yields what the return that ended its body left, or else
  what the slot held then, and outside of recursive bodies that is what it held before the call;
* `Leftover.result_left_over`: so two calls of a function with the same argument yield different
  values, for there was another call in between.
-/

namespace SkipCode

open Engine (Fault Host Memory)
open Lower
open Source (MethodDecl Program Stmt)

section

variable {h : Host} {m m' m'' : Memory} {ρ : List Routine} {body : Code} {result : IndexedVar}
  {x : Exit}

/-- What a return leaves in the slot of the result. -/
theorem eval_storeResult {values : List Element} {others : List Action} (whole : result.path = [])
    (apart : ActsIn (· ≠ result.location) others)
    (done : h.acts m (storeResult (some result) values ++ others) = some m') :
    Engine.eval (h.context m') (result.get none) =
      (values.head?.map (Engine.eval (h.context m))).getD
        (Engine.eval (h.context m) (result.get none)) := by
  obtain ⟨m₁, stored, rest⟩ := acts_append done
  have kept := (Exec.acts (ρ := []) rest).value_kept apart nofun (not_ne_iff.2 rfl)
  rw [IndexedVar.eval_get_congr whole kept]
  cases values with
  | nil =>
    cases stored
    rfl
  | cons value _ => exact IndexedVar.eval_set whole stored

/-- How a body leaves its result. If it ends without a `return`, or with one that has no value, the
result is what the slot holds then, and else it is the value of the `return`. -/
inductive Resulting (h : Host) (ρ : List Routine) (result : IndexedVar) (body : Code) (m : Memory)
    (old : Except Fault Value) : Except Fault Value → Prop
  | passed {m₁} : Exec h ρ body m .next m₁ → old = Engine.eval (h.context m₁) (result.get none) →
      Resulting h ρ result body m old old
  | returned {values others m₁ m₂} : Exec h ρ body m .ret m₂ →
      Arrives h ρ body m ρ (.seq (.acts (storeResult (some result) values ++ others)) .ret) m₁ →
      h.acts m₁ (storeResult (some result) values ++ others) = some m₂ →
      old = Engine.eval (h.context m₁) (result.get none) →
      Resulting h ρ result body m old ((values.head?.map (Engine.eval (h.context m₁))).getD old)

/-- A body that writes to the slot by its returns only leaves its result there. The slot holds what
it held when the body began, unless calls back into open regions write to it. -/
theorem Exec.resulting (exec : Exec h ρ body m x m') (ends : x = .next ∨ x = .ret)
    (whole : result.path = []) (inside : body.ReturnsIn (· ≠ result.location) (some result))
    (kept : h.value m'' result.location = h.value m' result.location) :
    ∃ old, Resulting h ρ result body m old (Engine.eval (h.context m'') (result.get none)) ∧
      (RoutinesIn (· ≠ result.location) ρ → old = Engine.eval (h.context m) (result.get none)) := by
  have leaves := exec.returned inside (l := result.location) (not_ne_iff.2 rfl)
  rw [IndexedVar.eval_get_congr whole kept]
  rcases ends with rfl | rfl
  · exact ⟨_, .passed exec rfl, fun routines =>
      IndexedVar.eval_get_congr whole (leaves.kept nofun routines)⟩
  · obtain ⟨values, others, m₁, arrives, same, othersIn, done⟩ := leaves.returned rfl
    rw [eval_storeResult whole othersIn done]
    exact ⟨_, .returned exec arrives done rfl,
      fun routines => IndexedVar.eval_get_congr whole (same routines)⟩

end

/-! ## Calls -/

/-- What runs for a call back into a region leaves its result in a slot by its returns only. -/
structure Routine.Answers (result : IndexedVar) (routine : Routine) : Prop where
  whole : result.path = []
  body : routine.body.ReturnsIn (· ≠ result.location) (some result)
  finish : ActsIn (· ≠ result.location) routine.finish

/-- So it is for every region that is open. -/
def RoutinesAnswer (regions : List Region) (ρ : List Routine) : Prop :=
  ∀ (index : Nat) (region : Region) (routine : Routine), regions[index]? = some region →
    ρ[index]? = some routine → Routine.Answers region.result routine

/-- What a call runs, where the result of that is, and the regions that are open then. It is the
body of the method, expanded in place or as a region of its own, with a new slot for the result, or
what an open region runs. -/
inductive CallsInto (callee : Callee) (s : UnitState) (ρ : List Routine) :
    IndexedVar → Code → List Routine → Prop
  | inline {result inside body behind} : callee.decl.recursive = false →
      result.location ∉ s.symbols.map Symbol.location →
      Lowers (.block callee.decl.body) inside body [] behind → CallsInto callee s ρ result body ρ
  | region {result inside body behind finish address} : callee.decl.recursive = true →
      findRegion? s.regions callee.key = none → result.location ∉ s.symbols.map Symbol.location →
      Lowers (.block callee.decl.body) inside body [] behind →
        Routine.Answers result ⟨body, finish, address⟩ →
      CallsInto callee s ρ result body (⟨body, finish, address⟩ :: ρ)
  | reenter {index region routine} : callee.decl.recursive = true →
      findRegion? s.regions callee.key = some (index, region) → ρ[index]? = some routine →
      CallsInto callee s ρ region.result routine.body (ρ.drop index)

section

variable {callee : Callee} {receiver : Option Element} {arguments : List Element}
  {s s₁ t : UnitState} {result : IndexedVar} {x : Element} {past : List Symbol}

theorem Region.Confined.inside {P : Location → Prop} {places : List Location} {region : Region}
    (confined : region.Confined fun cell => cell.location ∈ places) (inside : ∀ l ∈ places, P l) :
    region.In P := by
  have place {v : IndexedVar} (h : v.Confined fun cell => cell.location ∈ places) : P v.location :=
    inside _ (Location.location_cell v.location ▸ h.cell)
  refine ⟨fun v hv => ?_, fun v hv => ?_⟩
  · rcases List.mem_cons.1 hv with rfl | hv
    · exact place confined.returnAddress
    · rcases List.mem_append.1 hv with hv | hv
      · exact place (confined.this v (Option.mem_toList.1 hv))
      · exact place (confined.params v hv)
  · rcases List.mem_append.1 hv with hv | hv
    · exact place (confined.argumentTemps v hv)
    · exact place (confined.thisTemp v (Option.mem_toList.1 hv))

/-- The slot of a result is new: it is none that the unit has or that an open region writes to, and
the places behind it are others. -/
theorem Lower.Emits.new_result (e : Emits (Lower.temp "ret") s [] result s₁) (later : s₁.Grows t)
    (orderly : t.Orderly past) (clean : t.deferred = [])
    (placed : s.Confined fun cell => cell.location ∈ s.places) :
    result.location ∉ s.symbols.map Symbol.location ∧ t.Grants (· ≠ result.location) s₁.symbols ∧
      s₁.Behind (· ≠ result.location) s₁.symbols := by
  have noted := e.temp.2
  have mem : result.location ∈ s₁.symbols.map Symbol.location := noted ▸ List.mem_cons_self
  have new : result.location ∉ s.symbols.map Symbol.location := by
    have distinct := (orderly.distinct clean).sublist (later.symbols.map Symbol.location).sublist
    rw [noted, List.nodup_cons] at distinct
    exact distinct.1
  have other : result.location ∉ s.places := by
    refine fun old => (List.mem_append.1 old).elim new fun stored => ?_
    have stored := (e.extends'.grows.trans later).session.classData.locations _ stored
    refine orderly.storage _ stored ?_
    rw [List.map_append]
    exact List.mem_append_left _ ((later.symbols.map _).subset mem)
  refine ⟨new, orderly.grants clean later.symbols fun l same => (not_ne_iff.1 same) ▸ mem,
    List.suffix_refl _, ?_⟩
  intro region mem
  exact (placed.regions region (e.extends'.regions ▸ mem)).inside fun l known same =>
    other (same ▸ known)

/-- What is kept of a value is that value. -/
theorem Lower.Emits.eval_materialized {h : Host} {m m' : Memory} {value : Element}
    {actions : List Action} (e : Emits (materialize value) s actions x t)
    (small : s.inRecursiveFrame = true → h.config.maxArrayLength ≤ 2 ^ 53)
    (done : h.acts m actions = some m') :
    Engine.eval (h.context m') x = Engine.eval (h.context m) value := by
  obtain ⟨_, _, ⟨⟩, run⟩ := run_bind_ok.1 e.run
  split at run
  · next recursive =>
    -- in a recursive body the value is pushed, and read off the top
    obtain ⟨name, u, named, run⟩ := run_bind_ok.1 run
    rw [run_hiddenName] at named
    cases named
    obtain ⟨v, _, declared, ⟨⟩⟩ := run_bind_ok.1 run
    obtain ⟨slot, rfl, takes⟩ := run_declareStack_ok declared e.clean
    have list := (takes.extends (settled_push _ _ _) (Nat.le_refl _)).list
    obtain rfl := List.append_cancel_left (e.extends'.list.symm.trans list)
    obtain ⟨m₁, pushed, ⟨⟩⟩ := Option.bind_eq_some_iff.1 done
    change h.act m (Location.push ⟨s.pool, slot⟩ value) = some m' at pushed
    exact Location.eval_push (small recursive) pushed
  · cases run
    obtain rfl := List.append_cancel_left (e.extends'.list.symm.trans (List.append_nil _).symm)
    cases done
    rfl

/-- Behind the code of a call its value is what the slot of the result held behind the body. -/
theorem Exec.past_call {h : Host} {ρ : List Routine} {m m' : Memory} {c : Code}
    {actions : List Action} (exec : Exec h ρ (.seq c (.acts actions)) m .next m')
    (kept : Emits (materialize (result.get none)) s actions x t)
    (small : s.inRecursiveFrame = true → h.config.maxArrayLength ≤ 2 ^ 53) :
    ∃ m₁, Exec h ρ c m .next m₁ ∧
      Engine.eval (h.context m') x = Engine.eval (h.context m₁) (result.get none) := by
  cases exec with
  | seq run rest =>
    cases rest with
    | acts done => exact ⟨_, run, kept.eval_materialized small done⟩
  | seq_exit _ next => exact absurd rfl next

/-- How the code of a body that is expanded in place is gone through. -/
theorem Exec.through {h : Host} {ρ : List Routine} {m m' : Memory} {entry pops : List Action}
    {body : Code} {P : Location → Prop} {l : Location}
    (exec : Exec h ρ (.frame (.seq (.acts entry) (.seq body (.acts pops)))) m .next m')
    (inside : ActsIn P pops) (other : ¬ P l) :
    ∃ m₁ exit m₂, h.acts m entry = some m₁ ∧ Exec h ρ body m₁ exit m₂ ∧
      (exit = .next ∨ exit = .ret) ∧
      h.value m' l = h.value m₂ l := by
  cases exec with
  | frame run ends =>
    cases run with
    | seq first rest =>
      cases first with
      | acts entered =>
        cases rest with
        | seq run done =>
          cases done with
          | acts done =>
            exact ⟨_, _, _, entered, run, Or.inl rfl,
              (Exec.acts (ρ := []) done).value_kept inside nofun other⟩
        | seq_exit run next => exact ⟨_, _, _, entered, run, ends, rfl⟩
    | seq_exit first next =>
      cases first
      -- writes end in order
      exact absurd rfl next

/-- A call yields the value of the `return` that ends its body. Where there is none, it yields what
the slot of its result holds then. Outside of recursive bodies that is what the slot held before,
whoever left it there. -/
theorem call_result {depth : Nat} (orderly : s.Orderly past)
    (placed : s.Confined fun cell => cell.location ∈ s.places)
    (lowered : run (expandCall (expander depth) callee receiver arguments) s = some (.ok x, t))
    (clean : t.deferred = []) :
    ∃ c, Lowers (.call callee receiver arguments) s c [x] t ∧ Laid s c t ∧
      ∀ (h : Host) (ρ : List Routine) (m m' : Memory),
        (s.inRecursiveFrame = true → h.config.maxArrayLength ≤ 2 ^ 53) →
        RoutinesAnswer s.regions ρ →
        Exec h ρ c m .next m' →
        ∃ result body σ m₁ old, CallsInto callee s ρ result body σ ∧ Arrives h ρ c m σ body m₁ ∧
          Resulting h σ result body m₁ old (Engine.eval (h.context m') x) ∧
          (ρ = [] → callee.decl.recursive = false →
            old = Engine.eval (h.context m) (result.get none)) := by
  obtain ⟨c, derived, laid⟩ :=
    yields_call (yields_expander depth) callee receiver arguments s x t lowered clean
  have orderly' : t.Orderly past :=
    ((Expander.Composed.expander depth).expandCall callee receiver arguments).preserves _ _ _
      lowered orderly
  refine ⟨c, derived, laid, fun h ρ m m' small answers exec => ?_⟩
  cases derived with
  | @inline _ _ _ _ result s₁ _ s₂ _ _ _ inlined e h kept =>
    -- inlined: nothing but the body writes the slot of the result, which is new
    have later : s₁.Grows t := h.steady.grows.trans kept.extends'.grows
    obtain ⟨new, grants, behind⟩ := e.new_result later orderly' clean placed
    cases h with
    | @body _ _ _ _ _ _ _ entry inside code s₂ pops s₃ list bound h closes =>
      have own : (s₁.opened.entered (s₁.expanded (some callee.key) (some result))).Own
        (fun _ => True)
          (· ≠ result.location) (some result) := .entered rfl .empty rfl (Nat.le_refl _) rfl rfl
      have grants₃ := (grants.of_grows kept.extends'.grows).of_left
      obtain ⟨entryIn, bodyIn, popsIn⟩ := h.bodyIn closes bound (Stays.rules.bindCall _ _ _) grants₃
        ⟨behind.later, behind.regions⟩ (fun _ _ _ _ => trivial) own
      obtain ⟨m₃, run, value⟩ := exec.past_call kept fun recursive => small
        ((e.extends'.steady.trans (Lowers.body list bound h
          closes).steady).inRecursiveFrame ▸ recursive)
      obtain ⟨m₁, exit, m₂, entered, inner, ends, same⟩ := run.through popsIn (not_ne_iff.2 rfl)
      obtain ⟨old, resulting, before⟩ := inner.resulting ends e.temp.1 bodyIn same
      refine ⟨result, code, ρ, m₁, old, .inline inlined new h, ?_, value ▸ resulting, ?_⟩
      · exact .first (.frame (.second (.acts entered) (.first .here)))
      · rintro rfl -
        have start := (Exec.acts (ρ := []) entered).value_kept entryIn nofun (not_ne_iff.2 rfl)
        exact (before nofun).trans (IndexedVar.eval_get_congr e.temp.1 start)
  | @reenter _ _ _ _ index region _ _ _ list continuation recursive found kept =>
    -- a call from inside a region jumps to the body that is there already
    obtain ⟨m₃, run, value⟩ := exec.past_call kept small
    cases run with
    | @reenter _ _ _ _ routine _ m₁ m₂ _ _ open' entered inner ends finish address =>
      have answer := answers index region routine (findRegion?_at found) open'
      have same := (Exec.acts (ρ := []) finish).value_kept answer.finish nofun (not_ne_iff.2 rfl)
      obtain ⟨old, resulting, -⟩ := inner.resulting ends answer.whole answer.body same
      exact ⟨region.result, routine.body, _, m₁, old, .reenter recursive found open',
        .first (.called open' entered .here), value ▸ resulting,
        fun _ inlined => absurd (recursive.symm.trans inlined) nofun⟩
  | @region _ _ _ _ result s₁ address s₂ entry region s₃ body s₄ closing regions pops s₅ _ _ _ list
      list' list''
      recursive found e₁ e₂ e₃ h closed closes kept =>
    -- the first call of a recursive method: the body that answers it and the calls inside is laid
    -- here
    have steady :=
      (UnitState.Steady.aroundRegion e₃.extends'.steady h.steady closed closes).withList list''
    have later₂ : s₂.Grows t := steady.grows.trans kept.extends'.grows
    obtain ⟨new, grants, behind⟩ :=
      e₁.new_result (e₂.extends'.grows.trans later₂) orderly' clean placed
    have grants₅ := (grants.of_grows kept.extends'.grows).withList
    obtain ⟨entryIn, bodyIn, finishIn, -⟩ := Holds.region list list' e₃ h closes h.stays grants₅
      (behind.next e₂.extends'.steady) ((grants.of_grows later₂).temp behind.later e₂)
    have answer : Routine.Answers result ⟨body, _, address.get none⟩ :=
      ⟨e₁.temp.1, bodyIn, finishIn⟩
    obtain ⟨m₃, run, value⟩ := exec.past_call kept fun recursive => small
      (((e₁.extends'.steady.trans e₂.extends'.steady).trans steady).inRecursiveFrame ▸ recursive)
    cases run with
    | @region _ _ _ _ _ _ m₁ m₂ _ _ entered inner ends finish address =>
      have same := (Exec.acts (ρ := []) finish).value_kept finishIn nofun (not_ne_iff.2 rfl)
      obtain ⟨old, resulting, -⟩ := inner.resulting ends answer.whole answer.body same
      exact ⟨result, body, _, m₁, old, .region recursive found new h answer,
        .first (.region entered .here),
        value ▸ resulting, fun _ inlined => absurd (recursive.symm.trans inlined) nofun⟩

end

namespace Leftover

/-- `f(x)` returns 5 when `x` is 1, and ends without a value otherwise. -/
def f : MethodDecl :=
  .named "f" ["x"]
    [.ofKind (.cond [.mk (.binary .eq (.var "x") (.number (.ofNat 1)))
      [.ofKind (.return (some (.number (.ofNat 5))))]] none)]

def program : Program := ⟨[], [f], []⟩

/-- What the call `f(0)` becomes at the start of a rule. -/
def called? (σ : Session) : Option (Element × UnitState) :=
  match run (expandCall (expander (expansionBound σ)) ⟨"f", f, false⟩ none [.ofNat 0])
    (σ.start "rule" .global) with
  | some (.ok x, t) => some (x, t)
  | _ => none

/-- `f(0)` yields what a `return` in it leaves, or what the slot of its result held before. -/
theorem call_result_of_f : ∃ σ x t, Session.new .default program = .ok σ ∧ called? σ = some (x, t) ∧
    ∃ c, Laid (σ.start "rule" .global) c t ∧ ∀ (h : Host) (m m' : Memory), Exec h [] c m .next m' →
      ∃ result body ρ m₁ old, CallsInto ⟨"f", f, false⟩ (σ.start "rule" .global) [] result body ρ ∧
        Arrives h [] c m ρ body m₁ ∧ Resulting h ρ result body m₁ old
          (Engine.eval (h.context m') x) ∧
          old = Engine.eval (h.context m) (result.get none) := by
  obtain ⟨σ, new, orderly, computed⟩ := exists_start .default program "rule" .global
    (fun σ => (called? σ).any fun r => r.2.deferred.isEmpty) rfl (by decide +kernel)
  obtain ⟨⟨x, t⟩, found, clean⟩ := (Option.any_eq_true _ _).1 computed
  have history : History .default program [] σ := .start new
  have lowered := found
  unfold called? at lowered
  split at lowered
  · next ran =>
    cases lowered
    obtain ⟨c, -, laid, yields⟩ := call_result orderly
      (σ.start_confined history.whole (fun _ _ _ known => known) _ _) ran (List.isEmpty_iff.1 clean)
    refine ⟨σ, x, t, new, found, c, laid, fun h m m' exec => ?_⟩
    obtain ⟨result, body, ρ, m₁, old, calls, arrives, resulting, before⟩ :=
      yields h [] m m' nofun nofun exec
    exact ⟨result, body, ρ, m₁, old, calls, arrives, resulting, before rfl rfl⟩
  · cases lowered

/-- A rule that calls `f` with 0, 1 and 0 and keeps what it yields. -/
def rule : List Stmt :=
  [.define "i" (some (.number (.ofNat 0))), .define "results" (some (.array [])),
    .ofKind (.while (.binary .lt (.var "i") (.number (.ofNat 3)))
      [.ofKind (.assign (.var "results") [.var "i"] .set
        (.callFunction "f" [.binary .mod (.var "i") (.number (.ofNat 2))])),
        .assignOp "i" .add (.number (.ofNat 1))])]

/-- Whether the rule ends with the numbers 0, 5 and 5 as what it kept. -/
def leftOver (output : UnitOutput) (e : Engine) : Bool :=
  output.symbols.any fun sym => sym.name == "results" &&
    decide ((e.global sym.slot).items.map Value.asNumber = [.ofNat 0, .ofNat 5, .ofNat 5])

/-- The first and the last call are `f(0)`, from the same place and with nothing stored that `f`
could read. The first one yields 0 and the last one 5, which the call in between has returned. -/
theorem result_left_over : ∃ σ output list e,
    FirstRun .default program rule (.new .default) σ output list e ∧ output.deferred = [] ∧
      leftOver output e = true := by
  obtain ⟨σ, output, list, e, first, h⟩ := exists_firstRun .default program rule (.new .default)
    (fun output _ e => output.deferred.isEmpty && leftOver output e) (by decide +kernel)
  simp only [Bool.and_eq_true, List.isEmpty_iff] at h
  exact ⟨σ, output, list, e, first, h⟩

end Leftover

end SkipCode
