import SkipCode.Proofs.Host
import SkipCode.Proofs.Positions

/-!
# Limits on the steps of a run

A list may lead back to its start for ever, so a run is sure to have an end only if its steps are
limited. Every action is counted before it is executed, the one that is refused because of the limit
as well. So the counter is the number of actions that were begun, but for a run that is cut short:
then it is one more, and over the limit.

* `Host.Stops`: how a run ends at a position, without any limit;
* `Host.stops_or_goes_on`: a run has its end within a number of actions, or it executes so many of
  them and has another one before it;
* `Host.Stops.runs`, `Host.Runs.cut_short`: what the engine answers and counts in the one case and
  in the other;
* `runList_steps`: both, for every list that is fit to run;
* `limit_exceeded_by_count`: a run that may execute two actions, executes them, and has counted
  three.
-/

namespace SkipCode.Engine

/-- The counter has no part in what an action does. -/
theorem step_counted (e : Engine) (steps ip len : Nat) (a : Action) :
    ({ e with steps := steps } : Engine).step ip len a =
      ((e.step ip len a).1, { (e.step ip len a).2 with steps := steps }) := by
  -- an action reads the engine through its context and writes through `store`, and neither has the
  -- counter in it
  have store (e : Engine) (key : StoreKey) (slot : UInt32) (v : Value) :
      ({ e with steps := steps } : Engine).store key slot v =
        ((e.store key slot v).1, { (e.store key slot v).2 with steps := steps }) := by
    unfold Engine.store
    dsimp only
    split <;> rfl
  have storeAt (key : StoreKey) (slot : UInt32) (i : Binary64) (v : Value) :
      ({ e with steps := steps } : Engine).storeAt key slot i v =
        ((e.storeAt key slot i v).1, { (e.storeAt key slot i v).2 with steps := steps }) := by
    unfold Engine.storeAt
    dsimp only
    split
    · rfl
    · split
      · rfl
      · exact store (e.write key slot .neutral) key slot _
  have assign (st : Store) (slot : UInt32) (index : Option Element) (value : Element) :
      ({ e with steps := steps } : Engine).assign st slot index value =
        ((e.assign st slot index value).1,
          { (e.assign st slot index value).2 with steps := steps }) := by
    have same : ({ e with steps := steps } : Engine).context = e.context := rfl
    unfold Engine.assign
    rw [same]
    rcases operands e.context st slot index value with f | ⟨key, v, _ | i⟩
    · rfl
    · exact store e key slot v
    · exact storeAt key slot i v
  have same : ({ e with steps := steps } : Engine).context = e.context := rfl
  cases a with
  | set st slot index value =>
    rw [step, step, assign]
    rcases e.assign st slot index value with ⟨_ | _, _⟩ <;> rfl
  | skipIf condition count =>
    rw [step, step, same]
    cases eval e.context condition <;> rfl
  | skip count => rfl
  | abort => rfl

namespace Host

variable {h : Host} {list : ActionList} {ip n begun : Nat} {m m' : Memory}
  {r : Except RuntimeError Outcome}

/-- A run that is at a position ends there, with an answer and a memory, whatever number of steps it
was allowed. It has begun to execute the action at that position, if there is one. -/
inductive Stops (h : Host) (list : ActionList) (ip : Nat) (m : Memory) :
    (begun : Nat) → Except RuntimeError Outcome → Memory → Prop
  | completed : list.get? ip = none → Stops h list ip m 0 (.ok .completed) m
  | aborted : list.get? ip = some .abort → Stops h list ip m 1 (.ok .aborted) m
  | failed {a : Action} {err : RuntimeError} {m' : Memory} : list.get? ip = some a →
      (h.engine m 0).step ip list.length a = (.error err, h.engine m' 0) →
        Stops h list ip m 1 (.error err) m'

/-- Only an `abort` ends a run without a failure. -/
theorem eq_abort_of_stop {e e' : Engine} {len : Nat} {a : Action}
    (done : e.step ip len a = (.ok .stop, e')) :
    a = .abort := by
  have not_taken (count : Option Int32) : taken ip len count ≠ .ok .stop := by
    unfold taken
    split <;> nofun
  cases a with
  | set st slot index value =>
    rw [Engine.step] at done
    split at done <;> cases done
  | skipIf condition count =>
    rw [Engine.step] at done
    split at done
    · have answer := (Prod.mk.inj done).1
      split at answer
      · exact absurd answer (not_taken count)
      · cases answer
    · cases done
  | skip count => exact absurd (Prod.mk.inj done).1 (not_taken count)
  | abort => rfl

/-- A run goes on from a position or ends there. -/
theorem step_or_stops (h : Host) (list : ActionList) (ip : Nat) (m : Memory) :
    (∃ ip' m', h.step list ip m = some (ip', m')) ∨ ∃ begun r m', h.Stops list ip m begun r m' := by
  cases found : list.get? ip with
  | none => exact Or.inr ⟨0, _, m, .completed found⟩
  | some a =>
    obtain ⟨ip', m', goes, -⟩ | ⟨-, stays⟩ := engine_step_iff h m 0 ip a found
    · exact Or.inl ⟨ip', m', goes⟩
    · obtain ⟨m', after, -⟩ := step_writes (h.engine m 0) ip list.length a
      rcases done : (h.engine m 0).step ip list.length a with ⟨err | next, e⟩
      · rw [done] at after
        obtain rfl : e = h.engine m' 0 := after
        exact Or.inr ⟨1, _, m', .failed found done⟩
      · cases next with
        | goto ip' => exact absurd done (stays ip' e)
        | stop =>
          obtain rfl := eq_abort_of_stop done
          exact Or.inr ⟨1, _, m, .aborted found⟩

theorem Runs.snoc {ip' ip'' : Nat} {m'' : Memory} (runs : Runs h list n ip m ip' m')
    (one : h.step list ip' m' = some (ip'', m'')) : Runs h list (n + 1) ip m ip'' m'' :=
  runs.trans (.next one (.refl _ _))

/-- A run has its end within a number of actions, or else it executes so many of them and has one
more before it. -/
theorem stops_or_goes_on (h : Host) (list : ActionList) (start : Nat) (m₀ : Memory) (limit : Nat) :
    (∃ n ip m begun r m', Runs h list n start m₀ ip m ∧ h.Stops list ip m begun r m' ∧
      n + begun ≤ limit) ∨
      ∃ ip m, Runs h list limit start m₀ ip m ∧ ip < list.length := by
  -- on the limit: a run that has not ended either ends at its position or goes on
  induction limit with
  | zero =>
    cases found : list.get? start with
    | none => exact Or.inl ⟨0, start, m₀, 0, _, m₀, .refl _ _, .completed found, Nat.le_refl 0⟩
    | some a => exact Or.inr ⟨start, m₀, .refl _ _, lt_of_get? found⟩
  | succ limit ih =>
    obtain ⟨n, ip, m, begun, r, m', runs, stops, within⟩ | ⟨ip, m, runs, inside⟩ := ih
    · exact Or.inl ⟨n, ip, m, begun, r, m', runs, stops, by omega⟩
    · obtain ⟨ip', m', goes⟩ | ⟨begun, r, m', stops⟩ := h.step_or_stops list ip m
      · have runs' := runs.snoc goes
        cases found : list.get? ip' with
        | none =>
          exact Or.inl ⟨limit + 1, ip', m', 0, _, m', runs', .completed found, Nat.le_refl _⟩
        | some a => exact Or.inr ⟨ip', m', runs', lt_of_get? found⟩
      · have one : begun ≤ 1 := by cases stops <;> omega
        exact Or.inl ⟨limit, ip, m, begun, r, m', runs, stops, by omega⟩

section

variable {start steps : Nat} {m₀ : Memory}

/-- A run that ends within its limit has counted the actions that it began. -/
theorem Stops.runs (stops : h.Stops list ip m begun r m') (runs : Runs h list n start m₀ ip m)
    (allowed : h.Allows (n + begun)) (fuel : Nat) :
    execute list (n + fuel + 1) start (h.engine m₀ 0) = some (r, h.engine m' (n + begun)) := by
  -- the last action is not among the steps so far, but its count is
  have before : h.Allows (0 + n) := fun limit known => by
    have := allowed limit known
    omega
  rw [Nat.add_assoc, execute_of_runs runs before, Nat.zero_add]
  cases stops with
  | completed past => exact execute_at_end _ fuel past
  | aborted found => exact execute_at_abort found allowed fuel
  | @failed a err m' found failed =>
    -- `Stops` tells how the action fails with the counter at zero
    have counted : (h.engine m (n + 1)).step ip list.length a =
      (.error err, h.engine m' (n + 1)) := by
      have same := step_counted (h.engine m 0) (n + 1) ip list.length a
      rwa [failed] at same
    rw [execute, found]
    dsimp only
    rw [countStep_eq allowed]
    dsimp only
    rw [counted]

/-- A run that comes to one more action than its limit allows is cut short before that action, which
is counted. -/
theorem Runs.cut_short {limit : Nat} (runs : Runs h list limit start m₀ ip m)
    (limited : h.config.maxSteps = some limit) (inside : ip < list.length) (fuel : Nat) :
    execute list (limit + fuel + 1) start (h.engine m₀ 0) =
      some (.error (.fault ip (.stepLimit limit)), h.engine m (limit + 1)) := by
  -- there is only the one limit, and the steps so far come up to it
  have allowed : h.Allows (0 + limit) := fun other known => by
    rw [limited] at known
    cases known
    omega
  obtain ⟨a, found⟩ : ∃ a, list.get? ip = some a := by
    rw [ActionList.get?_eq_toList]
    exact ⟨_, List.getElem?_eq_getElem (by simpa using inside)⟩
  have refused : (h.engine m limit).countStep ip =
      (.error (.fault ip (.stepLimit limit)), h.engine m (limit + 1)) := by
    unfold countStep
    dsimp only
    rw [show (h.engine m limit).config.maxSteps = some limit from limited]
    exact if_pos (Nat.lt_succ_self limit)
  rw [Nat.add_assoc, execute_of_runs runs allowed, Nat.zero_add, execute, found]
  dsimp only
  rw [refused]

end

end Host

/-- A run with a limit has an end. One that would end within the limit ends as it would, and has
counted the actions that it began. One that would execute more actions executes as many as it may,
is refused the next one, and has counted that as well. -/
theorem runList_steps {e : Engine} {list : ActionList} {limit : Nat} (actor : Int64)
    (limited : e.config.maxSteps = some limit) (check : list.check = .ok ()) :
    ((∃ n ip m begun r m', Host.Runs (e.started actor).host list n 0 e.memory ip m ∧
        (e.started actor).host.Stops list ip m begun r m' ∧ n + begun ≤ limit) ∨
      ∃ ip m, Host.Runs (e.started actor).host list limit 0 e.memory ip m ∧ ip < list.length) ∧
    (∀ n ip m begun r m', Host.Runs (e.started actor).host list n 0 e.memory ip m →
      (e.started actor).host.Stops list ip m begun r m' → n + begun ≤ limit →
        ∃ e', e.runList list actor = some (r, e') ∧ e'.memory = m' ∧ e'.steps = n + begun) ∧
    ∀ ip m, Host.Runs (e.started actor).host list limit 0 e.memory ip m → ip < list.length →
      ∃ e', e.runList list actor = some (.error (.fault ip (.stepLimit limit)), e') ∧
        e'.memory = m ∧
        e'.steps = limit + 1 := by
  -- a run has one look at the list more than it has actions, for the end
  have ran : e.runList list actor = execute list (limit + 1) 0
    ((e.started actor).host.engine e.memory 0) := by
    rw [runList, check, fuel, limited]
    rfl
  refine ⟨Host.stops_or_goes_on _ list 0 e.memory limit, ?_, ?_⟩
  · intro n ip m begun r m' runs stops within
    have allowed : (e.started actor).host.Allows (n + begun) := fun other known => by
      cases limited.symm.trans known
      exact within
    have done := stops.runs runs allowed (limit - n)
    rw [show n + (limit - n) + 1 = limit + 1 by omega] at done
    exact ⟨_, ran.trans done, rfl, rfl⟩
  · intro ip m runs inside
    exact ⟨_, ran.trans (runs.cut_short limited inside 0), rfl, rfl⟩

/-- An engine whose runs may execute two actions. -/
def twoSteps : Engine := new { Config.default with maxSteps := some 2 }

/-- Three writes. -/
def threeWrites : ActionList :=
  .ofList [.set .global 0 none (.ofNat 1), .set .global 1 none (.ofNat 2),
    .set .global 2 none (.ofNat 3)]

/-- The third write is refused, and the first two are done. A run that starts with an `abort` ends
there. -/
theorem runList_steps_three_writes :
    (∃ e', twoSteps.runList threeWrites 1 = some (.error (.fault 2 (.stepLimit 2)), e') ∧
      e'.global 0 = .number (.ofNat 1) ∧ e'.global 1 = .number (.ofNat 2) ∧ e'.global 2 = .neutral ∧
      e'.steps = 3) ∧
    ∃ e', twoSteps.runList (.ofList [.abort]) 1 = some (.ok .aborted, e') ∧ e'.steps = 1 := by
  constructor
  · have limited : twoSteps.config.maxSteps = some 2 := rfl
    have check : threeWrites.check = .ok () := rfl
    obtain ⟨e', ran, memory, steps⟩ :=
      (runList_steps 1 limited check).2.2 2 _ (.next rfl (.next rfl (.refl _ _))) (by decide)
    refine ⟨e', ran, ?_, ?_, ?_, steps⟩ <;>
      · rw [global, memory]
        rfl
  · have limited : twoSteps.config.maxSteps = some 2 := rfl
    have check : ActionList.check (.ofList [.abort]) = .ok () := rfl
    obtain ⟨e', ran, -, steps⟩ :=
      (runList_steps 1 limited check).2.1 0 0 _ 1 _ _ (.refl _ _) (.aborted rfl) (by decide)
    exact ⟨e', ran, steps⟩

/-- The counter of a run that is cut short is over its limit. -/
theorem limit_exceeded_by_count :
    ¬ ∀ (e e' : Engine) (list : ActionList) (actor : Int64) (limit : Nat)
        (r : Except RuntimeError Outcome),
      e.config.maxSteps = some limit → list.check = .ok () → e.runList list actor = some (r, e') →
        e'.steps ≤ limit := by
  intro claim
  have within := claim twoSteps _ threeWrites 1 2 _ rfl rfl rfl
  exact absurd within (by decide)

end SkipCode.Engine
