import SkipCode.Engine.Run

/-!
# Runs as steps on memory

While a list runs, the limits of the engine and the actor stay what they are, and the number of
steps decides only whether the run is cut short. What is left is the position and the memory. A
`Host` is what stays, and its `step` is the engine's step on what is left.

* `execute_of_runs`: where its limit on steps allows it the engine does what the steps say;
* `runs_of_execute`: a run that completes is made of such steps, with or without a limit.
-/

namespace SkipCode.Engine

/-- What a run does not change. -/
structure Host where
  config : Config
  actor : Int64

def host (e : Engine) : Host := ⟨e.config, e.actor⟩

namespace Host

def context (h : Host) (m : Memory) : Context := ⟨h.config, m, h.actor⟩

def engine (h : Host) (m : Memory) (steps : Nat) : Engine := ⟨h.config, m, h.actor, steps⟩

/-- Whether a run may take a number of steps. -/
def Allows (h : Host) (steps : Nat) :
    Prop := ∀ limit, h.config.maxSteps = some limit → steps ≤ limit

/-- The memory after a value is put into a slot, if it is not too long an array. -/
def store (h : Host) (m : Memory) (key : StoreKey) (slot : UInt32) (v : Value) : Option Memory :=
  if h.config.maxArrayLength < v.items.length then none else some (m.set key slot v)

/-- The memory after a value is put at an index of the array in a slot. -/
def storeAt (h : Host) (m : Memory) (key : StoreKey) (slot : UInt32) (index : Binary64)
    (v : Value) : Option Memory :=
  if index.less 0 || !index.isFinite then none
  else if h.config.maxArrayLength ≤ index.toIndex then none
  else
    h.store (m.set key slot .neutral) key slot
      (.array (setItem (m.get key slot).items index.toIndex v))

/-- The memory after a write. -/
def write (h : Host) (m : Memory) (st : Store) (slot : UInt32) (index : Option Element)
    (value : Element) : Option Memory :=
  match operands (h.context m) st slot index value with
  | .error _ => none
  | .ok (key, value, none) => h.store m key slot value
  | .ok (key, value, some index) => h.storeAt m key slot index value

/-- The memory after an action that is a write. -/
def act (h : Host) (m : Memory) : Action → Option Memory
  | .set st slot index value => h.write m st slot index value
  | _ => none

/-- The memory after several writes. -/
def acts (h : Host) : Memory → List Action → Option Memory
  | m, [] => some m
  | m, a :: rest => (h.act m a).bind fun m => h.acts m rest

/-- Whether a guard lets its skip be taken. -/
def guard (h : Host) (m : Memory) (condition : Element) : Option Bool :=
  match eval (h.context m) condition with
  | .ok v => some v.truthy
  | .error _ => none

/-- One step of a run, if it neither ends there nor fails. -/
def step (h : Host) (list : ActionList) (ip : Nat) (m : Memory) : Option (Nat × Memory) :=
  match list.get? ip with
  | none => none
  | some (.set st slot index value) => (h.write m st slot index value).map fun m => (ip + 1, m)
  | some (.skipIf condition count) =>
    match h.guard m condition with
    | some true => (count.bind fun c => Action.skipTarget? ip c list.length).map fun t => (t, m)
    | some false => some (ip + 1, m)
    | none => none
  | some (.skip count) =>
    (count.bind fun c => Action.skipTarget? ip c list.length).map fun t => (t, m)
  | some .abort => none

/-- A number of steps. -/
inductive Runs (h : Host) (list : ActionList) : Nat → Nat → Memory → Nat → Memory → Prop
  | refl (ip : Nat) (m : Memory) : Runs h list 0 ip m ip m
  | next {n ip ip' ip'' : Nat} {m m' m'' : Memory} :
      h.step list ip m = some (ip', m') → Runs h list n ip' m' ip'' m'' →
      Runs h list (n + 1) ip m ip'' m''

/-- Some number of steps. -/
def Reaches (h : Host) (list : ActionList) (ip : Nat) (m : Memory) (ip' : Nat) (m' : Memory) :
    Prop :=
  ∃ n, Runs h list n ip m ip' m'

variable {h : Host} {list : ActionList} {n k ip ip' ip'' : Nat} {m m' m'' : Memory}

theorem Runs.trans (first : Runs h list n ip m ip' m') (second : Runs h list k ip' m' ip'' m'') :
    Runs h list (n + k) ip m ip'' m'' := by
  induction first with
  | refl => rwa [Nat.zero_add]
  | @next n _ _ _ _ _ _ one _ ih =>
    rw [show n + 1 + k = n + k + 1 by omega]
    exact .next one (ih second)

theorem acts_one {a : Action} : h.acts m [a] = some m' ↔ h.act m a = some m' := by
  rw [acts, Option.bind_eq_some_iff]
  exact ⟨fun ⟨_, done, e⟩ => by cases e; exact done, fun done => ⟨m', done, rfl⟩⟩

theorem acts_append_eq (h : Host) (m : Memory) (first second : List Action) :
    h.acts m (first ++ second) = (h.acts m first).bind fun m => h.acts m second := by
  induction first generalizing m with
  | nil => rfl
  | cons a rest ih => rw [List.cons_append, acts, acts, Option.bind_assoc, funext fun m => ih m]

theorem Reaches.refl (ip : Nat) (m : Memory) : Reaches h list ip m ip m := ⟨0, .refl ip m⟩

theorem Reaches.trans (first : Reaches h list ip m ip' m')
    (second : Reaches h list ip' m' ip'' m'') : Reaches h list ip m ip'' m'' := by
  obtain ⟨n, hn⟩ := first
  obtain ⟨k, hk⟩ := second
  exact ⟨n + k, hn.trans hk⟩

theorem Reaches.step (one : h.step list ip m = some (ip', m')) : Reaches h list ip m ip' m' :=
  ⟨1, .next one (.refl _ _)⟩

/-- A run that comes to an end goes on from every position it can reach. -/
theorem Runs.rest (whole : Runs h list n ip m ip' m') (stop : h.step list ip' m' = none)
    (part : Runs h list k ip m ip'' m'') : k ≤ n ∧ Runs h list (n - k) ip'' m'' ip' m' := by
  induction part generalizing n with
  | refl => exact ⟨Nat.zero_le _, whole⟩
  | next one _ ih =>
    cases whole with
    | refl =>
      rw [one] at stop
      cases stop
    | next one' whole =>
      rw [one] at one'
      cases one'
      obtain ⟨le, rest⟩ := ih whole
      refine ⟨by omega, ?_⟩
      rwa [Nat.add_sub_add_right]

/-! ## The engine takes these steps -/

theorem store_eq (h : Host) (m : Memory) (steps : Nat) (key : StoreKey) (slot : UInt32)
    (v : Value) :
    (∃ m', h.store m key slot v = some m' ∧
        (h.engine m steps).store key slot v = (.ok (), h.engine m' steps)) ∨
      (h.store m key slot v = none ∧
        ∃ f e, (h.engine m steps).store key slot v = (.error f, e)) := by
  unfold Host.store Engine.store
  by_cases hv : h.config.maxArrayLength < v.items.length
  · right
    exact ⟨if_pos hv, _, _, if_pos hv⟩
  · left
    exact ⟨_, if_neg hv, if_neg hv⟩

theorem storeAt_eq (h : Host) (m : Memory) (steps : Nat) (key : StoreKey) (slot : UInt32)
    (index : Binary64) (v : Value) :
    (∃ m', h.storeAt m key slot index v = some m' ∧
        (h.engine m steps).storeAt key slot index v = (.ok (), h.engine m' steps)) ∨
      (h.storeAt m key slot index v = none ∧
        ∃ f e, (h.engine m steps).storeAt key slot index v = (.error f, e)) := by
  unfold Host.storeAt Engine.storeAt
  -- both refuse the same indices, and then store the same array
  by_cases hi : (index.less 0 || !index.isFinite) = true
  · right
    exact ⟨if_pos hi, _, _, if_pos hi⟩
  rw [if_neg hi, if_neg hi]
  by_cases hl : h.config.maxArrayLength ≤ index.toIndex
  · right
    exact ⟨if_pos hl, _, _, if_pos hl⟩
  · simp only [if_neg hl, show (h.engine m steps).config.maxArrayLength =
      h.config.maxArrayLength from rfl]
    exact store_eq h (m.set key slot .neutral) steps key slot _

theorem assign_eq (h : Host) (m : Memory) (steps : Nat) (st : Store) (slot : UInt32)
    (index : Option Element) (value : Element) :
    (∃ m', h.write m st slot index value = some m' ∧
        (h.engine m steps).assign st slot index value = (.ok (), h.engine m' steps)) ∨
      (h.write m st slot index value = none ∧
        ∃ f e, (h.engine m steps).assign st slot index value = (.error f, e)) := by
  have hc : (h.engine m steps).context = h.context m := rfl
  unfold Host.write Engine.assign
  rw [hc]
  rcases operands (h.context m) st slot index value with f | ⟨key, v, index⟩
  · right
    exact ⟨rfl, _, _, rfl⟩
  · cases index with
    | none => exact store_eq h m steps key slot v
    | some index => exact storeAt_eq h m steps key slot index v

/-- What the engine does at an action, when it goes on. -/
theorem engine_step_iff (h : Host) (m : Memory) (steps ip : Nat) (a : Action)
    (found : list.get? ip = some a) :
    (∃ ip' m', h.step list ip m = some (ip', m') ∧
        (h.engine m steps).step ip list.length a = (.ok (.goto ip'), h.engine m' steps)) ∨
      (h.step list ip m = none ∧
        ∀ ip' e, (h.engine m steps).step ip list.length a ≠ (.ok (.goto ip'), e)) := by
  have hc : (h.engine m steps).context = h.context m := rfl
  -- a skip goes on where its target is a position, and fails where it is none
  have skip (count : Option Int32) :
      (∃ t, (count.bind fun c => Action.skipTarget? ip c list.length) = some t ∧
        taken ip list.length count = .ok (.goto t)) ∨
      ((count.bind fun c => Action.skipTarget? ip c list.length) = none ∧
        ∀ t, taken ip list.length count ≠ .ok (.goto t)) := by
    unfold taken
    cases (count.bind fun c => Action.skipTarget? ip c list.length) with
    | none => exact Or.inr ⟨rfl, fun t e => by cases e⟩
    | some t => exact Or.inl ⟨t, rfl, rfl⟩
  unfold Host.step Engine.step
  rw [found]
  cases a with
  | set st slot index value =>
    rcases assign_eq h m steps st slot index value with ⟨m', hw, ha⟩ | ⟨hw, f, e, ha⟩
    · left
      exact ⟨ip + 1, m', by simp [hw], by simp [ha]⟩
    · right
      exact ⟨by simp [hw], fun ip' e' => by simp [ha]⟩
  | skipIf condition count =>
    simp only [hc, guard]
    cases he : eval (h.context m) condition with
    | error f => exact Or.inr ⟨rfl, fun ip' e' => by simp⟩
    | ok v =>
      cases hv : v.truthy with
      | false => exact Or.inl ⟨ip + 1, m, by simp [hv], by simp [hv]⟩
      | true =>
        rcases skip count with ⟨t, ht, hk⟩ | ⟨ht, hk⟩
        · exact Or.inl ⟨t, m, by simp [hv, ht], by simp [hv, hk]⟩
        · refine Or.inr ⟨by simp [hv, ht], fun ip' e' eq => hk ip' ?_⟩
          simpa [hv] using congrArg Prod.fst eq
  | skip count =>
    rcases skip count with ⟨t, ht, hk⟩ | ⟨ht, hk⟩
    · exact Or.inl ⟨t, m, by simp [ht], by simp [hk]⟩
    · refine Or.inr ⟨by simp [ht], fun ip' e' eq => hk ip' ?_⟩
      simpa using congrArg Prod.fst eq
  | abort => exact Or.inr ⟨rfl, fun ip' e' eq => by cases eq⟩

/-- The end of a list is where a run completes. -/
theorem execute_at_end (e : Engine) (fuel : Nat) (past : list.get? ip = none) :
    execute list (fuel + 1) ip e = some (.ok .completed, e) := by
  simp [execute, past]

/-- A step that is allowed is counted and nothing else. -/
theorem countStep_eq {steps : Nat} (allowed : h.Allows (steps + 1)) (ip : Nat) :
    (h.engine m steps).countStep ip = (.ok (), h.engine m (steps + 1)) := by
  unfold countStep
  dsimp only
  split
  · next limit known =>
    exact if_neg (Nat.not_lt.2 (allowed limit known))
  · rfl

/-- The engine takes every step that there is, as long as its limit allows it. -/
theorem execute_of_runs (runs : Runs h list n ip m ip' m') {steps : Nat}
    (allowed : h.Allows (steps + n)) (fuel : Nat) :
    execute list (n + fuel) ip (h.engine m steps) =
      execute list fuel ip' (h.engine m' (steps + n)) := by
  -- on the steps, each of which is counted and allowed
  induction runs generalizing steps with
  | refl => simp
  | @next n ip ip' ip'' m m' m'' one _ ih =>
    obtain ⟨a, ha⟩ : ∃ a, list.get? ip = some a := by
      cases ha : list.get? ip with
      | none => simp [Host.step, ha] at one
      | some a => exact ⟨a, rfl⟩
    have count : (h.engine m steps).countStep ip = (.ok (), h.engine m (steps + 1)) :=
      countStep_eq (fun limit known => Nat.le_trans (by omega) (allowed limit known)) ip
    rw [show n + 1 + fuel = n + fuel + 1 by omega, execute]
    simp only [ha, count]
    rcases engine_step_iff h m (steps + 1) ip a ha with ⟨ip₁, m₁, hs, he⟩ | ⟨hs, -⟩
    · rw [one] at hs
      cases hs
      have next : steps + 1 + n = steps + (n + 1) := by omega
      simp only [he, ih (next ▸ allowed), next]
    · rw [one] at hs
      cases hs

/-- An `abort` is where a run is aborted. -/
theorem execute_at_abort (found : list.get? ip = some .abort) {steps : Nat}
    (allowed : h.Allows (steps + 1)) (fuel : Nat) :
    execute list (fuel + 1) ip (h.engine m steps) =
      some (.ok .aborted, h.engine m (steps + 1)) := by
  rw [execute, found]
  dsimp only
  rw [countStep_eq allowed]
  rfl

/-- A run that completes is made of steps and stops behind the list. -/
theorem runs_of_execute {fuel steps : Nat} {e : Engine}
    (done : execute list fuel ip (h.engine m steps) = some (.ok .completed, e)) :
    ∃ n ip' m' steps', Runs h list n ip m ip' m' ∧ list.get? ip' = none ∧
      e = h.engine m' steps' := by
  -- on the fuel: each round took a step, or was the last one
  induction fuel generalizing ip m steps with
  | zero => cases done
  | succ fuel ih =>
    rw [execute] at done
    cases ha : list.get? ip with
    | none =>
      simp only [ha, Option.some.injEq, Prod.mk.injEq, true_and] at done
      exact ⟨0, ip, m, steps, .refl _ _, ha, done.symm⟩
    | some a =>
      simp only [ha] at done
      have count : (h.engine m steps).countStep ip = (.ok (), h.engine m (steps + 1)) ∨
          ∃ err e, (h.engine m steps).countStep ip = (.error err, e) := by
        simp only [countStep, engine]
        cases h.config.maxSteps with
        | none => exact Or.inl rfl
        | some limit =>
          by_cases hl : limit < steps + 1
          · exact Or.inr ⟨_, _, if_pos hl⟩
          · exact Or.inl (if_neg hl)
      rcases count with hk | ⟨err, e', hk⟩
      · simp only [hk] at done
        rcases engine_step_iff h m (steps + 1) ip a ha with ⟨ip₁, m₁, hs, he⟩ | ⟨-, he⟩
        · simp only [he] at done
          obtain ⟨n, ip', m', steps', runs, last, rfl⟩ := ih done
          exact ⟨n + 1, ip', m', steps', .next hs runs, last, rfl⟩
        · -- an action that does not go on does not complete the run
          exfalso
          split at done
          · cases done
          · cases done
          · next ip₁ e₁ h₁ => exact he ip₁ e₁ h₁
      · simp only [hk] at done
        cases done

end Host

end SkipCode.Engine
