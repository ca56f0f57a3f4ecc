import SkipCode.Proofs.Access
import SkipCode.Proofs.Location

/-!
# Actions that fail

A run that fails does so at one action, and what the actions before it have left in the stores stays
there. There is one exception. A write of an item takes the array out of its slot before the last
check, which is on the length of the array with the item written; if the array was too long before,
as one that was written from outside may be, the check fails and the slot stays empty.

* `Engine.Progress`: the steps that a run makes before it fails;
* `Engine.step_failed`: what an action that fails leaves in every slot;
* `Engine.Bounded.tick`: a step leaves no array longer than the limit, if none was;
* `Engine.failed_run`: what a run that fails leaves in every slot, and that nothing is lost if no
  array was too long when it began;
* `Engine.array_lost`: a run that loses an array.
-/

namespace SkipCode.Engine

variable {e e' : Engine} {list : ActionList} {ip len : Nat} {a : Action} {key : StoreKey}
  {slot : UInt32} {err : RuntimeError}

/-! ## One action -/

/-- An action that writes an item of an array which was longer than the limit before. -/
def Drops (e : Engine) (a : Action) (key : StoreKey) (slot : UInt32) : Prop :=
  ∃ st index value v i, a = .set st slot (some index) value ∧
    operands e.context st slot (some index) value = .ok (key, v, some i) ∧
    (i.less 0 || !i.isFinite) = false ∧ i.toIndex < e.config.maxArrayLength ∧
    e.config.maxArrayLength < (e.memory.get key slot).items.length

/-- An action that fails because it writes an item of an array that is too long. -/
def Loses (e : Engine) (ip : Nat) (a : Action) (err : RuntimeError) (key : StoreKey)
    (slot : UInt32) :
    Prop :=
  e.Drops a key slot ∧
    err = .fault ip (.arrayTooLong (e.memory.get key slot).items.length e.config.maxArrayLength)

/-- What a failed action leaves in a slot. -/
def Leaves (e : Engine) (ip : Nat) (a : Action) (err : RuntimeError) (e' : Engine) : Prop :=
  ∀ key slot, (e.Loses ip a err key slot → e'.memory.get key slot = .neutral) ∧
    (¬ e.Loses ip a err key slot → e'.memory.get key slot = e.memory.get key slot)

/-- A store that fails was of an array that is too long, and changes nothing. -/
theorem store_failed {v : Value} {f : Fault} (h : e.store key slot v = (.error f, e')) :
    e.config.maxArrayLength < v.items.length ∧
      f = .arrayTooLong v.items.length e.config.maxArrayLength ∧ e' = e := by
  unfold store at h
  split at h
  · next long =>
    cases h
    exact ⟨long, rfl, rfl⟩
  · cases h

/-- A write of an item that fails leaves all slots alone, or it has emptied the one with the array.
-/
theorem storeAt_failed {i : Binary64} {v : Value} {f : Fault}
    (h : e.storeAt key slot i v = (.error f, e')) :
    (e' = e ∧ ((i.less 0 || !i.isFinite) = true ∨ e.config.maxArrayLength ≤ i.toIndex)) ∨
      (i.less 0 || !i.isFinite) = false ∧ i.toIndex < e.config.maxArrayLength ∧
        e.config.maxArrayLength < (e.memory.get key slot).items.length ∧
        f = .arrayTooLong (e.memory.get key slot).items.length e.config.maxArrayLength ∧
        e' = e.write key slot .neutral := by
  unfold storeAt at h
  dsimp only at h
  split at h
  · next bad =>
    cases h
    exact Or.inl ⟨rfl, Or.inl bad⟩
  · next good =>
    split at h
    · next far =>
      cases h
      exact Or.inl ⟨rfl, Or.inr far⟩
    · next near =>
      obtain ⟨long, rfl, rfl⟩ := store_failed h
      have length := length_setItem (e.memory.get key slot).items i.toIndex v
      change e.config.maxArrayLength < (setItem _ _ _).length at long
      -- the item is inside the limit, so the array was too long without it
      have same : (setItem (e.memory.get key slot).items i.toIndex v).length =
          (e.memory.get key slot).items.length := by omega
      refine Or.inr ⟨by simpa using good, by omega, by omega, ?_, rfl⟩
      rw [Value.items_array, same]
      rfl

/-- Where nothing is lost a failure leaves the engine as it was. -/
theorem leaves_same (quiet : ∀ key slot, ¬ e.Loses ip a err key slot) : e.Leaves ip a err e :=
  fun key slot => ⟨fun lost => absurd lost (quiet key slot), fun _ => rfl⟩

/-- Only a write can lose anything. -/
theorem leaves_of_no_write (skips : ∀ st slot index value, a ≠ .set st slot index value) :
    e.Leaves ip a err e := by
  refine leaves_same fun key slot lost => ?_
  obtain ⟨⟨st, index, value, v, i, same, -⟩, -⟩ := lost
  exact skips st slot (some index) value same

/-- A write without an index has none among its operands. -/
theorem operands_none {c : Context} {st : Store} {value : Element}
    {r : StoreKey × Value × Option Binary64} (h : operands c st slot none value = .ok r) :
    r.2.2 = none := by
  obtain ⟨key, -, h⟩ := except_bind_ok.1 h
  obtain ⟨v, -, h⟩ := except_bind_ok.1 h
  obtain ⟨i, none', h⟩ := except_bind_ok.1 h
  obtain ⟨_, -, h⟩ := except_bind_ok.1 h
  cases none'
  cases h
  rfl

/-- An assignment that fails leaves the engine as the failure says. -/
theorem assign_failed {st : Store} {index : Option Element} {value : Element} {f : Fault}
    (h : e.assign st slot index value = (.error f, e')) :
    e.Leaves ip (.set st slot index value) (.fault ip f) e' := by
  unfold assign at h
  split at h
  · next f' refused =>
    cases h
    refine leaves_same fun key' slot' lost => ?_
    obtain ⟨⟨st', index', value', v, i, same, found, -⟩, -⟩ := lost
    cases same
    rw [refused] at found
    cases found
  · next key v found =>
    obtain ⟨-, -, rfl⟩ := store_failed h
    -- a value that is written whole is checked before the slot is touched
    refine leaves_same fun key' slot' lost => ?_
    obtain ⟨⟨st', index', value', v', i, same, found', -⟩, -⟩ := lost
    cases same
    rw [found] at found'
    cases found'
  · next key v i found =>
    obtain ⟨rfl, early⟩ | ⟨good, near, long, rfl, rfl⟩ := storeAt_failed h
    · -- the position was refused, and the slot is not touched before that
      refine leaves_same fun key' slot' lost => ?_
      obtain ⟨⟨st', index', value', v', i', same, found', good, near, -⟩, -⟩ := lost
      cases same
      rw [found] at found'
      cases found'
      obtain bad | far := early
      · exact Bool.false_ne_true (good.symm.trans bad)
      · omega
    · -- the length was refused after the array had been taken out
      refine fun key' slot' => ⟨fun lost => ?_, fun kept => ?_⟩
      · obtain ⟨⟨st', index', value', v', i', same, found', -⟩, -⟩ := lost
        cases same
        rw [found] at found'
        cases found'
        rw [write, Memory.get_set, if_pos ⟨rfl, rfl⟩]
      · rw [write, Memory.get_set, if_neg]
        rintro ⟨rfl, rfl⟩
        cases index with
        | none => cases operands_none found
        | some index => exact kept ⟨⟨st, index, value, v, i, rfl, found, good, near, long⟩, rfl⟩

/-- So does a step. -/
theorem step_failed (h : e.step ip len a = (.error err, e')) : e.Leaves ip a err e' := by
  cases a with
  | set st slot index value =>
    rw [step] at h
    split at h
    · cases h
    · next f e₁ failed =>
      cases h
      exact assign_failed failed
  | skipIf condition count =>
    obtain rfl : e' = e := by
      rw [step] at h
      split at h <;> exact (congrArg Prod.snd h).symm
    exact leaves_of_no_write fun st slot index value same => by cases same
  | skip count =>
    obtain rfl : e' = e := (congrArg Prod.snd h).symm
    exact leaves_of_no_write fun st slot index value same => by cases same
  | abort => cases h

/-- A step that is refused because of the limit on steps loses nothing either. -/
theorem tick_failed (h : e.tick list ip = some (.error err, e')) :
    ∃ a, list.get? ip = some a ∧ e.Leaves ip a err e' := by
  obtain ⟨a, found, ⟨limit, same, rfl⟩ | h⟩ := tick_cases h
  · cases same
    refine ⟨a, found, fun key slot => ⟨fun lost => ?_, fun _ => rfl⟩⟩
    cases lost.2
  · exact ⟨a, found, step_failed (e := { e with steps := e.steps + 1 }) h⟩

/-! ## Arrays within the limit -/

/-- No array in a slot is longer than the limit. -/
def Bounded (e : Engine) : Prop :=
  ∀ key slot, (e.memory.get key slot).items.length ≤ e.config.maxArrayLength

/-- A write of a short array keeps all arrays short. -/
theorem Bounded.write {v : Value} (bounded : e.Bounded)
    (short : v.items.length ≤ e.config.maxArrayLength) : (e.write key slot v).Bounded := by
  intro other s
  rw [Engine.write, Memory.get_set]
  split
  · exact short
  · exact bounded other s

/-- So does a store, which refuses the others. -/
theorem Bounded.store {v : Value} (bounded : e.Bounded) : (e.store key slot v).2.Bounded := by
  unfold Engine.store
  split
  · exact bounded
  · next short => exact bounded.write (Nat.not_lt.1 short)

/-- So does an assignment. -/
theorem Bounded.assign {st : Store} {index : Option Element} {value : Element}
    (bounded : e.Bounded) :
    (e.assign st slot index value).2.Bounded := by
  unfold Engine.assign
  split
  · exact bounded
  · exact bounded.store
  · unfold storeAt
    dsimp only
    split
    · exact bounded
    · split
      · exact bounded
      · -- an empty slot is within every limit, also if the write fails then
        exact (bounded.write (Nat.zero_le _)).store

/-- So does a step. -/
theorem Bounded.step (bounded : e.Bounded) : (e.step ip len a).2.Bounded := by
  cases a with
  | set st slot index value =>
    have kept : (e.assign st slot index value).2.Bounded := bounded.assign
    rw [Engine.step]
    split
    · next same => rwa [same] at kept
    · next same => rwa [same] at kept
  | skipIf condition count =>
    rw [Engine.step]
    split <;> exact bounded
  | skip count => exact bounded
  | abort => exact bounded

/-- So does a step together with its count. -/
theorem Bounded.tick {r : Except RuntimeError Next} (bounded : e.Bounded)
    (h : e.tick list ip = some (r, e')) : e'.Bounded := by
  obtain ⟨a, -, ⟨limit, -, rfl⟩ | h⟩ := tick_cases h
  · exact bounded
  · have kept : (Engine.step { e with steps := e.steps + 1 } ip list.length a).2.Bounded :=
      Bounded.step bounded
    rwa [h] at kept

/-- Where all arrays are short nothing is lost. -/
theorem Bounded.not_loses (bounded : e.Bounded) : ¬ e.Loses ip a err key slot := by
  rintro ⟨⟨st, index, value, v, i, -, -, -, -, long⟩, -⟩
  exact Nat.not_lt.2 (bounded key slot) long

/-! ## Runs -/

/-- The steps that a run makes, from where it is to where it comes to. -/
inductive Progress (list : ActionList) : Nat → Engine → Nat → Engine → Prop
  | start (ip : Nat) (e : Engine) : Progress list ip e ip e
  | step {ip ip' ip'' : Nat} {e e' e'' : Engine} : e.tick list ip = some (.ok (.goto ip'), e') →
      Progress list ip' e' ip'' e'' → Progress list ip e ip'' e''

/-- Arrays stay short along a walk. -/
theorem Progress.bounded {ip' : Nat} (progress : Progress list ip e ip' e') (bounded : e.Bounded) :
    e'.Bounded := by
  induction progress with
  | start => exact bounded
  | step done _ ih => exact ih (bounded.tick done)

/-- A run that fails makes steps up to one that fails. -/
theorem exists_failing {fuel : Nat} (failed : execute list fuel ip e = some (.error err, e')) :
    ∃ ip₁ e₁, Progress list ip e ip₁ e₁ ∧ e₁.tick list ip₁ = some (.error err, e') := by
  induction fuel generalizing ip e with
  | zero => cases failed
  | succ fuel ih =>
    rw [execute_succ] at failed
    split at failed
    · cases failed
    · next step =>
      cases failed
      exact ⟨ip, e, .start ip e, step⟩
    · cases failed
    · next step =>
      obtain ⟨ip₁, e₁, progress, last⟩ := ih failed
      exact ⟨ip₁, e₁, .step step progress, last⟩

/-- What a run leaves that fails. A list that is refused changes nothing. Else there are actions
that were executed and one that failed. The slots hold what the former have left in them, but for
the one slot whose array the latter found to be too long; there is none if no array was too long
when the run began. -/
theorem failed_run {runner : Int64} (failed : e.runList list runner = some (.error err, e')) :
    (∃ flaw, list.check = .error flaw ∧ err = .malformed flaw ∧ e' = e) ∨
      ∃ ip a e₁, Progress list 0 { e with actor := runner, steps := 0 } ip e₁ ∧
        list.get? ip = some a ∧ e₁.tick list ip = some (.error err, e') ∧ e₁.Leaves ip a err e' ∧
        (e.Bounded → ∀ key slot, e'.memory.get key slot = e₁.memory.get key slot) := by
  unfold runList at failed
  split at failed
  · next flaw refused =>
    cases failed
    exact Or.inl ⟨flaw, refused, rfl, rfl⟩
  · obtain ⟨ip, e₁, progress, last⟩ := exists_failing failed
    obtain ⟨a, found, leaves⟩ := tick_failed last
    refine Or.inr ⟨ip, a, e₁, progress, found, last, leaves, fun bounded key slot => ?_⟩
    have now : e₁.Bounded := progress.bounded bounded
    exact (leaves key slot).2 now.not_loses

/-- An engine whose shared store was given an array that is longer than its limit. -/
def crowded : Engine :=
  (new { Config.default with maxArrayLength := 2 }).setGlobal 0
    (.array [.neutral, .neutral, .neutral])

/-- A write of the first item. -/
def rewriteFirst : ActionList := .ofList [.set .global 0 (some (.ofNat 0)) (.ofNat 9)]

/-- A run over an array that was too long before loses it. -/
theorem failed_run_crowded :
    ∃ e' ip a e₁, crowded.runList rewriteFirst 1 =
      some (.error (.fault 0 (.arrayTooLong 3 2)), e') ∧
      Progress rewriteFirst 0 { crowded with actor := 1, steps := 0 } ip e₁ ∧
      rewriteFirst.get? ip = some a ∧ e₁.Leaves ip a (.fault 0 (.arrayTooLong 3 2)) e' := by
  have failed : crowded.runList rewriteFirst 1 = some (.error (.fault 0 (.arrayTooLong 3 2)),
    { crowded.write .global 0 .neutral with actor := 1, steps := 1 }) := rfl
  obtain ⟨flaw, refused, -⟩ | ⟨ip, a, e₁, progress, found, -, leaves, -⟩ := failed_run failed
  · cases refused
  · exact ⟨_, ip, a, e₁, failed, progress, found, leaves⟩

/-- The array is gone after the write was refused. -/
theorem array_lost :
    ¬ ∀ (e e' : Engine) (list : ActionList) (runner : Int64) (err : RuntimeError) (ip : Nat)
        (e₁ : Engine), e.runList list runner = some (.error err, e') →
      Progress list 0 { e with actor := runner, steps := 0 } ip e₁ →
      e₁.tick list ip = some (.error err, e') →
      ∀ key slot, e'.memory.get key slot = e₁.memory.get key slot := by
  intro claim
  have same := claim crowded _ rewriteFirst 1 _ 0 _ rfl (.start _ _) rfl .global 0
  cases same

end SkipCode.Engine
