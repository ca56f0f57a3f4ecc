import SkipCode.Proofs.Positions
import SkipCode.Proofs.Rejections

/-!
# Runs under another limit on arrays

The length of an array is compared with the limit where a value is stored, and nowhere else. So a
run that comes to its end does so under every limit that its own arrays do not come to
(`runList_atLimit`): under a higher one, whatever its arrays are, and under a lower one if they are
no longer than that.

A length above `2 ^ 53` is not always the number that an action computes for it, so what is said of
the items of arrays takes a limit of `2 ^ 53`. It carries over to engines with a higher limit or
with none, for runs whose arrays are that short.
-/

namespace SkipCode.Engine

/-- The engine with another limit on the length of arrays. -/
def atLimit (e : Engine) (limit : Nat) : Engine :=
  { e with config := { e.config with maxArrayLength := limit } }

/-- What operands are read in, with another limit. -/
def Context.atLimit (c : Context) (limit : Nat) : Context :=
  { c with config := { c.config with maxArrayLength := limit } }

variable {e e' : Engine} {key : StoreKey} {slot : UInt32} {v : Value} {k ip : Nat}
  {list : ActionList} {x : Binary64}

/-! ## Operands -/

section

variable (c : Context) (limit : Nat)

mutual

/-- An element has the same value under every limit. -/
theorem eval_atLimit : (x : Element) → eval (c.atLimit limit) x = eval c x
  | .number _ => rfl
  | .bool _ => rfl
  | .eventPlayer => rfl
  | .array items => by
    rw [eval, eval, evalAll_atLimit items]
  | .variable st slot => by
    rw [eval, eval, storeKey_atLimit st]
    -- a cell is looked up in the same stores
    cases storeKey c st with
    | error f => rfl
    | ok key => cases key <;> rfl
  | .countOf array => by
    rw [eval, eval, eval_atLimit array]
  | .lastOf array => by
    rw [eval, eval, eval_atLimit array]
  | .not inner => by
    rw [eval, eval, eval_atLimit inner]
  | .itemAt array index => by
    rw [eval, eval, eval_atLimit array, eval_atLimit index]
  | .append array value => by
    rw [eval, eval, eval_atLimit array, eval_atLimit value]
  | .indexOf array value => by
    rw [eval, eval, eval_atLimit array, eval_atLimit value]
  | .slice array start count => by
    rw [eval, eval, eval_atLimit array, eval_atLimit start, eval_atLimit count]
  | .arithmetic op lhs rhs => by
    rw [eval, eval, eval_atLimit lhs, eval_atLimit rhs]
  | .compare lhs op rhs => by
    rw [eval, eval, eval_atLimit lhs, eval_atLimit rhs]
  | .and lhs rhs => by
    rw [eval, eval, eval_atLimit lhs, eval_atLimit rhs]
  | .or lhs rhs => by
    rw [eval, eval, eval_atLimit lhs, eval_atLimit rhs]

/-- So have elements together. -/
theorem evalAll_atLimit : (es : List Element) → evalAll (c.atLimit limit) es = evalAll c es
  | [] => rfl
  | x :: es => by
    rw [evalAll, evalAll, eval_atLimit x, evalAll_atLimit es]

/-- A store is the same under every limit. -/
theorem storeKey_atLimit : (st : Store) → storeKey (c.atLimit limit) st = storeKey c st
  | .global => rfl
  | .actor who => by
    rw [storeKey, storeKey, eval_atLimit who]

end

/-- A write has the same operands under every limit. -/
theorem operands_atLimit (st : Store) (slot : UInt32) (index : Option Element) (value : Element) :
    operands (c.atLimit limit) st slot index value = operands c st slot index value := by
  cases index with
  | none =>
    rw [operands, operands, storeKey_atLimit, eval_atLimit]
    rfl
  | some index =>
    rw [operands, operands, storeKey_atLimit, eval_atLimit]
    dsimp only
    rw [eval_atLimit]
    rfl

end

/-! ## Steps -/

/-- A store is done exactly if its array is short enough. -/
theorem store_eq_ok_iff :
    e.store key slot v = (.ok (), e') ↔
      v.items.length ≤ e.config.maxArrayLength ∧ e.write key slot v = e' := by
  rw [store]
  split
  · next long =>
    exact ⟨nofun, fun ⟨short, _⟩ => absurd short (Nat.not_le.2 long)⟩
  · next short =>
    rw [Prod.mk.injEq]
    exact and_congr_left fun _ => iff_of_true rfl (Nat.le_of_not_lt short)

/-- So is a store at an index, of the array with the item. -/
theorem storeAt_eq_ok_iff :
    e.storeAt key slot x v = (.ok (), e') ↔ (x.less 0 || !x.isFinite) = false ∧
      (setItem (e.memory.get key slot).items x.toIndex v).length ≤ e.config.maxArrayLength ∧
      (e.write key slot .neutral).write key slot
        (.array (setItem (e.memory.get key slot).items x.toIndex v)) = e' := by
  rw [storeAt]
  split
  · next bad => exact ⟨nofun, fun ⟨good, _⟩ => absurd (good.symm.trans bad) nofun⟩
  · next good =>
    dsimp only
    split
    · next beyond =>
      -- the array with the item reaches behind the item's position
      have length := length_setItem (e.memory.get key slot).items x.toIndex v
      exact ⟨nofun, fun ⟨_, short, _⟩ => by omega⟩
    · rw [store_eq_ok_iff]
      exact ⟨fun h => ⟨Bool.eq_false_iff.2 good, h⟩, fun h => h.2⟩

/-- What is done under the limit of an engine is done under every limit from some length on, which
is none or that of an array that is left behind. -/
structure DoneFrom {α : Type} (f : Engine → α × Engine) (e : Engine) (a : α) (e' : Engine)
    (length : Nat) : Prop where
  under : length ≤ e.config.maxArrayLength
  left : length = 0 ∨ ∃ key slot, (e'.memory.get key slot).items.length = length
  done : ∀ k, length ≤ k → f (e.atLimit k) = (a, e'.atLimit k)

/-- What is done under every limit asks for no length. -/
theorem DoneFrom.always {α : Type} {f : Engine → α × Engine} {a : α}
    (done : ∀ k, f (e.atLimit k) = (a, e'.atLimit k)) : DoneFrom f e a e' 0 :=
  ⟨Nat.zero_le _, .inl rfl, fun k _ => done k⟩

/-- An assignment asks for the length of the array that it stores. -/
theorem assign_doneFrom {st : Store} {index : Option Element} {value : Element}
    (h : e.assign st slot index value = (.ok (), e')) :
    ∃ n, DoneFrom (fun e => e.assign st slot index value) e (.ok ()) e' n := by
  rw [assign] at h
  -- the operands are the same under every limit
  have same (k : Nat) : operands (e.atLimit k).context st slot index value =
      operands e.context st slot index value := operands_atLimit e.context k st slot index value
  split at h
  · cases h
  · next key v found =>
    obtain ⟨short, rfl⟩ := store_eq_ok_iff.1 h
    refine ⟨v.items.length, short, .inr ⟨key, slot, ?_⟩, fun k le => ?_⟩
    · rw [write, Memory.get_set, if_pos ⟨rfl, rfl⟩]
    · rw [assign, same, found]
      exact store_eq_ok_iff.2 ⟨le, rfl⟩
  · next key v x found =>
    obtain ⟨good, short, rfl⟩ := storeAt_eq_ok_iff.1 h
    refine ⟨_, short, .inr ⟨key, slot, ?_⟩, fun k le => ?_⟩
    · rw [write, Memory.get_set, if_pos ⟨rfl, rfl⟩]
      rfl
    · rw [assign, same, found]
      exact storeAt_eq_ok_iff.2 ⟨good, le, rfl⟩

/-- So does a step; one that stores nothing asks for none. -/
theorem step_doneFrom {a : Action} {next : Next} {len : Nat}
    (h : e.step ip len a = (.ok next, e')) :
    ∃ n, DoneFrom (fun e => e.step ip len a) e (.ok next) e' n := by
  cases a with
  | set st slot index value =>
    rw [step] at h
    split at h
    · next e₁ done =>
      cases h
      obtain ⟨n, under, left, done⟩ := assign_doneFrom done
      exact ⟨n, under, left, fun k le => by rw [step, done k le]⟩
    · cases h
  | skipIf condition count =>
    rw [step] at h
    split at h
    · next v known =>
      obtain ⟨leads, rfl⟩ := Prod.mk.inj h
      refine ⟨0, .always fun k => ?_⟩
      have known' : eval (e.atLimit k).context condition = .ok v :=
        (eval_atLimit e.context k condition).trans known
      rw [step, known']
      exact Prod.ext leads rfl
    · cases h
  | skip count =>
    obtain ⟨leads, rfl⟩ := Prod.mk.inj h
    exact ⟨0, .always fun k => Prod.ext leads rfl⟩
  | abort =>
    cases h
    exact ⟨0, .always fun k => rfl⟩

/-- A step is counted in the same way under every limit. -/
theorem countStep_atLimit (e : Engine) (ip k : Nat) :
    (e.atLimit k).countStep ip = ((e.countStep ip).1, (e.countStep ip).2.atLimit k) := by
  obtain ⟨⟨_, _, _, limit⟩, _, _, steps⟩ := e
  cases limit with
  | none => rfl
  | some limit =>
    by_cases beyond : limit < steps + 1 <;> simp [countStep, atLimit, beyond]

/-- So a step asks for the same length together with its count. -/
theorem tick_doneFrom {next : Next} (h : e.tick list ip = some (.ok next, e')) :
    ∃ n, n ≤ e.config.maxArrayLength ∧
      (n = 0 ∨ ∃ key slot, (e'.memory.get key slot).items.length = n) ∧
      ∀ k, n ≤ k → (e.atLimit k).tick list ip = some (.ok next, e'.atLimit k) := by
  obtain ⟨a, found, h⟩ := Option.map_eq_some_iff.1 h
  have same := e.countStep_engine ip
  split at h
  · cases h
  · next e₁ counted =>
    rw [counted] at same
    obtain ⟨n, under, left, done⟩ := step_doneFrom h
    obtain rfl : e₁ = { e with steps := e.steps + 1 } := same
    refine ⟨n, under, left, fun k le => ?_⟩
    rw [tick, found, Option.map_some, countStep_atLimit, counted]
    exact congrArg some (done k le)

/-! ## Runs -/

/-- A walk that comes to its end comes to it under every limit that is no lower than the one it had,
or that no array on its way is longer than. -/
theorem execute_atLimit {fuel : Nat} {outcome : Outcome} {k : Nat}
    (h : execute list fuel ip e = some (.ok outcome, e'))
    (enough : e.config.maxArrayLength ≤ k ∨ ∀ e₁, Trail list ip e e₁ → ∀ key slot,
      (e₁.memory.get key slot).items.length ≤ k) :
    execute list fuel ip (e.atLimit k) = some (.ok outcome, e'.atLimit k) := by
  -- on the steps; what is enough for the walk is enough for the next step and for what follows
  induction fuel generalizing ip e with
  | zero => cases h
  | succ fuel ih =>
    have room {next : Next} {e₁ : Engine} (ticked : e.tick list ip = some (.ok next, e₁)) :
        (e.atLimit k).tick list ip = some (.ok next, e₁.atLimit k) := by
      obtain ⟨n, under, left, done⟩ := tick_doneFrom ticked
      refine done k ?_
      rcases enough with high | short
      · exact Nat.le_trans under high
      · rcases left with rfl | ⟨key, slot, rfl⟩
        · exact Nat.zero_le _
        · exact short e₁ (.last ticked) key slot
    rw [execute_succ] at h ⊢
    split at h
    · next past =>
      have past' : (e.atLimit k).tick list ip = none := by
        rw [tick, Option.map_eq_none_iff] at past ⊢
        exact past
      rw [past']
      cases h
      rfl
    · cases h
    · next e₁ ticked =>
      cases h
      rw [room ticked]
    · next ip' e₁ ticked =>
      rw [room ticked]
      dsimp only
      refine ih h ?_
      rcases enough with high | short
      · obtain ⟨m, same, -⟩ := tick_writes ticked
        refine .inl ?_
        rw [same]
        exact high
      · exact .inr fun e₂ trail => short e₂ (.next ticked trail)

/-- A run that comes to its end comes to it under every limit on arrays that is no lower than the
one it had, or that no array of the run is longer than. -/
theorem runList_atLimit {actor : Int64} {outcome : Outcome} {k : Nat}
    (h : e.runList list actor = some (.ok outcome, e'))
    (enough : e.config.maxArrayLength ≤ k ∨ ∀ e₁, Trail list 0 (e.started actor) e₁ →
      ∀ key slot, (e₁.memory.get key slot).items.length ≤ k) :
    (e.atLimit k).runList list actor = some (.ok outcome, e'.atLimit k) := by
  rw [runList] at h ⊢
  split at h
  · cases h
  · exact execute_atLimit (e := e.started actor) h enough

end SkipCode.Engine
