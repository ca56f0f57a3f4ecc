import SkipCode.Element.Text

/-!
# Actions

The target runs a flat list of actions and has no jumps, only skips relative to where they stand.
A skip at `ip` with count `n` goes on at `ip + n + 1`, so a negative count leads backward and the
count minus one back to the skip itself. While the code behind a skip is still being written its
count is not known.
-/

namespace SkipCode

inductive Action where
  /-- Writes a slot, or with an index one item of the array in the slot. -/
  | set (store : Store) (slot : UInt32) (index : Option Element) (value : Element)
  /-- Skips when the condition is truthy. -/
  | skipIf (condition : Element) (count : Option Int32)
  | skip (count : Option Int32)
  /-- Ends the unit. -/
  | abort
deriving BEq, Repr, Inhabited

namespace Action

/-- The count of a skip, which may be unknown; nothing for other actions. -/
def skipCount? : Action → Option (Option Int32)
  | skipIf _ count => some count
  | skip count => some count
  | _ => none

/-- A skip whose count is not known yet. -/
def isPending (a : Action) : Bool := a.skipCount? == some none

/-- The same action with a known count, if it is a skip. -/
def withCount (count : Int32) : Action → Action
  | skipIf condition _ => skipIf condition (some count)
  | skip _ => skip (some count)
  | other => other

/-- The number of elements of an action; a count is an element too. -/
def count : Action → Nat
  | set store _ index value => 1 + (store.count + (index.map Element.count).getD 0 + value.count)
  | skipIf condition _ => 1 + (condition.count + 1)
  | skip _ => 2
  | abort => 1

/-- The count that leads from a skip at `start` to `target`. -/
def skipDistance (start target : Nat) : Int32 := Int32.ofInt (target - start - 1)

/-- A position or a length as the signed word that the target keeps it in. -/
def signedWord (n : Int) : Int := (Int64.ofInt n).toInt

/-- Where a skip leads in a list of length `len`. The position behind the last action is the way
out; a skip beyond it leads nowhere. -/
def skipTarget? (ip : Nat) (count : Int32) (len : Nat) : Option Nat :=
  let target := signedWord (ip + count.toInt + 1)
  if 0 ≤ target ∧ target ≤ signedWord len then some target.toNat else none

theorem signedWord_eq_bmod (n : Int) : signedWord n = n.bmod (2 ^ 64) := Int64.toInt_ofInt

theorem signedWord_eq_self {n : Int} (low : -2 ^ 63 ≤ n) (high : n < 2 ^ 63) :
    signedWord n = n := by
  rw [signedWord_eq_bmod]
  exact Int.bmod_eq_of_le (by omega) (by omega)

/-- In a list whose length fits a signed word, a skip leads where its count says, if that is in the
list or right behind it. -/
theorem skipTarget?_eq_some_iff {ip len target : Nat} {count : Int32} (fits : len < 2 ^ 63)
    (inside : ip ≤ len) :
    skipTarget? ip count len = some target ↔
      (target : Int) = ip + count.toInt + 1 ∧ target ≤ len := by
  have low := count.le_toInt
  have high := count.toInt_lt
  have hlen : signedWord len = len := signedWord_eq_self (by omega) (by omega)
  unfold skipTarget?
  simp only [hlen]
  by_cases h : (ip : Int) + count.toInt + 1 < 2 ^ 63
  · rw [signedWord_eq_self (by omega) h]
    split <;> simp only [Option.some.injEq, reduceCtorEq, false_iff] <;> omega
  · have hneg : signedWord (ip + count.toInt + 1) < 0 := by
      rw [signedWord_eq_bmod, Int.bmod_def]
      split <;> omega
    split
    · omega
    · simp only [reduceCtorEq, false_iff]
      omega

end Action

end SkipCode
