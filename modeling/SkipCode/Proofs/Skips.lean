import Mathlib.Data.List.Perm.Basic
import SkipCode.Action.Check
import SkipCode.Control.If

/-!
# Skips that wait and skips that land

While a list is written some of its skips wait for their counts, and somebody has to know where
each of them stands. `ActionList.Sound` says that: the skips that wait are the ones at the given
positions, each of them once, and every other skip lands in the list or right behind it.

* `Sound.push`, `Sound.append`, `Sound.pushSkip`, `Sound.pushSkipTo`: what is written keeps it;
* `Sound.resolveHere`: a skip that waits can be resolved, and waits no more;
* `Sound.check`: when none waits the list passes its check.

Counts are words of 32 bits, so all of this is about lists of fewer than 2 ^ 31 actions.
-/

namespace SkipCode

namespace Action

/-- An action at a position of a list of length `len` that leads nowhere else than into the list or
right behind it, and does not only lead back to itself. -/
structure Lands (a : Action) (position len : Nat) : Prop where
  low : ∀ count, a.skipCount? = some (some count) → 0 ≤ (position : Int) + count.toInt + 1
  high : ∀ count, a.skipCount? = some (some count) → (position : Int) + count.toInt + 1 ≤ len
  moves : a ≠ .skip (some (-1))

/-- An action that is no skip. -/
def Straight (a : Action) : Prop := a.skipCount? = none

variable {a : Action} {position len : Nat}

/-- An action that is no skip is settled. -/
theorem Straight.settled (h : a.Straight) : a.isPending = false := by
  rw [isPending, h]
  rfl

/-- It lands anywhere. -/
theorem Straight.lands (h : a.Straight) (position len : Nat) : a.Lands position len := by
  refine ⟨fun count e => ?_, fun count e => ?_, ?_⟩
  · rw [h] at e
    cases e
  · rw [h] at e
    cases e
  · rintro rfl
    cases h

/-- What lands in a list lands in a longer one. -/
theorem Lands.mono (h : a.Lands position len) {len' : Nat} (le : len ≤ len') :
    a.Lands position len' :=
  ⟨h.low, fun count e => by have := h.high count e; omega, h.moves⟩

/-- What lands in a piece of a list lands in the list. -/
theorem Lands.shift (h : a.Lands position len) (start : Nat) :
    a.Lands (start + position) (start + len) :=
  ⟨fun count e => by have := h.low count e; omega, fun count e => by have := h.high count e; omega,
    h.moves⟩

/-- A skip that waits lands anywhere. -/
theorem lands_pending (h : a.isPending = true) (position len : Nat) : a.Lands position len := by
  have h : a.skipCount? = some none := by simpa [isPending] using h
  refine ⟨fun count e => ?_, fun count e => ?_, ?_⟩
  · rw [h] at e
    cases e
  · rw [h] at e
    cases e
  · rintro rfl
    cases h

/-- A skip that leads forward by its count. -/
theorem lands_skipIf {condition : Element} {count : Int32} (low : 0 ≤ count.toInt)
    (high : (position : Int) + count.toInt + 1 ≤ len) :
    (Action.skipIf condition (some count)).Lands position len := by
  refine ⟨fun count' e => ?_, fun count' e => ?_, by simp⟩
  · cases e
    omega
  · cases e
    exact high

/-- A distance is the number of actions between. -/
theorem toInt_skipDistance {start target : Nat} (hs : start < 2 ^ 31) (ht : target < 2 ^ 31) :
    (skipDistance start target).toInt = target - start - 1 := by
  rw [skipDistance, Int32.toInt_ofInt_of_le (by omega) (by omega)]

/-- With the distance to a target other than itself as its count, a skip lands. -/
theorem lands_skipDistance {target : Nat} (other : target ≠ position) (hp : position < 2 ^ 31)
    (ht : target < 2 ^ 31) (inside : target ≤ len)
    (counts : ∀ count, a.skipCount? = some (some count) → count = skipDistance position target) :
    a.Lands position len := by
  have distance := toInt_skipDistance hp ht
  refine ⟨fun count e => ?_, fun count e => ?_, ?_⟩
  · rw [counts count e, distance]
    omega
  · rw [counts count e, distance]
    omega
  · rintro rfl
    rw [← counts (-1) rfl] at distance
    have : (-1 : Int32).toInt = -1 := rfl
    omega

/-- An action that is settled and lands has no flaw. -/
theorem flaw?_eq_none (short : len < 2 ^ 63) (inside : position ≤ len)
    (settled : a.isPending = false) (lands : a.Lands position len) :
    a.flaw? position len = none := by
  unfold flaw?
  split
  · rfl
  · next e =>
    rw [isPending, e] at settled
    cases settled
  · next count e =>
    have target : skipTarget? position count len =
        some ((position : Int) + count.toInt + 1).toNat :=
      (skipTarget?_eq_some_iff short inside).2
        ⟨by have := lands.low count e; omega, by have := lands.high count e; omega⟩
    rw [target]
    simp only [Option.isNone_some, Bool.false_eq_true, if_false]
    split
    · next c =>
      cases e
      -- a skip by minus one would lead to itself
      have : count ≠ -1 := by
        rintro rfl
        exact lands.moves rfl
      simp [this]
    · rfl

end Action

/-- Actions that can be added to any list: none waits, and none leads out of them. -/
def Contained (actions : List Action) : Prop :=
  ∀ (i : Nat) (a : Action), actions[i]? = some a → a.isPending = false ∧ a.Lands i actions.length

namespace Contained

variable {actions first second : List Action}

/-- Actions without skips contain themselves. -/
theorem straight (h : ∀ a ∈ actions, a.Straight) : Contained actions := fun i a found =>
  have s := h a (List.mem_of_getElem? found)
  ⟨s.settled, s.lands i _⟩

/-- So does an empty list. -/
theorem nothing : Contained [] := .straight nofun

/-- So do contained ones together. -/
theorem append (h₁ : Contained first) (h₂ : Contained second) : Contained (first ++ second) := by
  intro i a found
  rcases Nat.lt_or_ge i first.length with lt | ge
  · rw [List.getElem?_append_left lt] at found
    refine ⟨(h₁ i a found).1, (h₁ i a found).2.mono ?_⟩
    rw [List.length_append]
    omega
  · rw [List.getElem?_append_right ge] at found
    obtain ⟨settled, lands⟩ := h₂ _ a found
    have := lands.shift first.length
    rw [show first.length + (i - first.length) = i by omega, ← List.length_append] at this
    exact ⟨settled, this⟩

/-- A skip over actions that are contained. -/
theorem guarded (condition : Element) (short : actions.length < 2 ^ 31) (h : Contained actions) :
    Contained (.skipIf condition (some (Int32.ofNat actions.length)) :: actions) := by
  intro i a found
  cases i with
  | zero =>
    cases found
    have : (Int32.ofNat actions.length).toInt = actions.length := Int32.toInt_ofNat_of_lt short
    exact ⟨rfl, Action.lands_skipIf (by omega) (by simp only [List.length_cons]; omega)⟩
  | succ i =>
    have := h i a found
    refine ⟨this.1, ?_⟩
    have := this.2.shift 1
    rwa [Nat.add_comm 1 i, Nat.add_comm 1] at this

end Contained

namespace ActionList

/-- The skips that wait are the ones at `positions`, each of them once, and all others land. -/
structure Sound (l : ActionList) (positions : List Nat) : Prop where
  nodup : positions.Nodup
  waits : ∀ p, p ∈ positions ↔ ∃ a, l.get? p = some a ∧ a.isPending
  lands : l.length < 2 ^ 31 → ∀ p a, l.get? p = some a → a.Lands p l.length

namespace Sound

variable {l m : ActionList} {positions : List Nat}

/-- The empty list waits for nothing. -/
theorem empty : ActionList.empty.Sound [] :=
  ⟨List.nodup_nil, fun p => by simp [get?, ActionList.empty], fun _ p a h => by
    simp [get?, ActionList.empty] at h⟩

/-- The order of waiting positions does not matter. -/
theorem perm (h : l.Sound positions) {others : List Nat} (p : positions.Perm others) :
    l.Sound others :=
  ⟨p.nodup h.nodup, fun q => (p.mem_iff).symm.trans (h.waits q), h.lands⟩

/-- A waiting position is inside of the list. -/
theorem lt_length (h : l.Sound positions) {p : Nat} (mem : p ∈ positions) : p < l.length := by
  obtain ⟨a, found, -⟩ := (h.waits p).1 mem
  rw [get?_eq_toList] at found
  exact (List.getElem?_eq_some_iff.1 found).1

/-- Actions that do not wait can be added, when they land in the longer list. -/
theorem appendAt (h : l.Sound positions) {actions : List Action}
    (e : m.toList = l.toList ++ actions) (settled : ∀ a ∈ actions, a.isPending = false)
    (lands : m.length < 2 ^ 31 → ∀ (i : Nat) (a : Action), actions[i]? = some a →
      a.Lands (l.length + i) m.length) : m.Sound positions := by
  have length : m.length = l.length + actions.length := by
    rw [← length_toList, e, List.length_append, length_toList]
  -- a position is in the old part or among the actions that were added
  have old {p : Nat} (lt : p < l.length) : m.get? p = l.get? p := by
    rw [get?_eq_toList, get?_eq_toList, e, List.getElem?_append_left (by simpa using lt)]
  have new {p : Nat} (ge : l.length ≤ p) : m.get? p = actions[p - l.length]? := by
    rw [get?_eq_toList, e, List.getElem?_append_right (by simpa using ge), length_toList]
  refine ⟨h.nodup, fun p => ?_, fun short p a found => ?_⟩
  · rw [h.waits]
    rcases Nat.lt_or_ge p l.length with lt | ge
    · rw [old lt]
    · rw [new ge]
      constructor
      · rintro ⟨a, found, pending⟩
        have := h.lt_length ((h.waits p).2 ⟨a, found, pending⟩)
        omega
      · rintro ⟨a, found, pending⟩
        rw [settled a (List.mem_of_getElem? found)] at pending
        cases pending
  · rcases Nat.lt_or_ge p l.length with lt | ge
    · rw [old lt] at found
      exact (h.lands (by omega) p a found).mono (by omega)
    · rw [new ge] at found
      have := lands short _ a found
      rwa [show l.length + (p - l.length) = p by omega] at this

/-- Actions that are contained can be added. -/
theorem append (h : l.Sound positions) {actions : List Action} (contained : Contained actions)
    (e : m.toList = l.toList ++ actions) : m.Sound positions := by
  refine h.appendAt e (fun a mem => ?_) fun _ i a found => ?_
  · obtain ⟨i, found⟩ := List.mem_iff_getElem?.1 mem
    exact (contained i a found).1
  · have := (contained i a found).2.shift l.length
    rwa [← length_toList l, ← List.length_append, ← e, length_toList, length_toList] at this

/-- Contained actions keep a list sound. -/
theorem extend (h : l.Sound positions) {actions : List Action} (contained : Contained actions) :
    (l.extend actions).Sound positions := h.append contained (toList_extend _ _)

/-- One more action, which may wait. -/
theorem push (h : l.Sound positions) {a : Action} {others : List Nat}
    (nodup : others.Nodup)
    (waits : ∀ p, p ∈ others ↔ p ∈ positions ∨ p = l.length ∧ a.isPending)
    (lands : l.length + 1 < 2 ^ 31 → a.Lands l.length (l.length + 1)) :
    (l.push a).Sound others := by
  -- the positions before the new action have what they had
  have at' (p : Nat) (b : Action) : (l.push a).get? p = some b ↔
      l.get? p = some b ∨ p = l.length ∧ a = b := by
    rw [get?_eq_toList, get?_eq_toList, toList_push, List.getElem?_append]
    split
    · next lt =>
      have : p ≠ l.length := Nat.ne_of_lt lt
      simp [this]
    · next ge =>
      have none : l.toList[p]? = none := List.getElem?_eq_none (by simpa using ge)
      rw [none, length_toList, List.getElem?_singleton]
      have : l.length ≤ p := by simpa using ge
      constructor
      · intro e
        split at e
        · cases e
          exact Or.inr ⟨by omega, rfl⟩
        · cases e
      · rintro (e | ⟨rfl, rfl⟩)
        · cases e
        · simp
  refine ⟨nodup, fun p => ?_, fun short p b found => ?_⟩
  · rw [waits, h.waits]
    constructor
    · rintro (⟨b, found, pending⟩ | ⟨rfl, pending⟩)
      · exact ⟨b, (at' p b).2 (Or.inl found), pending⟩
      · exact ⟨a, (at' _ a).2 (Or.inr ⟨rfl, rfl⟩), pending⟩
    · rintro ⟨b, found, pending⟩
      rcases (at' p b).1 found with found | ⟨rfl, rfl⟩
      · exact Or.inl ⟨b, found, pending⟩
      · exact Or.inr ⟨rfl, pending⟩
  · rw [length_push] at short ⊢
    rcases (at' p b).1 found with found | ⟨rfl, rfl⟩
    · exact (h.lands (by omega) p b found).mono (by omega)
    · exact lands short

/-- A skip that waits. -/
theorem pushSkip (h : l.Sound positions) (condition : Option Element) :
    (l.pushSkip condition).Sound (l.length :: positions) := by
  have pending : (pendingSkip condition).isPending = true := by cases condition <;> rfl
  refine h.push (List.nodup_cons.2 ⟨fun mem => ?_, h.nodup⟩) (fun p => ?_)
    fun _ => Action.lands_pending pending _ _
  · exact Nat.lt_irrefl _ (h.lt_length mem)
  · simp only [List.mem_cons, pending, and_true]
    exact or_comm

/-- A skip back to where the list has come past. -/
theorem pushSkipTo (h : l.Sound positions) {target : Nat} (back : target < l.length) :
    (l.pushSkipTo target).Sound positions :=
  h.push h.nodup (fun p => by simp [Action.isPending, Action.skipCount?]) fun short =>
    Action.lands_skipDistance (Nat.ne_of_lt back) (by omega) (by omega) (by omega)
      fun count e => by cases e; rfl

/-- A skip back that a guard can jump over. -/
theorem dispatch (h : l.Sound positions) (condition : Element) {site : Nat}
    (back : site ≤ l.length) :
    ((l.extend [.skipIf condition (some 1)]).pushSkipTo site).Sound positions := by
  have len : (l.extend [.skipIf condition (some 1)]).length = l.length + 1 := length_extend ..
  have e : ((l.extend [.skipIf condition (some 1)]).pushSkipTo site).toList =
      l.toList ++
        [.skipIf condition (some 1), .skip (some (Action.skipDistance (l.length + 1) site))] := by
    rw [ActionList.pushSkipTo, toList_push, toList_extend, len, List.append_assoc]
    rfl
  have len' : ((l.extend [.skipIf condition (some 1)]).pushSkipTo site).length = l.length + 2 := by
    rw [length_pushSkipTo, len]
  refine h.appendAt e (fun a mem => ?_) fun short i a found => ?_
  · rcases List.mem_pair.1 mem with rfl | rfl <;> rfl
  · rw [len'] at short ⊢
    -- the guard lands behind the skip, and the skip at its target
    match i with
    | 0 =>
      cases found
      have : (1 : Int32).toInt = 1 := rfl
      exact Action.lands_skipIf (by omega) (by omega)
    | 1 =>
      cases found
      have other : site ≠ l.length + 1 := by omega
      exact Action.lands_skipDistance other (by omega) (by omega) (by omega)
        fun count e => by cases e; rfl

/-- Patching keeps the length. -/
theorem length_resolveHere {position : Nat} (h : l.resolveHere position = .ok m) :
    m.length = l.length := by
  obtain ⟨a, -, -, e⟩ := resolve_eq_ok_iff.1 h
  rw [← length_toList, e, List.length_set, length_toList]

/-- A skip that waits can be resolved, and waits no more. -/
theorem resolveHere {position : Nat} (h : l.Sound (position :: positions)) :
    ∃ m, l.resolveHere position = .ok m ∧ m.Sound positions ∧ m.length = l.length := by
  obtain ⟨a, found, pending⟩ := (h.waits position).1 (List.mem_cons_self ..)
  have lt : position < l.length := h.lt_length (List.mem_cons_self ..)
  obtain ⟨fresh, nodup⟩ := List.nodup_cons.1 h.nodup
  have resolved : l.resolveHere position =
      .ok (ofList (l.toList.set position (a.withCount (Action.skipDistance position l.length)))) :=
    resolve_eq_ok_iff.2 ⟨a, found, pending, rfl⟩
  refine ⟨_, resolved, ?_, length_resolveHere resolved⟩
  have length := length_resolveHere resolved
  have at' (p : Nat) : (ofList (l.toList.set position
      (a.withCount (Action.skipDistance position l.length)))).get? p =
        if p = position then some (a.withCount (Action.skipDistance position l.length))
        else l.get? p := by
    rw [get?_eq_toList, get?_eq_toList, toList_ofList, List.getElem?_set]
    simp only [length_toList, lt, if_true, eq_comm]
  -- with its count the skip waits no more, and leads to the end
  have count : (a.withCount (Action.skipDistance position l.length)).skipCount? =
      some (some (Action.skipDistance position l.length)) := by
    have : a.skipCount? = some none := by simpa [Action.isPending] using pending
    cases a <;> simp_all [Action.skipCount?, Action.withCount]
  refine ⟨nodup, fun p => ?_, fun short p b found' => ?_⟩
  · rw [at']
    split
    · next e =>
      subst e
      simp [fresh, Action.isPending, count]
    · next ne =>
      rw [← h.waits, List.mem_cons]
      simp [ne]
  · rw [length] at short ⊢
    rw [at'] at found'
    split at found'
    · next e =>
      subst e
      cases found'
      refine Action.lands_skipDistance (Nat.ne_of_gt lt) (by omega) short (Nat.le_refl _)
        fun c e => ?_
      rw [count] at e
      cases e
      rfl
    · exact h.lands short p b found'

/-- Patching waiting positions to here always succeeds. -/
theorem resolveAllHere {r : List Nat} (h : l.Sound (r ++ positions)) :
    ∃ m, l.resolveAllHere r = .ok m ∧ m.Sound positions ∧ m.length = l.length := by
  induction r generalizing l with
  | nil => exact ⟨l, rfl, h, rfl⟩
  | cons p rest ih =>
    obtain ⟨u, first, sound, len⟩ := Sound.resolveHere h
    obtain ⟨m, others, sound', len'⟩ := ih sound
    refine ⟨m, ?_, sound', len'.trans len⟩
    rw [ActionList.resolveAllHere, List.foldlM_cons, first]
    exact others

/-- When no skip waits the list passes its check. -/
theorem check (h : l.Sound []) (short : l.length < 2 ^ 31) : l.check = .ok () := by
  have flawless (p : Nat) (a : Action) (found : l.get? p = some a) :
      a.flaw? p l.length = none := by
    have lt : p < l.length := by
      rw [get?_eq_toList] at found
      exact (List.getElem?_eq_some_iff.1 found).1
    refine Action.flaw?_eq_none (by omega) (by omega) ?_ (h.lands short p a found)
    by_contra pending
    have := (h.waits p).2 ⟨a, found, by simpa using pending⟩
    cases this
  -- The check goes from a position on, so the rest of the list is generalized with it.
  suffices ∀ (rest : List Action) (ip : Nat),
    (∀ (i : Nat) (a : Action), rest[i]? = some a → a.flaw? (ip + i) l.length = none) →
      checkFrom l.length ip rest = .ok () from
    this _ 0 fun i a found => by
      rw [Nat.zero_add]
      exact flawless i a (by rwa [get?_eq_toList])
  intro rest
  induction rest with
  | nil => exact fun _ _ => rfl
  | cons a rest ih =>
    intro ip ok
    have first := ok 0 a rfl
    rw [Nat.add_zero] at first
    rw [checkFrom, first]
    refine ih (ip + 1) fun i b found => ?_
    have := ok (i + 1) b found
    rwa [show ip + (i + 1) = ip + 1 + i by omega] at this

end Sound

end ActionList

end SkipCode
