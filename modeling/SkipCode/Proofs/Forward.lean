import SkipCode.Proofs.Discipline
import SkipCode.Proofs.Heap

/-!
# Going through a straight list

The list of a straight unit is gone through from its start to its end, past the positions between
its statements one after the other. `Forward` is such a part of a run, and what `Host.upTo` finds
when it looks for the end of it.

* `forward_acts`, `forward_acquire`: a run that goes on to an end goes forward through writes, and
  through the code that takes a handle, where it does not abort.
-/

namespace SkipCode

open Engine (Host Memory)
open Engine.Host (Runs Reaches)
open Lower (acquireActions)

variable {h : Host} {list : ActionList} {p q r pe : Nat} {m m' m'' me : Memory}

/-- From one position to a later one, in no more steps than there are positions between the two. -/
structure Forward (h : Host) (list : ActionList) (p : Nat) (m : Memory) (q : Nat) (m' : Memory) :
    Prop where
  le : p ≤ q
  finds : ∃ k ≤ q - p, ∀ target ≥ q, ∀ fuel,
    h.upTo list target (fuel + k) p m = h.upTo list target fuel q m'

namespace Forward

/-- A run goes forward to where it is. -/
theorem refl (h : Host) (list : ActionList) (p : Nat) (m : Memory) : Forward h list p m p m :=
  ⟨Nat.le_refl _, 0, Nat.zero_le _, fun _ _ _ => rfl⟩

/-- It goes forward in turn. -/
theorem trans (first : Forward h list p m q m') (second : Forward h list q m' r m'') :
    Forward h list p m r m'' := by
  obtain ⟨le, k, hk, finds⟩ := first
  obtain ⟨le', k', hk', finds'⟩ := second
  refine ⟨Nat.le_trans le le', k' + k, by omega, fun target ht fuel => ?_⟩
  rw [← Nat.add_assoc, finds target (Nat.le_trans le' ht), finds' target ht]

/-- A step to a later position goes forward. -/
theorem step (one : h.step list p m = some (q, m')) (lt : p < q) : Forward h list p m q m' := by
  refine ⟨Nat.le_of_lt lt, 1, by omega, fun target ht fuel => ?_⟩
  rw [Host.upTo, if_neg (by omega), one]
  rfl

/-- Fuel for the distance is enough. -/
theorem upTo (go : Forward h list p m q m') {fuel : Nat} (enough : q - p ≤ fuel) :
    h.upTo list q fuel p m = some m' := by
  obtain ⟨-, k, hk, finds⟩ := go
  obtain ⟨more, rfl⟩ := Nat.exists_eq_add_of_le' (Nat.le_trans hk enough)
  rw [finds q (Nat.le_refl _)]
  cases more <;> rw [Host.upTo, if_pos rfl]

end Forward

/-- The actions that were added to the beginning of a list. -/
theorem actsAt_of_begins {l l' : ActionList} {actions : List Action}
    (e : l'.toList = l.toList ++ actions) (begins : l'.toList <+: list.toList) :
    ActsAt list l.length actions := by
  obtain ⟨rest, whole⟩ := begins
  intro i hi
  rw [ActionList.get?_eq_toList, ← whole, e, List.append_assoc, ← ActionList.length_toList,
    List.getElem?_append_right (Nat.le_add_right _ _), Nat.add_sub_cancel_left,
    List.getElem?_append_left hi]

/-- A run that comes to a position and goes on to its end. -/
structure Passes (h : Host) (list : ActionList) (p : Nat) (m : Memory) (pe : Nat) (me : Memory) :
    Prop where
  reaches : Reaches h list p m pe me
  past : list.get? pe = none

/-- A run that passes somewhere takes a step there. -/
theorem Passes.step {a : Action} (passes : Passes h list p m pe me) (found : list.get? p = some a) :
    ∃ q m', h.step list p m = some (q, m') ∧ Passes h list q m' pe me := by
  obtain ⟨⟨n, runs⟩, past⟩ := passes
  obtain ⟨k, q, m', -, one, rest⟩ := Runs.first runs past found
  exact ⟨q, m', one, ⟨k, rest⟩, past⟩

/-- A run that is past the list is at its end. -/
theorem Passes.at_end (passes : Passes h list p m pe me) (past : list.get? p = none) : m = me := by
  obtain ⟨⟨n, runs⟩, -⟩ := passes
  cases runs with
  | refl => rfl
  | next one _ =>
    rw [Host.step, past] at one
    cases one

/-- Writes are gone through one by one. -/
theorem forward_acts {actions : List Action} (writes : ∀ a ∈ actions, a.Writes)
    (here : ActsAt list p actions) (passes : Passes h list p m pe me) :
    ∃ m', h.acts m actions = some m' ∧ Forward h list p m (p + actions.length) m' ∧
      Passes h list (p + actions.length) m' pe me := by
  induction actions generalizing p m with
  | nil => exact ⟨m, rfl, .refl h list p m, passes⟩
  | cons a rest ih =>
    obtain ⟨q, m₁, one, passes⟩ := passes.step here.head
    obtain ⟨st, slot, index, value, rfl⟩ := writes a List.mem_cons_self
    have written := one
    simp only [Host.step, here.head, Option.map_eq_some_iff] at written
    obtain ⟨_, written, e⟩ := written
    cases e
    obtain ⟨m', done, go, passes⟩ :=
      ih (fun a mem => writes a (List.mem_cons_of_mem _ mem)) here.tail passes
    rw [show p + (Action.set st slot index value :: rest).length =
      p + 1 + rest.length by simp; omega]
    exact ⟨m', Option.bind_eq_some_iff.2 ⟨m₁, written, done⟩,
      (Forward.step one (Nat.lt_succ_self p)).trans go,
      passes⟩

/-- A skip over some actions is taken or not. -/
theorem forward_guard {condition : Element} {count : Nat} (short : list.length < 2 ^ 63)
    (small : count < 2 ^ 31)
    (here : list.get? p = some (.skipIf condition (some (Int32.ofNat count))))
    (room : p + 1 + count ≤ list.length) (passes : Passes h list p m pe me) :
    h.guard m condition = some true ∧ Forward h list p m (p + 1 + count) m ∧
        Passes h list (p + 1 + count) m pe me ∨
      h.guard m condition = some false ∧ Forward h list p m (p + 1) m ∧
        Passes h list (p + 1) m pe me := by
  have guard := guardAt_over short small here room
  obtain ⟨q, m', one, passes⟩ := passes.step here
  -- a guard without a value would not be passed
  cases value : h.guard m condition with
  | none =>
    rw [Host.step, here] at one
    simp only [value] at one
    cases one
  | some b =>
    cases b with
    | true =>
      rw [step_guard_true guard value] at one
      cases one
      exact Or.inl ⟨rfl, .step (step_guard_true guard value) (by omega), passes⟩
    | false =>
      rw [step_guard_false guard value] at one
      cases one
      exact Or.inr ⟨rfl, .step (step_guard_false guard value) (by omega), passes⟩

/-- A handle is taken: a free one where that is tried and there is one, else a new one, which is
below the capacity. -/
def Engine.Host.Acquired (h : Host) (first : Option (List Action × Element)) (next : List Action)
    (full : Element) (mark : List Action) (m m' : Memory) : Prop :=
  ∃ m₂, (match first with
    | some (first, found) => ∃ m₁, h.acts m first = some m₁ ∧
        (h.guard m₁ found = some true ∧ m₂ = m₁ ∨
          h.guard m₁ found = some false ∧ h.acts m₁ next = some m₂)
    | none => h.acts m next = some m₂) ∧ h.guard m₂ full = some true ∧ h.acts m₂ mark = some m'

/-- Past the check of a handle, which did not abort: it is below the capacity, and it is marked. -/
theorem forward_limit {full : Element} {mark : List Action} (short : list.length < 2 ^ 63)
    (marks : ∀ a ∈ mark, a.Writes) (fullAt : ActsAt list p [.skipIf full (some 1), .abort])
    (markAt : ActsAt list (p + 2) mark) (passes : Passes h list p m pe me) :
    ∃ m', h.guard m full = some true ∧ h.acts m mark = some m' ∧
      Forward h list p m (p + 2 + mark.length) m' ∧
        Passes h list (p + 2 + mark.length) m' pe me := by
  have abortAt : list.get? (p + 1) = some .abort := fullAt.tail.head
  rcases forward_guard short (show 1 < 2 ^ 31 by decide) fullAt.head
    (lt_of_get? abortAt) passes with
    ⟨below, skipped, passes⟩ | ⟨-, -, passes⟩
  · obtain ⟨m', marked, last, passes⟩ := forward_acts marks markAt passes
    exact ⟨m', below, marked, skipped.trans last, passes⟩
  · obtain ⟨q, m', one, -⟩ := passes.step abortAt
    rw [Host.step, abortAt] at one
    cases one

/-- Past the code that takes a handle, which did not abort. -/
theorem forward_acquire {first : Option (List Action × Element)} {next : List Action}
    {full : Element} {mark : List Action} (short : list.length < 2 ^ 63)
    (small : next.length < 2 ^ 31) (firsts : ∀ f, first = some f → ∀ a ∈ f.1, a.Writes)
    (nexts : ∀ a ∈ next, a.Writes) (marks : ∀ a ∈ mark, a.Writes)
    (here : ActsAt list p (acquireActions first next full mark))
      (passes : Passes h list p m pe me) :
    ∃ m', h.Acquired first next full mark m m' ∧
      Forward h list p m (p + (acquireActions first next full mark).length) m' ∧
        Passes h list (p + (acquireActions first next full mark).length) m' pe me := by
  obtain ⟨front, markAt⟩ := ActsAt.append.1 here
  obtain ⟨front, fullAt⟩ := ActsAt.append.1 front
  obtain ⟨firstAt, nextAt⟩ := ActsAt.append.1 front
  cases first with
  | none =>
    -- only the next handle can be taken
    obtain ⟨m₂, done, go, passes⟩ := forward_acts nexts nextAt passes
    rw [List.nil_append] at fullAt markAt
    rw [List.length_append, ← Nat.add_assoc] at markAt
    rw [show p + (acquireActions none next full mark).length = p + next.length + 2 + mark.length by
      simp [acquireActions]; omega]
    obtain ⟨m', below, marked, last, passes⟩ := forward_limit short marks fullAt markAt passes
    exact ⟨m', ⟨m₂, done, below, marked⟩, go.trans last, passes⟩
  | some f =>
    obtain ⟨first, found⟩ := f
    obtain ⟨firstAt, guardAt⟩ := ActsAt.append.1 firstAt
    obtain ⟨m₁, done, go, passes⟩ := forward_acts (firsts _ rfl) firstAt passes
    have start : p + (first ++ [Action.skipIf found (some (Int32.ofNat next.length))]).length =
        p + first.length + 1 := by simp; omega
    rw [List.length_append, ← Nat.add_assoc, start] at fullAt
    rw [List.length_append, List.length_append, ← Nat.add_assoc, ← Nat.add_assoc, start] at markAt
    rw [start] at nextAt
    rw [show p + (acquireActions (some (first, found)) next full mark).length =
      p + first.length + 1 + next.length + 2 + mark.length by simp [acquireActions]; omega]
    -- the guard leads over the code that takes a new handle
    have room := Nat.le_of_lt (lt_of_get? fullAt.head)
    rcases forward_guard short small guardAt.head room passes with
      ⟨free, skipped, passes⟩ | ⟨none, passed, passes⟩
    · -- a freed handle was found, so a new one is not looked for
      obtain ⟨m', below, marked, last, passes⟩ := forward_limit short marks fullAt markAt passes
      exact ⟨m', ⟨m₁, ⟨m₁, done, Or.inl ⟨free, rfl⟩⟩, below, marked⟩,
        (go.trans skipped).trans last, passes⟩
    · obtain ⟨m₂, taken, new, passes⟩ := forward_acts nexts nextAt passes
      obtain ⟨m', below, marked, last, passes⟩ := forward_limit short marks fullAt markAt passes
      exact ⟨m', ⟨m₂, ⟨m₁, done, Or.inr ⟨none, taken⟩⟩, below, marked⟩,
        ((go.trans passed).trans new).trans last, passes⟩

end SkipCode
