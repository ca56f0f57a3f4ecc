import SkipCode.Proofs.Slotless

/-!
# Edits of an action list

Every construct that leads somewhere notes positions at one time and has counts filled in at
another, while the list grows in between. That is sound because a list is written at its end only,
and because a skip gets its count once. Here this is shown of all sequences of calls, failing ones
among them.

* `ActionList.serve_cases`: a call writes behind the list, gives one waiting skip its count, or is
  refused and changes nothing;
* `ActionList.get?_serve`: what a call does to the action at one position;
* `ActionList.get?_serveAll`, `ActionList.get?_written`: what a sequence of calls leaves of the
  actions before it, and where it puts new ones;
* `ActionList.serveAll_persists`: all of it between any two moments, with where the skips land.
-/

namespace SkipCode

/-! ## Calls -/

/-- A call to an action list. -/
inductive Edit where
  | push (a : Action)
  | extend (actions : List Action)
  | pushSkip (condition : Option Element)
  | pushSkipTo (target : Nat)
  | resolve (position : Nat) (count : Int32)
  | resolveHere (position : Nat)

namespace Edit

/-- Makes the call. -/
def attempt : Edit → Attempt ActionList Unit
  | push a => modify (·.push a)
  | extend actions => modify (·.extend actions)
  | pushSkip condition => modify (·.pushSkip condition)
  | pushSkipTo target => modify (·.pushSkipTo target)
  | resolve position count => Attempt.modifyM (·.resolve position count)
  | resolveHere position => Attempt.modifyM (·.resolveHere position)

/-- The actions that the call writes behind a list. -/
def written (l : ActionList) : Edit → List Action
  | push a => [a]
  | extend actions => actions
  | pushSkip condition => [ActionList.pendingSkip condition]
  | pushSkipTo target => [.skip (some (Action.skipDistance l.length target))]
  | resolve _ _ | resolveHere _ => []

/-- The position that the call means to patch. -/
def patch? : Edit → Option Nat
  | resolve position _ | resolveHere position => some position
  | _ => none

end Edit

namespace ActionList

/-- Answers a call. -/
def serve (l : ActionList) (edit : Edit) : Except LowerError Unit × ActionList :=
  edit.attempt.run l

/-- The list that a sequence of calls leaves, whether or not they succeed. -/
def serveAll (l : ActionList) (edits : List Edit) : ActionList :=
  edits.foldl (fun l edit => (l.serve edit).2) l

/-- The actions that a sequence of calls writes, each as it is when it is written. -/
def written (l : ActionList) : List Edit → List Action
  | [] => []
  | edit :: rest => edit.written l ++ (l.serve edit).2.written rest

/-- Whether the call patches the action at a position. -/
def patchedBy (l : ActionList) (position : Nat) (edit : Edit) : Bool :=
  edit.patch? == some position && (l.serve edit).1.isOk

/-- How many calls of a sequence patch the action at a position. -/
def patches (l : ActionList) (position : Nat) : List Edit → Nat
  | [] => 0
  | edit :: rest => (l.patchedBy position edit).toNat + (l.serve edit).2.patches position rest

/-- There is a skip at the position, and it has no count yet. -/
def Waits (l : ActionList) (position : Nat) : Prop :=
  ∃ a, l.get? position = some a ∧ a.isPending = true

variable {l : ActionList} {a : Action} {position : Nat}

/-! ## One call -/

theorem serve_resolve (l : ActionList) (position : Nat) (count : Int32) :
    l.serve (.resolve position count) =
      match l.resolve position count with
      | .ok m => (.ok (), m)
      | .error e => (.error e, l) := by
  rw [serve, Edit.attempt, Attempt.run_modifyM]
  cases l.resolve position count <;> rfl

theorem serve_resolveHere (l : ActionList) (position : Nat) :
    l.serve (.resolveHere position) =
      match l.resolveHere position with
      | .ok m => (.ok (), m)
      | .error e => (.error e, l) := by
  rw [serve, Edit.attempt, Attempt.run_modifyM]
  cases l.resolveHere position <;> rfl

/-- A skip that waits is patched, and nothing else is. -/
theorem resolve_cases (l : ActionList) (position : Nat) (count : Int32) :
    (∃ a m, l.get? position = some a ∧ a.isPending = true ∧ l.resolve position count = .ok m ∧
      m.toList = l.toList.set position (a.withCount count)) ∨
    (∃ e, l.resolve position count = .error e) ∧ ¬ l.Waits position := by
  cases answer : l.resolve position count with
  | ok m =>
    obtain ⟨a, found, pending, patched⟩ := resolve_eq_ok_iff.1 answer
    exact Or.inl ⟨a, m, found, pending, rfl, patched⟩
  | error e =>
    refine Or.inr ⟨⟨e, rfl⟩, fun ⟨a, found, pending⟩ => ?_⟩
    have patched : l.resolve position count =
        .ok (ofList (l.toList.set position (a.withCount count))) :=
      resolve_eq_ok_iff.2 ⟨a, found, pending, rfl⟩
    cases answer.symm.trans patched

/-- What a call that means to patch a skip can come to. -/
def Patched (l : ActionList) (position : Nat) (count : Int32)
    (answer : Except LowerError Unit × ActionList) : Prop :=
  (∃ a, l.get? position = some a ∧ a.isPending = true ∧ answer.1 = .ok () ∧
    answer.2.toList = l.toList.set position (a.withCount count)) ∨
  (∃ e, answer = (.error e, l)) ∧ ¬ l.Waits position

theorem patched_resolve (l : ActionList) (position : Nat) (count : Int32) :
    l.Patched position count (l.serve (.resolve position count)) := by
  rw [serve_resolve]
  obtain ⟨a, m, found, pending, ok, patched⟩ | ⟨⟨e, refused⟩, idle⟩ :=
    l.resolve_cases position count
  · rw [ok]
    exact Or.inl ⟨a, found, pending, rfl, patched⟩
  · rw [refused]
    exact Or.inr ⟨⟨e, rfl⟩, idle⟩

theorem patched_resolveHere (l : ActionList) (position : Nat) :
    l.Patched position (Action.skipDistance position l.length)
      (l.serve (.resolveHere position)) := by
  have patched := l.patched_resolve position (Action.skipDistance position l.length)
  rw [serve_resolve] at patched
  rw [serve_resolveHere]
  exact patched

/-- A call writes behind the list, or it is to patch the skip at a position. -/
theorem serve_cases (l : ActionList) (edit : Edit) :
    edit.patch? = none ∧ (l.serve edit).1 = .ok () ∧
      (l.serve edit).2.toList = l.toList ++ edit.written l ∨
    ∃ position count, edit.patch? = some position ∧ edit.written l = [] ∧
      l.Patched position count (l.serve edit) := by
  cases edit with
  | push a => exact Or.inl ⟨rfl, rfl, toList_push l a⟩
  | extend actions => exact Or.inl ⟨rfl, rfl, toList_extend l actions⟩
  | pushSkip condition => exact Or.inl ⟨rfl, rfl, toList_push l _⟩
  | pushSkipTo target => exact Or.inl ⟨rfl, rfl, toList_push l _⟩
  | resolve position count =>
    exact Or.inr ⟨position, count, rfl, rfl, l.patched_resolve position count⟩
  | resolveHere position =>
    exact Or.inr ⟨position, _, rfl, rfl, l.patched_resolveHere position⟩

/-- It takes a skip that waits, and whatever else is refused leaves the list as it is. -/
theorem Patched.ok_iff {count : Int32} {answer : Except LowerError Unit × ActionList}
    (h : l.Patched position count answer) : answer.1 = .ok () ↔ l.Waits position := by
  rcases h with ⟨a, found, pending, ok, -⟩ | ⟨⟨e, rfl⟩, idle⟩
  · exact ⟨fun _ => ⟨a, found, pending⟩, fun _ => ok⟩
  · exact ⟨nofun, fun waits => absurd waits idle⟩

theorem serve_error {edit : Edit} {e : LowerError} (h : (l.serve edit).1 = .error e) :
    (l.serve edit).2 = l := by
  obtain ⟨-, ok, -⟩ | ⟨p, count, -, -, ⟨-, -, -, ok, -⟩ | ⟨⟨e', refused⟩, -⟩⟩ :=
    l.serve_cases edit
  · cases h.symm.trans ok
  · cases h.symm.trans ok
  · rw [refused]

/-- The action at a position stays through a call, unless it waits for the count that the call gives
it. -/
theorem get?_serve (found : l.get? position = some a) (edit : Edit) :
    (l.serve edit).2.get? position = some a ∧ l.patchedBy position edit = false ∨
      a.isPending = true ∧ l.patchedBy position edit = true ∧
        ∃ count, (l.serve edit).2.get? position = some (a.withCount count) := by
  have inside : position < l.toList.length := by
    rw [length_toList]
    exact lt_of_get? found
  have found' : l.toList[position]? = some a := (get?_eq_toList l position).symm.trans found
  obtain ⟨none, -, e⟩ | ⟨p, count, some, -, ⟨b, foundb, pending, ok, e⟩ | ⟨⟨e, refused⟩, -⟩⟩ :=
    l.serve_cases edit
  · refine Or.inl ⟨?_, by rw [patchedBy, none]; rfl⟩
    rw [get?_eq_toList, e, List.getElem?_append_left inside, found']
  · by_cases same : p = position
    · subst same
      cases foundb.symm.trans found
      refine Or.inr ⟨pending, by simp [patchedBy, some, ok, Except.isOk, Except.toBool], count, ?_⟩
      rw [get?_eq_toList, e, List.getElem?_set_self inside]
    · refine Or.inl ⟨?_, by simp [patchedBy, some, same]⟩
      rw [get?_eq_toList, e, List.getElem?_set_ne same, found']
  · refine Or.inl ⟨by rw [refused]; exact found, ?_⟩
    rw [patchedBy, refused]
    exact Bool.and_false _

/-! ## Sequences of calls -/

theorem serveAll_append (l : ActionList) (earlier later : List Edit) :
    l.serveAll (earlier ++ later) = (l.serveAll earlier).serveAll later :=
  List.foldl_append ..

/-- An action without a gap is never touched again. -/
theorem get?_serveAll_settled (found : l.get? position = some a) (settled : a.isPending = false)
    (edits : List Edit) :
    (l.serveAll edits).get? position = some a ∧ l.patches position edits = 0 := by
  induction edits generalizing l with
  | nil => exact ⟨found, rfl⟩
  | cons edit rest ih =>
    obtain ⟨found', idle⟩ | ⟨pending, -⟩ := get?_serve found edit
    · obtain ⟨kept, none⟩ := ih found'
      refine ⟨kept, ?_⟩
      rw [patches, idle, none]
      rfl
    · cases settled.symm.trans pending

/-- A skip that waits is left alone until one call gives it its count. -/
theorem get?_serveAll (found : l.get? position = some a) (edits : List Edit) :
    (l.serveAll edits).get? position = some a ∧ l.patches position edits = 0 ∨
      a.isPending = true ∧ l.patches position edits = 1 ∧
        ∃ count, (l.serveAll edits).get? position = some (a.withCount count) := by
  induction edits generalizing l with
  | nil => exact Or.inl ⟨found, rfl⟩
  | cons edit rest ih =>
    obtain ⟨found', idle⟩ | ⟨pending, patched, count, found'⟩ := get?_serve found edit
    · rw [patches, idle, Bool.toNat_false, Nat.zero_add]
      exact ih found'
    · -- from here on it has a count
      have settled : (a.withCount count).isPending = false := by
        rw [Action.isPending, Action.skipCount?_withCount pending]
        rfl
      obtain ⟨kept, none⟩ := get?_serveAll_settled found' settled rest
      refine Or.inr ⟨pending, ?_, count, kept⟩
      rw [patches, patched, none]
      rfl

theorem covers_serveAll (l : ActionList) (edits : List Edit) : Covers (l.serveAll edits) l := by
  intro position a found
  obtain ⟨kept, -⟩ | ⟨pending, -, count, filled⟩ := get?_serveAll found edits
  · exact ⟨a, kept, Or.inl rfl⟩
  · exact ⟨_, filled, Or.inr ⟨pending, count, rfl⟩⟩

/-- The list grows by what is written. -/
theorem length_serve (l : ActionList) (edit : Edit) :
    (l.serve edit).2.length = l.length + (edit.written l).length := by
  rw [← length_toList, ← length_toList l]
  obtain ⟨-, -, e⟩ | ⟨p, count, -, none, ⟨a, -, -, -, e⟩ | ⟨⟨e, refused⟩, -⟩⟩ :=
    l.serve_cases edit
  · rw [e, List.length_append]
  · rw [e, none, List.length_set, List.length_nil, Nat.add_zero]
  · rw [refused, none, List.length_nil, Nat.add_zero]

/-- What is written gets the next positions, in order, and keeps them. -/
theorem get?_written {l : ActionList} {edits : List Edit} {i : Nat}
    (written : (l.written edits)[i]? = some a) :
    ∃ a', (l.serveAll edits).get? (l.length + i) = some a' ∧ a.Fills a' := by
  induction edits generalizing l i with
  | nil => cases written
  | cons edit rest ih =>
    have grown := l.length_serve edit
    rw [ActionList.written, List.getElem?_append] at written
    split at written
    · next now =>
      -- it is written by this call, and covered by what the rest leaves
      obtain ⟨-, -, e⟩ | ⟨-, -, -, none, -⟩ := l.serve_cases edit
      · refine covers_serveAll (l.serve edit).2 rest _ a ?_
        rw [get?_eq_toList, e, ← length_toList, List.getElem?_append_right (Nat.le_add_right ..),
          Nat.add_sub_cancel_left, written]
      · rw [none] at now
        cases now
    · next later =>
      obtain ⟨a', found, fills⟩ := ih written
      rw [grown, Nat.add_assoc, Nat.add_sub_cancel' (Nat.le_of_not_lt later)] at found
      exact ⟨a', found, fills⟩

/-! ## Between two moments -/

/-- The skip at a position leads to a target when it is taken. -/
def Lands (l : ActionList) (position target : Nat) : Prop :=
  ∃ a count, l.get? position = some a ∧ a.skipCount? = some (some count) ∧
    Action.skipTarget? position count l.length = some target

/-- What holds of a list `l` and of the list `m` that it has become by later calls. -/
structure Persists (l : ActionList) (later : List Edit) (m : ActionList) : Prop where
  /-- An action stays at its position as it is, but for a skip without a count: once it is given
  one, by one call, and then it stays too. -/
  kept : ∀ position a, l.get? position = some a →
    m.get? position = some a ∧ l.patches position later = 0 ∨
      a.isPending = true ∧ l.patches position later = 1 ∧
        ∃ count, m.get? position = some (a.withCount count)
  /-- The actions that are written later stand behind those that were there, in order. -/
  next : ∀ i a, (l.written later)[i]? = some a →
    ∃ a', m.get? (l.length + i) = some a' ∧ a.Fills a'
  /-- Exactly a skip without a count can be given one. -/
  resolve : ∀ position count,
    (l.serve (.resolve position count)).1 = .ok () ↔ l.Waits position
  resolveHere : ∀ position, (l.serve (.resolveHere position)).1 = .ok () ↔ l.Waits position
  /-- A call that fails changes nothing. -/
  refused : ∀ edit e, (l.serve edit).1 = .error e → (l.serve edit).2 = l
  /-- A skip that was led to the end of the list leads to what is written next. -/
  landsNext : ∀ position rest, later = .resolveHere position :: rest →
    (l.serve (.resolveHere position)).1 = .ok () → m.Lands position l.length
  /-- A skip to a known position leads there. -/
  landsAt : ∀ target rest, later = .pushSkipTo target :: rest → target ≤ m.length →
    m.Lands l.length target

/-- The count of a skip that was led somewhere is read in the grown list. -/
theorem lands_of_led {target : Nat} (short : l.length < 2 ^ 31) (led : Led l position target) :
    l.Lands position target := by
  obtain ⟨inside, a, pending, found⟩ := led
  have before := lt_of_get? found
  exact ⟨_, _, found, Action.skipCount?_withCount pending _,
    skipTarget?_skipDistance short (Nat.le_of_lt before) inside⟩

/-- Whatever is called, and whether or not it succeeds, a list is written at its end only, a skip is
patched once, and skips land where they were led. -/
theorem serveAll_persists (start : ActionList) (earlier later : List Edit)
    (short : (start.serveAll (earlier ++ later)).length < 2 ^ 31) :
    Persists (start.serveAll earlier) later (start.serveAll (earlier ++ later)) := by
  rw [serveAll_append] at short ⊢
  generalize start.serveAll earlier = l at short ⊢
  refine ⟨fun _ _ found => get?_serveAll found later, fun _ _ => get?_written,
    fun position count => (l.patched_resolve position count).ok_iff,
    fun position => (l.patched_resolveHere position).ok_iff, fun _ _ => serve_error, ?_, ?_⟩
  · rintro position rest rfl ok
    have covers : Covers (l.serveAll (.resolveHere position :: rest))
        (l.serve (.resolveHere position)).2 := covers_serveAll _ rest
    rw [serve_resolveHere] at ok covers
    cases resolved : l.resolveHere position with
    | ok m =>
      rw [resolved] at covers
      exact lands_of_led short (covers.resolveHere resolved).2
    | error e =>
      rw [resolved] at ok
      cases ok
  · rintro target rest rfl inside
    have covers : Covers _ (l.pushSkipTo target) :=
      covers_serveAll (l.serve (.pushSkipTo target)).2 rest
    obtain ⟨-, count, found, lands⟩ := covers.pushSkipTo short inside
    exact ⟨_, count, found, rfl, lands⟩

/-- A skip over the code behind it waits while that is written, and is led behind it once. -/
theorem serveAll_persists_around :
    (empty.serveAll ([.pushSkip none, .push .abort] ++
      [.resolveHere 0, .resolve 0 7, .pushSkipTo 0])).length < 2 ^ 31 ∧
    (empty.serveAll ([.pushSkip none, .push .abort] ++
      [.resolveHere 0, .resolve 0 7, .pushSkipTo 0])).Lands 0 2 :=
  ⟨by decide, (serveAll_persists empty [.pushSkip none, .push .abort]
    [.resolveHere 0, .resolve 0 7, .pushSkipTo 0] (by decide)).landsNext 0 _ rfl rfl⟩

end ActionList

end SkipCode
