import SkipCode.Proofs.Access

/-!
# The positions of a run

The check of a list reads every action once and where it stands. It does not ask which conditions
will hold, and yet it covers every jump of every run: a skip either has a target inside the list or
right behind it, or it is refused.

* `tick_goto_le`: one step leads to a position of the list or to its end;
* `Walk.inside`: so does a run of any length;
* `checked_run_stays_inside`: what this means for a list that is accepted, and for one that is not.
-/

namespace SkipCode

/-- However long a list is, no skip leads further than to its end. -/
theorem Action.skipTarget?_le {ip len target : Nat} {count : Int32}
    (h : skipTarget? ip count len = some target) : target ≤ len := by
  -- the length as a signed word is at most the length, even where it does not fit the word
  have length : signedWord len ≤ len := by
    rw [signedWord_eq_bmod, Int.bmod_def]
    split <;> omega
  unfold skipTarget? at h
  dsimp only at h
  split at h
  · cases h
    omega
  · cases h

namespace Engine

section

variable {e e' : Engine} {list : ActionList} {ip ip' : Nat}

/-! ## One step -/

theorem taken_le {len : Nat} {count : Option Int32} (h : taken ip len count = .ok (.goto ip')) :
    ip' ≤ len := by
  unfold taken at h
  split at h
  · next target leads =>
    cases h
    obtain ⟨count, -, leads⟩ := Option.bind_eq_some_iff.1 leads
    exact Action.skipTarget?_le leads
  · cases h

/-- Where an action of a list leads is in the list or right behind it. -/
theorem step_goto_le {len : Nat} {a : Action} (inside : ip < len)
    (h : e.step ip len a = (.ok (.goto ip'), e')) : ip' ≤ len := by
  cases a with
  | set st slot index value =>
    rw [step] at h
    split at h
    · cases h
      exact inside
    · cases h
  | skipIf condition count =>
    rw [step] at h
    split at h
    · next v _ =>
      obtain ⟨leads, -⟩ := Prod.mk.inj h
      -- a condition that fails leads to the next action
      split at leads
      · exact taken_le leads
      · cases leads
        exact inside
    · cases h
  | skip count =>
    rw [step] at h
    exact taken_le (Prod.mk.inj h).1
  | abort => cases h

theorem tick_goto_le (h : e.tick list ip = some (.ok (.goto ip'), e')) : ip' ≤ list.length := by
  obtain ⟨a, found, ⟨limit, refused, -⟩ | h⟩ := tick_cases h
  · cases refused
  · rw [ActionList.get?_eq_toList] at found
    exact step_goto_le (List.getElem?_eq_some_iff.1 found).1 h

/-- An action without a flaw fails, if it fails, of a fault at its position. -/
theorem step_fails_at {a : Action} (sound : a.flaw? ip list.length = none) {err : RuntimeError}
    (h : e.step ip list.length a = (.error err, e')) : ∃ f, err = .fault ip f := by
  cases a with
  | set st slot index value =>
    rw [step] at h
    split at h
    · cases h
    · cases h
      exact ⟨_, rfl⟩
  | skipIf condition count =>
    obtain ⟨target, leads⟩ : ∃ target, taken ip list.length count = .ok (.goto target) :=
      taken_sound sound rfl
    rw [step] at h
    split at h
    · rw [leads] at h
      split at h <;> cases h
    · cases h
      exact ⟨_, rfl⟩
  | skip count =>
    obtain ⟨target, leads⟩ : ∃ target, taken ip list.length count = .ok (.goto target) :=
      taken_sound sound rfl
    rw [step, leads] at h
    cases h
  | abort => cases h

theorem tick_fails_at (check : list.check = .ok ()) {err : RuntimeError}
    (h : e.tick list ip = some (.error err, e')) : ∃ f, err = .fault ip f := by
  obtain ⟨a, found, ⟨limit, refused, -⟩ | h⟩ := tick_cases h
  · cases refused
    exact ⟨_, rfl⟩
  · exact step_fails_at (ActionList.flaw?_of_check check found) h

end

/-! ## Runs -/

/-- A run of a list that is at a position comes to be at another one. -/
inductive Walk (list : ActionList) : Nat → Engine → Nat → Engine → Prop
  | here (ip : Nat) (e : Engine) : Walk list ip e ip e
  | next {ip ip' ip'' e e' e''} : e.tick list ip = some (.ok (.goto ip'), e') →
      Walk list ip' e' ip'' e'' → Walk list ip e ip'' e''

/-- A run that is at a position has its end there. -/
inductive Halts (list : ActionList) (ip : Nat) (e : Engine) :
    Except RuntimeError Outcome → Engine → Prop
  | completed : list.get? ip = none → Halts list ip e (.ok .completed) e
  | aborted {e'} : e.tick list ip = some (.ok .stop, e') → Halts list ip e (.ok .aborted) e'
  | failed {err e'} : e.tick list ip = some (.error err, e') → Halts list ip e (.error err) e'

section

variable {e e' : Engine} {list : ActionList} {ip ip' : Nat}

/-- A run with an answer has walked to where it has its end. -/
theorem halts_of_execute {fuel : Nat} {r : Except RuntimeError Outcome}
    (h : execute list fuel ip e = some (r, e')) :
    ∃ ip₁ e₁, Walk list ip e ip₁ e₁ ∧ Halts list ip₁ e₁ r e' := by
  induction fuel generalizing ip e with
  | zero => cases h
  | succ fuel ih =>
    rw [execute_succ] at h
    split at h
    · next none =>
      cases h
      rw [tick, Option.map_eq_none_iff] at none
      exact ⟨ip, _, .here ip _, .completed none⟩
    · next step =>
      cases h
      exact ⟨ip, e, .here ip e, .failed step⟩
    · next step =>
      cases h
      exact ⟨ip, e, .here ip e, .aborted step⟩
    · next step =>
      obtain ⟨ip₁, e₁, walk, halts⟩ := ih h
      exact ⟨ip₁, e₁, .next step walk, halts⟩

/-- A run that starts in its list or right behind it stays there. -/
theorem Walk.inside (walk : Walk list ip e ip' e') (start : ip ≤ list.length) :
    ip' ≤ list.length := by
  induction walk with
  | here => exact start
  | next step _ ih => exact ih (tick_goto_le step)

/-- A run of a list that is fit to run ends with a fault at one of its actions, or completes right
behind the last one, or is aborted. -/
theorem Halts.cases {r : Except RuntimeError Outcome} (check : list.check = .ok ())
    (halts : Halts list ip e r e') (inside : ip ≤ list.length) :
    (∃ f, r = .error (.fault ip f)) ∨ (r = .ok .completed ∧ ip = list.length) ∨
      r = .ok .aborted := by
  cases halts with
  | completed none =>
    have behind : list.length ≤ ip := by
      rw [ActionList.get?_eq_toList] at none
      exact List.getElem?_eq_none_iff.1 none
    exact Or.inr (Or.inl ⟨rfl, by omega⟩)
  | aborted => exact Or.inr (Or.inr rfl)
  | failed step =>
    obtain ⟨f, rfl⟩ := tick_fails_at check step
    exact Or.inl ⟨f, rfl⟩

end

/-- The engine that a run as an actor starts with. -/
def started (e : Engine) (actor : Int64) : Engine := { e with actor := actor, steps := 0 }

/-- A list that is accepted never leads a run out of itself: whatever the stores, the configuration
and the actor are, and however long the run goes on, it is at a position of the list or right behind
it, it is not found to be malformed, and it completes nowhere but behind the last action. A list
that is refused is not run: the answer is what the check found, and the engine stays as it is. -/
theorem checked_run_stays_inside (list : ActionList) (e : Engine) (actor : Int64) :
    (list.check = .ok () →
      e.runList list actor = execute list (fuel e.config) 0 (e.started actor) ∧
      (∀ fuel r e', execute list fuel 0 (e.started actor) = some (r, e') →
        ∃ ip e₁, Walk list 0 (e.started actor) ip e₁ ∧ Halts list ip e₁ r e') ∧
      ∀ ip e₁, Walk list 0 (e.started actor) ip e₁ → ip ≤ list.length ∧
        ∀ r e', Halts list ip e₁ r e' →
          (∀ err, r ≠ .error (.malformed err)) ∧ (r = .ok .completed → ip = list.length)) ∧
    ∀ err, list.check = .error err → e.runList list actor = some (.error (.malformed err), e) := by
  refine ⟨fun check => ⟨?_, ?_, ?_⟩, ?_⟩
  · rw [runList, check]
    rfl
  · intro fuel r e' ran
    exact halts_of_execute ran
  · intro ip e₁ walk
    have inside := walk.inside (Nat.zero_le _)
    refine ⟨inside, fun r e' halts => ?_⟩
    obtain ⟨f, rfl⟩ | ⟨rfl, atEnd⟩ | rfl := halts.cases check inside
    · exact ⟨fun _ e => (by cases e), fun e => by cases e⟩
    · exact ⟨fun _ e => (by cases e), fun _ => atEnd⟩
    · exact ⟨fun _ e => (by cases e), fun e => by cases e⟩
  · intro err refused
    rw [runList, refused]

/-- A skip back to itself while a condition holds is accepted, and its runs are at position zero or
one. A skip that was never resolved is refused. -/
theorem checked_run_stays_inside_waiting :
    (∀ ip e₁, Walk (.ofList [.skipIf .eventPlayer (some (-1))]) 0 ((new .default).started 3) ip e₁ →
      ip ≤ 1) ∧
    (new .default).runList (.ofList [.abort, .skip none]) 3 =
      some (.error (.malformed ⟨1, .unresolved⟩), new .default) :=
  ⟨fun ip e₁ walk =>
      (((checked_run_stays_inside (.ofList [.skipIf .eventPlayer (some (-1))]) (new .default) 3).1
        (by decide)).2.2 ip e₁ walk).1,
    (checked_run_stays_inside (.ofList [.abort, .skip none]) (new .default) 3).2 _ (by decide)⟩

end Engine

end SkipCode
