import SkipCode.Proofs.Accounts
import SkipCode.Proofs.Composition
import SkipCode.Proofs.Unplaced

/-!
# What a step reports

A unit reports the failure that ends it, and the exhaustions that it goes past. An exhaustion is
noted with the position that the state has; a failure has no position until it leaves the statement
that it arises in. Both come out right only when nothing between the statements interferes:

* `Lower.Composed.tracks`: whatever is lowered, behind it the state has the position that it had
  before, and what is noted stays noted;
* `Lower.Direct`: a step without a statement inside of it, all of whose reports arise under the
  statement that it is part of.

`Lower.Explains` says of a step with statements inside that each of its reports arises like that, or
is one of the inner steps that are named; it is built up along the step by `Lower.Explains.bind`.
The other way round, a run reports what the steps report that it comes to, once a position is given
to it (`Lower.ComesTo.reports`).
-/

namespace SkipCode

open Source (Span)

/-- What a unit reports something for: the failure that ends it, or an exhaustion that it goes past,
by how many were noted before. -/
inductive Notice where
  | failure
  | shortage (before : Nat)

/-- The position of a report that arises under the statement at `span`. A failure has none yet. -/
def Notice.place (span : Span) : Notice → Option Span
  | failure => none
  | shortage _ => some span

namespace Lower

variable {α β γ : Type}

/-! ## Positions and notes -/

/-- Behind the step the state has the position that it had before, and notes nothing new. -/
def Quiet (m : Lower α) : Prop :=
  ∀ s r t, run m s = some (r, t) → t.span = s.span ∧ t.deferred = s.deferred

namespace Quiet

/-- What is aside from slots notes nothing. -/
theorem aside {m : Lower α} (hm : Aside m) : Quiet m := fun s r t h =>
  have same := hm s r t h
  ⟨same.span, same.deferred⟩

/-- Quiet steps one behind the other are quiet. -/
theorem bind {m : Lower α} {f : α → Lower β} (hm : Quiet m) (hf : ∀ a, Quiet (f a)) :
    Quiet (m >>= f) := by
  intro s r t h
  obtain ⟨e, failed, -⟩ | ⟨a, u, first, second⟩ := run_bind_cases h
  · exact hm s _ t failed
  · obtain ⟨span₁, deferred₁⟩ := hm s _ u first
    obtain ⟨span₂, deferred₂⟩ := hf a u r t second
    exact ⟨span₂.trans span₁, deferred₂.trans deferred₁⟩

/-- With these rules steps are put together of quiet ones. -/
theorem composes : Composes Lower Quiet := ⟨fun a => .aside (.pure a), bind⟩

theorem openScope : Quiet Lower.openScope := by
  intro s r t h
  cases h
  exact ⟨rfl, rfl⟩

theorem addSymbol (name : String) (slot : UInt32) (stacked : Bool) :
    Quiet (Lower.addSymbol name slot stacked) := by
  intro s r t h
  cases h
  exact ⟨rfl, rfl⟩

/-- A change of the innermost scope is quiet. -/
theorem modifyScope (f : Scope → Scope) : Quiet (Lower.modifyScope f) := by
  intro s r t h
  obtain ⟨scope, rest, -, -, rfl⟩ | ⟨e, -, -, rfl⟩ := run_modifyScope_cases h <;> exact ⟨rfl, rfl⟩

/-- A scope is closed quietly, slots and all. -/
theorem closeScope : Quiet Lower.closeScope := by
  have free (pool : Pool) (slot : UInt32) : Quiet (freeSlot pool slot) := by
    intro s r t h
    obtain ⟨_, ⟨⟩, -⟩ | ⟨_, _, ⟨⟩, h⟩ := run_bind_cases h
    obtain ⟨e, failed, -⟩ | ⟨p, u, lifted, h⟩ := run_bind_cases h
    · exact Quiet.aside (.lift _) _ _ _ failed
    · obtain ⟨-, rfl⟩ := run_lift_ok.1 lifted
      cases h
      exact ⟨rfl, rfl⟩
  intro s r t h
  obtain ⟨e, -, rfl⟩ | ⟨scope, rest, -, ⟨e, -, same⟩ | ⟨u, same, freed⟩⟩ := run_closeScope_cases h
  · exact ⟨rfl, rfl⟩
  · exact ⟨same.span, same.deferred⟩
  · obtain ⟨span, deferred⟩ := composes.forM (fun x _ => free x.1 x.2) _ _ _ freed
    exact ⟨span.trans same.span, deferred.trans same.deferred⟩

/-- The storage notes nothing, as what it is refused is a failure. -/
theorem onStorage (m : ClassStorage.Step α) : Quiet (Lower.onStorage m) := by
  intro s r t h
  cases h
  exact ⟨rfl, rfl⟩

end Quiet

/-- Behind the step the state has the position that it had before, and what was noted. -/
def Tracks (m : Lower α) : Prop :=
  ∀ s r t, run m s = some (r, t) → t.span = s.span ∧ s.deferred <:+ t.deferred

namespace Tracks

/-- A quiet step keeps what is noted. -/
theorem quiet {m : Lower α} (hm : Quiet m) : Tracks m := fun s r t h =>
  have same := hm s r t h
  ⟨same.1, same.2 ▸ List.suffix_refl _⟩

/-- Steps that only add to what is noted do so together. -/
theorem bind {m : Lower α} {f : α → Lower β} (hm : Tracks m) (hf : ∀ a, Tracks (f a)) :
    Tracks (m >>= f) := by
  intro s r t h
  obtain ⟨e, failed, -⟩ | ⟨a, u, first, second⟩ := run_bind_cases h
  · exact hm s _ t failed
  · obtain ⟨span₁, deferred₁⟩ := hm s _ u first
    obtain ⟨span₂, deferred₂⟩ := hf a u r t second
    exact ⟨span₂.trans span₁, deferred₁.trans deferred₂⟩

/-- A refused slot is noted, and lowering goes on. -/
theorem allocate (owner : String) : Tracks (Lower.allocate owner) := by
  intro s r t h
  obtain ⟨slot, p, -, ⟨scope, rest, -, -, rfl⟩ | ⟨e, -, -, rfl⟩⟩ | ⟨e, -, -, rfl⟩ :=
    run_allocate_cases h
  · exact ⟨rfl, List.suffix_refl _⟩
  · exact ⟨rfl, List.suffix_refl _⟩
  · exact ⟨rfl, List.suffix_cons _ _⟩

/-- The position from before comes back behind a statement. -/
theorem located {m : Lower α} (span : Span) (hm : Tracks m) : Tracks (Lower.located span m) := by
  intro s r t h
  obtain ⟨x, u, ran, -, rfl⟩ := run_located h
  exact ⟨rfl, (hm _ _ _ ran).2⟩

end Tracks

/-- Whatever is lowered, the state has the same position behind it, and what is noted stays noted.
-/
theorem Composed.tracks {m : Lower α} (composed : Composed m) : Tracks m := by
  refine SlotRules.composed (P := Tracks) ?_ composed
  constructor
  case slotless => exact fun hm => .quiet (.aside hm.aside)
  case bind => exact .bind
  case located => exact .located
  case openScope => exact .quiet .openScope
  case closeScope => exact .quiet .closeScope
  case modifyScope => exact fun _ => .quiet (.modifyScope _)
  case declared =>
    exact fun hf => .bind (.allocate _) fun slot =>
      .bind (.quiet (.addSymbol _ _ _)) fun _ => hf slot
  case onStorage => exact fun _ _ => .quiet (.onStorage _)

/-! ## Reports -/

/-- What the run of a step reports from a state on. -/
inductive Reports (m : Lower α) (s : UnitState) : Notice → LowerError → Prop
  | failure {e : LowerError} {t : UnitState} : run m s = some (.error e, t) → Reports m s .failure e
  | shortage {before : Nat} {e : LowerError} {r : Except LowerError α} {t : UnitState} :
      run m s = some (r, t) → s.deferred.length ≤ before → t.deferred.reverse[before]? = some e →
      Reports m s (.shortage before) e

namespace Reports

variable {m : Lower α} {f : α → Lower β} {s : UnitState} {i : Notice} {e e' : LowerError}

/-- A step makes one report of a kind. -/
theorem unique (h : m.Reports s i e) (h' : m.Reports s i e') : e = e' := by
  cases h with
  | failure ran =>
    cases h' with
    | failure ran' =>
      cases ran.symm.trans ran'
      rfl
  | shortage ran new noted =>
    cases h' with
    | shortage ran' new' noted' =>
      cases ran.symm.trans ran'
      exact Option.some.inj (noted.symm.trans noted')

/-- What is noted later does not move what was noted before. -/
theorem getElem?_of_suffix {before : Nat} {notes more : List LowerError} (h : notes <:+ more)
    (known : before < notes.length) : more.reverse[before]? = notes.reverse[before]? := by
  obtain ⟨late, rfl⟩ := h
  rw [List.reverse_append, List.getElem?_append_left (by simpa using known)]

/-- A step that notes nothing reports its failure only. -/
theorem failed (quiet : Quiet m) (h : m.Reports s i e) :
    i = .failure ∧ ∃ t, run m s = some (.error e, t) := by
  cases h with
  | failure ran => exact ⟨rfl, _, ran⟩
  | shortage ran new noted =>
    rw [(quiet _ _ _ ran).2] at noted
    have inside := (List.getElem?_eq_some_iff.1 noted).1
    rw [List.length_reverse] at inside
    omega

/-- A report of two steps is one of the first, or the first succeeds and it is one of the second. -/
theorem of_bind (h : (m >>= f).Reports s i e)
    (kept : ∀ a t r u, run m s = some (.ok a, t) → run (f a) t = some (r, u) →
      t.deferred <:+ u.deferred) :
    m.Reports s i e ∨ ∃ a t, run m s = some (.ok a, t) ∧ (f a).Reports t i e := by
  cases h with
  | failure ran =>
    obtain ⟨_, failed, ⟨⟩⟩ | ⟨a, u, first, second⟩ := run_bind_cases ran
    · exact Or.inl (.failure failed)
    · exact Or.inr ⟨a, u, first, .failure second⟩
  | @shortage before _ _ t ran new noted =>
    obtain ⟨_, failed, -⟩ | ⟨a, u, first, second⟩ := run_bind_cases ran
    · exact Or.inl (.shortage failed new noted)
    -- it was noted by then, or else the second step noted it
    by_cases known : before < u.deferred.length
    · rw [getElem?_of_suffix (kept a u _ _ first second) known] at noted
      exact Or.inl (.shortage first new noted)
    · exact Or.inr ⟨a, u, first, .shortage second (Nat.not_lt.1 known) noted⟩

/-- What the first of two steps reports, both report. -/
theorem first {r : Except LowerError β} {t : UnitState} (h : m.Reports s i e)
    (ran : run (m >>= f) s = some (r, t)) (tracks : ∀ a, Tracks (f a)) :
    (m >>= f).Reports s i e := by
  cases h with
  | failure failed => exact .failure (by rw [run_bind, failed])
  | @shortage before _ r' t' ran' new noted =>
    refine .shortage ran new ?_
    have known := (List.getElem?_eq_some_iff.1 noted).1
    rw [List.length_reverse] at known
    obtain ⟨_, failed, -⟩ | ⟨a, u, done, second⟩ := run_bind_cases ran
    · cases ran'.symm.trans failed
      exact noted
    · cases ran'.symm.trans done
      exact (getElem?_of_suffix (tracks a _ _ _ second).2 known).trans noted

/-- What the second of two steps reports, both report. -/
theorem later {a : α} {t : UnitState} (h : (f a).Reports t i e) (ran : run m s = some (.ok a, t))
    (kept : s.deferred <:+ t.deferred) : (m >>= f).Reports s i e := by
  have runs : run (m >>= f) s = run (f a) t := by rw [run_bind, ran]
  cases h with
  | failure failed => exact .failure (runs.trans failed)
  | shortage ran' new noted =>
    exact .shortage (runs.trans ran') (Nat.le_trans kept.length_le new) noted

end Reports

end Lower

/-- How a report leaves the statement at `span`: a failure without a position gets that of the
statement. -/
def Notice.leave (span : Span) : Notice → LowerError → LowerError
  | failure, e => e.withSpan span
  | shortage _, e => e

/-- A report that has left a statement has its position for good. -/
def Notice.Placed (i : Notice) (e : LowerError) : Prop := ∀ span, i.leave span e = e

namespace Notice

variable {span : Span} {i : Notice} {e : LowerError}

/-- What arises under a statement has its position behind it. -/
theorem span_leave (h : e.span = i.place span) : (i.leave span e).span = some span := by
  cases i with
  | failure =>
    have bare : e.span = none := h
    rw [leave, LowerError.span_withSpan, bare]
    rfl
  | shortage => exact h

/-- A report with a place is placed. -/
theorem placed_of_span (h : e.span = some span) : i.Placed e := by
  intro outer
  cases i with
  | failure =>
    rw [leave, LowerError.withSpan, h]
    exact congrArg (LowerError.mk e.cause) h.symm
  | shortage => rfl

/-- A report that leaves a statement is placed. -/
theorem placed_leave (i : Notice) (span : Span) (e : LowerError) : i.Placed (i.leave span e) := by
  cases i with
  | failure => exact placed_of_span (LowerError.span_withSpan e span)
  | shortage => exact fun _ => rfl

end Notice

namespace Lower

variable {α β γ : Type}

/-! ## Reports leave a statement -/

namespace Reports

variable {m : Lower α} {span : Span} {s : UnitState} {i : Notice} {e : LowerError}

/-- What a step with a place reports it reports inside, or its place is added. -/
theorem of_located (h : (located span m).Reports s i e) :
    ∃ e', m.Reports { s with span := span } i e' ∧ e = i.leave span e' := by
  cases h with
  | failure failed =>
    obtain ⟨x, u, ran, same, -⟩ := run_located failed
    cases x with
    | ok => cases same
    | error e' => exact ⟨e', .failure ran, Except.error.inj same⟩
  | shortage ran new noted =>
    obtain ⟨x, u, ran', -, rfl⟩ := run_located ran
    exact ⟨e, .shortage ran' new noted, rfl⟩

/-- What is reported inside is reported outside with a place. -/
theorem located (h : m.Reports { s with span := span } i e) :
    (Lower.located span m).Reports s i (i.leave span e) := by
  cases h with
  | failure failed => exact .failure (run_located_some failed)
  | shortage ran new noted => exact .shortage (run_located_some ran) new noted

end Reports

/-- A run reports what it comes to, once that has its position. -/
theorem ComesTo.reports {m : Lower α} {m' : Lower β} {s s' t : UnitState} {r : Except LowerError α}
    {i : Notice} {e : LowerError} (h : ComesTo m s m' s') (ran : run m s = some (r, t))
    (reported : m'.Reports s' i e) (placed : i.Placed e) : m.Reports s i e := by
  -- on the way from the outer step to the inner one; what surrounds the inner step keeps what it
  -- noted
  induction h generalizing t with
  | here => exact reported
  | first hm hf _ ih =>
    obtain ⟨_, failed, -⟩ | ⟨a, u, done, -⟩ := run_bind_cases ran
    · exact (ih failed reported).first ran fun a => (hf a).tracks
    · exact (ih done reported).first ran fun a => (hf a).tracks
  | later hm hf done _ ih =>
    rw [run_bind, done] at ran
    exact (ih ran reported).later done (hm.tracks _ _ _ done).2
  | @located _ _ _ _ span _ _ _ _ ih =>
    obtain ⟨x, u, inside, -, -⟩ := run_located ran
    -- the outer statement does not take the position for its own
    rw [← placed span]
    exact (ih inside reported).located

/-! ## Origins of reports -/

/-- Each report of the step arises under the statement at `span`, or it is a report from further
inside. -/
structure Explains (span : Span) (inner : Notice → LowerError → Prop) (m : Lower α)
    (s : UnitState) :
    Prop where
  tracks {r : Except LowerError α} {t : UnitState} : run m s = some (r, t) →
    t.span = s.span ∧ s.deferred <:+ t.deferred
  reports {i : Notice} {e : LowerError} : s.span = span → m.Reports s i e → e.span = i.place span ∨
    inner i e

namespace Explains

variable {span : Span} {inner inner' : Notice → LowerError → Prop} {s : UnitState}

/-- What explains a report explains it by more, too. -/
theorem mono {m : Lower α} (h : Explains span inner m s) (weaker : ∀ i e, inner i e → inner' i e) :
    Explains span inner' m s :=
  ⟨h.tracks, fun here reported => (h.reports here reported).imp_right (weaker _ _)⟩

/-- A step that runs as another one. -/
theorem congr {m m' : Lower α} (same : run m s = run m' s) (h : Explains span inner m' s) :
    Explains span inner m s := by
  refine ⟨fun ran => h.tracks (same ▸ ran), fun here reported => h.reports here ?_⟩
  cases reported with
  | failure ran => exact .failure (same ▸ ran)
  | shortage ran new noted => exact .shortage (same ▸ ran) new noted

/-- A step whose reports are those from further inside. -/
theorem within {m : Lower α} (composed : Composed m)
    (reported : s.span = span → ∀ {i e}, m.Reports s i e → inner i e) : Explains span inner m s :=
  ⟨fun ran => composed.tracks _ _ _ ran, fun here h => Or.inr (reported here h)⟩

/-- What is cut short reports nothing. -/
theorem endless : Explains span inner (Lower.endless : Lower α) s :=
  .within .endless fun _ _ _ reported => by cases reported <;> contradiction

/-- What two steps report is explained by one of them. -/
theorem bind {m : Lower α} {f : α → Lower β} (hm : Explains span inner m s)
    (hf : ∀ a t, run m s = some (.ok a, t) → Explains span inner (f a) t) :
    Explains span inner (m >>= f) s := by
  constructor
  case tracks =>
    intro r t h
    obtain ⟨e, failed, -⟩ | ⟨a, u, first, second⟩ := run_bind_cases h
    · exact hm.tracks failed
    · obtain ⟨span₁, deferred₁⟩ := hm.tracks first
      obtain ⟨span₂, deferred₂⟩ := (hf a u first).tracks second
      exact ⟨span₂.trans span₁, deferred₁.trans deferred₂⟩
  case reports =>
    intro i e here reported
    obtain first | ⟨a, t, ran, second⟩ :=
      reported.of_bind fun a t _ _ ran next => ((hf a t ran).tracks next).2
    · exact hm.reports here first
    · exact (hf a t ran).reports ((hm.tracks ran).1.trans here) second

/-- What is made of a result is explained as the result is. -/
theorem map {f : α → β} {m : Lower α} (hm : Explains span inner m s) :
    Explains span inner (f <$> m) s := by
  rw [← bind_pure_comp]
  refine hm.bind fun a t _ => .within (.pure _) fun _ i e reported => ?_
  obtain ⟨-, u, failed⟩ := reported.failed (.aside (.pure _))
  cases failed

end Explains

/-- A step without a statement inside of it: all that it reports arises under the statement that it
is part of. -/
def Direct (m : Lower α) : Prop := ∀ span s, Explains span (fun _ _ => False) m s

namespace Direct

/-- What a step reports directly its statement explains. -/
theorem explains {m : Lower α} (hm : Direct m) {span : Span} {inner : Notice → LowerError → Prop}
    {s : UnitState} : Explains span inner m s := (hm span s).mono fun _ _ => False.elim

/-- A quiet step without places is direct. -/
theorem quiet {m : Lower α} (quiet : Quiet m) (unplaced : Unplaced m) : Direct m := by
  refine fun span s => ⟨fun ran => Tracks.quiet quiet _ _ _ ran, fun here reported => Or.inl ?_⟩
  obtain ⟨rfl, t, failed⟩ := reported.failed quiet
  exact unplaced _ _ _ failed

/-- So is one aside from slots. -/
theorem aside {m : Lower α} (aside : Aside m) (unplaced : Unplaced m) :
    Direct m := .quiet (.aside aside) unplaced

/-- Direct steps one behind the other are direct. -/
theorem bind {m : Lower α} {f : α → Lower β} (hm : Direct m) (hf : ∀ a, Direct (f a)) :
    Direct (m >>= f) :=
  fun span s => (hm span s).bind fun a t _ => hf a span t

theorem pure (a : α) : Direct (Pure.pure a : Lower α) := .aside (.pure a) (.pure a)

/-- With these rules steps are put together of direct ones. -/
theorem composes : Composes Lower Direct := ⟨pure, bind⟩

theorem get : Direct (MonadState.get : Lower UnitState) := .aside .get .get

theorem defect (d : Defect) : Direct (throw (.defect d) : Lower α) := .aside (.throw _) (.defect d)

theorem unsupported (c : Unsupported) : Direct (throw (.unsupported c) : Lower α) :=
  .aside (.throw _) (.unsupported c)

/-- A lifted result without places is direct. -/
theorem lift {x : Except LowerError α} (hx : SkipCode.Unplaced x) : Direct (liftM x : Lower α) :=
  .aside (.lift x) (.lift hx)

theorem modifyList (f : ActionList → ActionList) :
    Direct (Lower.modifyList f) := .aside (.modifyList f) (.modify _)

theorem emit (actions : List Action) : Direct (Lower.emit actions) := modifyList _

/-- A name that means nothing is reported directly. -/
theorem lookup (name : String) : Direct (Lower.lookup name) :=
  .aside (Slotless.lookup name).aside (.lookup name)

theorem actorVar (name : String) : Direct (Lower.actorVar name) :=
  .aside (Slotless.actorVar name).aside (.actorVar name)

/-! ### Scopes and declarations -/

theorem openScope : Direct Lower.openScope := .quiet .openScope (.modify _)

/-- A scope is closed directly. -/
theorem closeScope : Direct Lower.closeScope := .quiet .closeScope .closeScope

theorem modifyScope (f : Scope → Scope) :
    Direct (Lower.modifyScope f) := .quiet (.modifyScope f) (.modifyScope f)

theorem bindName (name : String) (v : Variable) : Direct (Lower.bind name v) := modifyScope _

theorem hiddenName (what : String) : Direct (Lower.hiddenName what) :=
  .aside (Slotless.hiddenName what).aside (.hiddenName what)

/-- An exhaustion is noted with the position that the state has. -/
theorem allocate (owner : String) : Direct (Lower.allocate owner) := by
  intro span s
  refine ⟨fun ran => Tracks.allocate owner _ _ _ ran, fun here reported => Or.inl ?_⟩
  cases reported with
  | failure h => exact Unplaced.allocate owner _ _ _ h
  | @shortage before _ _ _ h new noted =>
    have inside := (List.getElem?_eq_some_iff.1 noted).1
    rw [List.length_reverse] at inside
    obtain ⟨slot, p, -, ⟨scope, rest, -, -, rfl⟩ | ⟨e, -, -, rfl⟩⟩ | ⟨refusal, refused, -, rfl⟩ :=
      run_allocate_cases h
    · exact absurd inside (Nat.not_lt.2 new)
    · exact absurd inside (Nat.not_lt.2 new)
    · -- the note is the last one
      obtain rfl : before = s.deferred.length := by
        rw [List.length_cons] at inside
        omega
      rw [List.reverse_cons, List.getElem?_append_right (by simp)] at noted
      simp only [List.length_reverse, Nat.sub_self, List.getElem?_cons_zero, Option.some.injEq]
        at noted
      have bare := SkipCode.Unplaced.allocate _ _ _ refused
      rw [← noted, LowerError.span_withSpan, bare, here]
      rfl

theorem addSymbol (name : String) (slot : UInt32) (stacked : Bool) :
    Direct (Lower.addSymbol name slot stacked) :=
  .quiet (.addSymbol name slot stacked) (.modify _)

theorem temp (what : String) : Direct (Lower.temp what) :=
  .bind (.hiddenName what) fun _ => .bind (.allocate _) fun _ => .bind (.addSymbol _ _ _) fun _ =>
    .bind .get fun _ => .pure _

/-- A stack is declared directly: a refusal is noted with the statement that is being lowered. -/
theorem declareStack (name : String) (initial : Option Element) :
    Direct (Lower.declareStack name initial) :=
  .bind (.allocate _) fun _ => .bind (.addSymbol _ _ _) fun _ => .bind .get fun _ =>
    .bind (.emit _) fun _ =>
    .bind (.modifyScope _) fun _ => .bind (.bindName _ _) fun _ => .pure _

/-- So is a plain variable. -/
theorem declarePlain (name : String) (initial : Option Element) :
    Direct (Lower.declarePlain name initial) := by
  have last (v : IndexedVar) : Direct (do
      Lower.bind name (.indexed v)
      return v) := .bind (.bindName _ _) fun _ => .pure _
  refine .bind (.allocate _) fun _ => .bind (.addSymbol _ _ _) fun _ => .bind .get fun _ => ?_
  cases initial with
  | none => exact last _
  | some value => exact .bind (.emit _) fun _ => last _

/-- With these rules all that declares is direct. -/
theorem rules : DeclareRules Direct where
  toComposes := composes
  get := get
  hiddenName := hiddenName
  temp := temp
  bindReference name _ := bindName name _
  declareStack := declareStack
  declarePlain := declarePlain

/-! ### Storage of instances -/

/-- The storage is direct in the unit. -/
theorem onStorage {m : ClassStorage.Step α} (hm : Attempt.Unplaced m) :
    Direct (Lower.onStorage m) :=
  .quiet (.onStorage m) (.onStorage hm)

theorem fieldVar (className field : String) (handle : Element) :
    Direct (Lower.fieldVar className field handle) :=
  .bind .get fun _ => .bind (.lift (.findField _ _)) fun _ => .bind (.lift (.layout _)) fun _ =>
    .bind (.onStorage (ClassStorage.unplaced_prepare _)) fun _ =>
      .bind (.onStorage (ClassStorage.unplaced_fieldStack _)) fun _ => .pure _

theorem staticVar (className field : String) : Direct (Lower.staticVar className field) :=
  .bind .get fun _ => .bind (.lift (.findStatic _ _)) fun _ =>
    .onStorage (ClassStorage.unplaced_staticField _ _)

/-! ### Conditionals and loops -/

/-- So are loops. -/
theorem onLoop {m : LoopBlock.Step Unit} (hm : Attempt.Unplaced m) (block : LoopBlock) :
    Direct (Lower.onLoop block m) := .aside (.onLoop block m) (.onLoop hm block)

theorem closeCondition :
    Direct Lower.closeCondition := .bind .get fun _ => .bind .closeScope fun _ => .pure _

/-- So is the start of a loop over an array. -/
theorem openForEach (index : Option String) (array : Element) :
    Direct (Lower.openForEach index array) := by
  have rest (name : String) : Direct (openForEachAt name array) := by
    refine .bind (rules.declare _ _ _) fun _ => .bind .get fun _ =>
      .bind (.onLoop (LoopBlock.unplaced_setup _) _) fun _ =>
        .bind (.onLoop (LoopBlock.unplaced_guard _) _) fun _ => ?_
    split
    · exact .pure _
    · exact .defect _
  cases index with
  | none => exact .bind (.hiddenName _) fun name => rest name
  | some name => exact rest name

/-- So is the end of a branch. -/
theorem closeArm (block : IfBlock) (tail : List Action) (chain : IfChain) (more : Bool) :
    Direct (Lower.closeArm block tail chain more) :=
  .aside (Slotless.closeArm _ _ _ _).aside (.closeArm _ _ _ _)

theorem closeChain (chain : IfChain) : Direct (Lower.closeChain chain) :=
  .aside (Slotless.closeChain chain).aside (.closeChain chain)

/-- So is that of a loop. -/
theorem closeLoop (block : LoopBlock) (tail : List Action) : Direct (Lower.closeLoop block tail) :=
  .aside (Slotless.closeLoop block tail).aside (.closeLoop block tail)

end Direct

end Lower

end SkipCode
