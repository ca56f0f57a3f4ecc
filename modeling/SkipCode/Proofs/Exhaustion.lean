import SkipCode.Proofs.MirroredUnits

/-!
# Exhausted pools

When its pool has no slot left a unit goes on with a placeholder. That hides no error and makes up
none: two sessions whose pools differ in their capacities alone do the same to a unit, since both do
what is done without any slots (`Lower.Mirrors`).

* `Lower.Asks`: what a run asks of the pool of its unit, in order;
* `UnitState.Answered`: a pool without reuse has met the first requests and refused the others;
* `Session.Runs.exhaustion_agrees`: what a unit gives in a session where nothing was refused, it
  gives in any other one, up to slots, and there it defers a refusal for each request beyond the
  capacity.
-/

namespace SkipCode

open Lower
open Source (MethodDecl Program Span Stmt)

/-! ## Requests -/

/-- A request for a slot: what the slot is for, and the position of the innermost statement around
it. -/
structure Request where
  owner : String
  span : Span

/-- The error that is noted where no slot is left for a request. -/
def Request.refusal (pool : Pool) (capacity : UInt32) (q : Request) : LowerError :=
  ⟨.exhausted pool capacity q.owner, some q.span⟩

/-- What a run asks of the pool of its unit, in order. The position is that of the innermost
statement around the step, which the state has to have. -/
inductive Lower.Asks : {α : Type} → Lower α → UnitState → Span → List Request → Prop
  | allocate {owner : String} {s : UnitState} : Asks
      (Lower.allocate owner) s s.span [⟨owner, s.span⟩]
  /-- No request is met, and none is refused. -/
  | quiet {α : Type} {m : Lower α} {s t : UnitState} {span : Span} {r : Except LowerError α} :
      run m s = some (r, t) → t.requests = s.requests → Asks m s span []
  | fails {α β : Type} {m : Lower α} {f : α →
      Lower β} {s t : UnitState} {span : Span} {e : LowerError}
      {asked : List Request} : Asks m s span asked → run m s = some (.error e, t) →
        Asks (m >>= f) s span asked
  | bind {α β : Type} {m : Lower α} {f : α → Lower β} {s t : UnitState} {span : Span} {a : α}
      {asked more : List Request} : Asks m s span asked → run m s = some (.ok a, t) →
        Asks (f a) t span more →
      Asks (m >>= f) s span (asked ++ more)
  | located {α : Type} {m : Lower α} {s : UnitState} {around span : Span} {asked : List Request} :
      Asks m { s with span := span } span asked → Asks (Lower.located span m) s around asked

/-! ## Answers -/

/-- A unit has asked its pool for these slots. Without reuse the pool has met the first requests, as
many as its capacity, and each of the others was refused. -/
structure UnitState.Answered (pool : Pool) (capacity : UInt32) (asked : List Request)
    (s : UnitState) : Prop where
  unit : s.pool = pool
  linear : ∀ pool, (s.session.slotPool pool).Linear
  named : (s.session.slotPool pool).pool = pool
  bound : (s.session.slotPool pool).capacity = capacity
  total : s.requests = asked.length
  next : (s.session.slotPool pool).next.toNat = min asked.length capacity.toNat
  deferred : s.deferred.reverse = (asked.drop capacity.toNat).map (Request.refusal pool capacity)

namespace UnitState.Answered

variable {pool : Pool} {capacity : UInt32} {asked : List Request} {s t : UnitState}

/-- What was answered depends on the session, the pool and what was put off. -/
theorem congr (h : s.Answered pool capacity asked) (session : t.session = s.session)
    (unit : t.pool = s.pool) (deferred : t.deferred = s.deferred) :
    t.Answered pool capacity asked := by
  refine ⟨unit.trans h.unit, session ▸ h.linear, session ▸ h.named, session ▸ h.bound, ?_,
    session ▸ h.next,
    deferred ▸ h.deferred⟩
  rw [requests, session, unit, deferred]
  exact h.total

/-- One more request is met while there is room. -/
theorem met {owner : String} {slot : UInt32} {p : SlotPool} (h : s.Answered pool capacity asked)
    (taken : (s.session.slotPool s.pool).allocate owner = .ok (slot, p)) (q : Request)
    (session : t.session = s.session.setSlotPool p s.pool) (unit : t.pool = s.pool)
    (deferred : t.deferred = s.deferred) : t.Answered pool capacity (asked ++ [q]) := by
  obtain rfl := h.unit
  obtain ⟨linear, -, higher⟩ := (h.linear s.pool).allocate taken
  have here : t.session.slotPool s.pool = p := by
    rw [session, Session.slotPool_setSlotPool, if_pos rfl]
  obtain ⟨_, free, -⟩ | ⟨-, room, -, rfl⟩ := SlotPool.allocate_ok taken
  · rw [(h.linear s.pool).free] at free
    cases free
  · have below : asked.length < capacity.toNat := by
      have := h.next
      have := UInt32.lt_iff_toNat_lt.1 room
      rw [h.bound] at this
      omega
    have length : (asked ++ [q]).length = asked.length + 1 := List.length_append
    refine ⟨unit, fun other => ?_, ?_, ?_, ?_, ?_, ?_⟩
    · rw [session, Session.slotPool_setSlotPool]
      split
      · exact linear
      · exact h.linear other
    · exact here ▸ h.named
    · exact here ▸ h.bound
    · have total := h.total
      rw [requests] at total ⊢
      rw [unit, here, deferred, SlotPool.allocations_allocate taken, length]
      omega
    · rw [here, higher, h.next, length]
      omega
    · rw [deferred, h.deferred, List.drop_eq_nil_of_le (by omega),
        List.drop_eq_nil_of_le (by omega)]

/-- And refused when there is none. -/
theorem refused {owner : String} {e : LowerError} (h : s.Answered pool capacity asked)
    (failed : (s.session.slotPool s.pool).allocate owner = .error e) :
    UnitState.Answered pool capacity (asked ++ [⟨owner, s.span⟩])
      { s with deferred := e.withSpan s.span :: s.deferred } := by
  obtain rfl := h.unit
  obtain ⟨-, full, rfl⟩ := SlotPool.allocate_error failed
  rw [h.named, h.bound]
  have above : capacity.toNat ≤ asked.length := by
    have := h.next
    have := UInt32.le_iff_toNat_le.1 (UInt32.not_lt.1 full)
    rw [h.bound] at this
    omega
  have length : (asked ++ [⟨owner, s.span⟩] : List Request).length = asked.length + 1 :=
    List.length_append
  refine ⟨rfl, h.linear, h.named, h.bound, ?_, ?_, ?_⟩
  · rw [length, ← h.total]
    rfl
  · have next := h.next
    rw [length]
    show (s.session.slotPool s.pool).next.toNat = _
    omega
  · rw [List.reverse_cons, h.deferred, List.drop_append_of_le_length above, List.map_append]
    rfl

end UnitState.Answered

/-- A storage without variables has taken no slot. -/
theorem ClassStorage.Draws.unused {s t : ClassStorage} (h : s.Draws t) (none' : t.data.vars = []) :
    t.pool = s.pool ∧ t.data = s.data := by
  cases h with
  | keep pool data => exact ⟨pool, data⟩
  | take _ _ noted =>
    rw [none'] at noted
    cases noted.nil_eq

/-- Without reuse a session is the same when slots are given back. -/
theorem Session.freeAll_linear {σ : Session} (linear : ∀ pool, (σ.slotPool pool).Linear)
    (owned : List (Pool × UInt32)) : owned.foldlM Session.free σ = .ok σ := by
  induction owned with
  | nil => rfl
  | cons o owned ih =>
    have kept : (σ.slotPool o.1).release o.2 = .ok (σ.slotPool o.1) :=
      SlotPool.release_ok_iff.2 (.inl ⟨(linear o.1).reuse, rfl⟩)
    have same : σ.setSlotPool (σ.slotPool o.1) o.1 = σ := by cases o.1 <;> rfl
    rw [List.foldlM_cons, Session.free, kept]
    show owned.foldlM Session.free (σ.setSlotPool (σ.slotPool o.1) o.1) = _
    rw [same]
    exact ih

namespace Lower

variable {α β : Type} {pool : Pool} {capacity : UInt32}

/-- A step whose requests are answered, when the storage of instances takes no slot. -/
structure Logs (pool : Pool) (capacity : UInt32) (m : Lower α) : Prop where
  grows : ∀ old, Preserves (fun s => ∃ created, s.session.classData.vars.Perm (created ++ old)) m
  answers : ∀ (s : UnitState) r t asked, run m s = some (r, t) → t.session.classData.vars = [] →
    s.Answered pool capacity asked → (∀ a, r = .ok a → t.span = s.span) ∧
      ∃ more, Asks m s s.span more ∧ t.Answered pool capacity (asked ++ more)

namespace Logs

/-- What the storage has, it had from the beginning. -/
theorem none_before {m : Lower α} (hm : Logs pool capacity m) {s t : UnitState}
    {r : Except LowerError α} (ran : run m s = some (r, t))
      (none' : t.session.classData.vars = []) :
    s.session.classData.vars = [] := by
  obtain ⟨created, perm⟩ := hm.grows s.session.classData.vars s r t ran ⟨[], .refl _⟩
  rw [none'] at perm
  exact (List.append_eq_nil_iff.1 perm.nil_eq.symm).2

/-- A step that neither takes a slot nor gives one back. -/
theorem quiet {m : Lower α}
    (grows : ∀ old, Preserves (fun s => ∃ created,
      s.session.classData.vars.Perm (created ++ old)) m)
    (h : ∀ (s : UnitState) r t, run m s = some (r, t) → t.session.classData.vars = [] →
      (∀ pool, (s.session.slotPool pool).Linear) →
      t.session = s.session ∧ t.pool = s.pool ∧ t.deferred = s.deferred ∧ t.span = s.span) :
    Logs pool capacity m := by
  refine ⟨grows, fun s r t asked ran none' answered => ?_⟩
  obtain ⟨session, unit, deferred, span⟩ := h s r t ran none' answered.linear
  have same : t.requests = s.requests := by
    rw [UnitState.requests, session, unit, deferred]
    rfl
  refine ⟨fun _ _ => span, [], .quiet ran same, ?_⟩
  rw [List.append_nil]
  exact answered.congr session unit deferred

/-- Steps that log compose. -/
theorem bind {m : Lower α} {f : α → Lower β} (hm : Logs pool capacity m)
    (hf : ∀ a, Logs pool capacity (f a)) :
    Logs pool capacity (m >>= f) := by
  refine ⟨fun old => .bind (hm.grows old) fun a => (hf a).grows old,
    fun s r t asked ran none' answered => ?_⟩
  obtain ⟨e, first, rfl⟩ | ⟨a, u, first, second⟩ := run_bind_cases ran
  · obtain ⟨-, more, asks, answered'⟩ := hm.answers s _ t asked first none' answered
    exact ⟨fun _ e => (by cases e), more, .fails asks first, answered'⟩
  · obtain ⟨span, more, asks, answered'⟩ :=
      hm.answers s _ u asked first ((hf a).none_before second none') answered
    obtain ⟨span', more', asks', answered''⟩ := (hf a).answers u r t _ second none' answered'
    rw [span a rfl] at span' asks'
    rw [List.append_assoc] at answered''
    exact ⟨span', more ++ more', .bind asks first asks', answered''⟩

/-- A span logs what its part does. -/
theorem located {m : Lower α} (span : Span) (hm : Logs pool capacity m) :
    Logs pool capacity (Lower.located span m) := by
  refine ⟨fun old => .located span (hm.grows old), fun s r t asked ran none' answered => ?_⟩
  obtain ⟨x, u, inside, rfl, rfl⟩ := run_located ran
  obtain ⟨-, more, asks, answered'⟩ :=
    hm.answers _ x u asked inside none' (answered.congr rfl rfl rfl)
  exact ⟨fun _ _ => rfl, more, .located asks, answered'.congr rfl rfl rfl⟩

/-- What leaves the session alone logs nothing. -/
theorem aside {m : Lower α} (hm : Aside m) : Logs pool capacity m :=
  .quiet (fun _ => .aside hm) fun s r t ran _ _ =>
    have same := hm s r t ran
    ⟨same.session, same.pool, same.deferred, same.span⟩

/-- A slot that is asked for is logged. -/
theorem allocate (owner : String) : Logs pool capacity (Lower.allocate owner) := by
  refine ⟨fun old s r t ran stored => ?_, fun s r t asked ran none' answered => ?_⟩
  · obtain ⟨-, -, ⟨_, _, -, session, -⟩ | ⟨_, -, session, -⟩⟩ := run_allocate ran
    · rw [session, Session.classData_setSlotPool]
      exact stored
    · exact session ▸ stored
  · obtain ⟨slot, p, taken, ⟨scope, rest, -, -, rfl⟩ | ⟨e, -, rfl, rfl⟩⟩ | ⟨e, failed, -, rfl⟩ :=
      run_allocate_cases ran
    · exact ⟨fun _ _ => rfl, _, .allocate, answered.met taken _ rfl rfl rfl⟩
    · exact ⟨fun _ e => (by cases e), _, .allocate, answered.met taken _ rfl rfl rfl⟩
    · exact ⟨fun _ _ => rfl, _, .allocate, answered.refused failed⟩

/-- Without reuse nothing is given back when a scope is closed. -/
theorem closeScope : Logs pool capacity Lower.closeScope := by
  refine .quiet (fun _ => .closeScope) fun s r t ran _ linear => ?_
  obtain ⟨e, -, rfl⟩ | ⟨scope, rest, -, ⟨e, -, same⟩ | ⟨u, same, freed⟩⟩ := run_closeScope_cases ran
  · exact ⟨rfl, rfl, rfl, rfl⟩
  · exact ⟨same.session, same.pool, same.deferred, same.span⟩
  · have kept : scope.owned.foldlM Session.free u.session = .ok u.session :=
      Session.freeAll_linear (fun pool => same.session ▸ linear pool) scope.owned
    cases (run_freeAll kept).symm.trans freed
    exact ⟨same.session, same.pool, same.deferred, same.span⟩

/-- A symbol logs nothing. -/
theorem addSymbol (name : String) (slot : UInt32) (stacked : Bool) :
    Logs pool capacity (Lower.addSymbol name slot stacked) := by
  refine .quiet (fun old s r t ran stored => ?_) fun s r t ran _ _ => ?_
  · cases ran
    exact stored
  · cases ran
    exact ⟨rfl, rfl, rfl, rfl⟩

/-- Making class storage logs what it asks for. -/
theorem onStorage {m : ClassStorage.Step α} (orders : ClassStorage.Orders m) :
    Logs pool capacity (Lower.onStorage m) := by
  refine .quiet (fun _ => Invariant.onStorage orders) fun s r t ran none' _ => ?_
  cases ran
  obtain ⟨pool', data'⟩ :=
    (orders ⟨s.session.classData, s.session.global, s.list⟩ _ _ rfl).unused none'
  refine ⟨?_, rfl, rfl, rfl⟩
  dsimp only
  rw [pool', data']

theorem rules : SlotRules (Logs pool capacity) where
  slotless hm := .aside hm.aside
  bind := bind
  located := located
  openScope := .quiet (fun _ => Preserves.rules.openScope) fun s r t ran _ _ => by
    cases ran
    exact ⟨rfl, rfl, rfl, rfl⟩
  closeScope := closeScope
  modifyScope _ := .quiet (fun _ => .modifyScope _) fun s r t ran _ _ => by
    obtain ⟨_, _, -, -, rfl⟩ | ⟨_, -, -, rfl⟩ :=
      run_modifyScope_cases ran <;> exact ⟨rfl, rfl, rfl, rfl⟩
  declared hf := .bind (.allocate _) fun slot => .bind (.addSymbol _ _ _) fun _ => hf slot
  onStorage orders _ := .onStorage orders

end Logs

end Lower

/-! ## Two sessions -/

/-- The first session of a program without classes. -/
theorem Session.new_classless {config : LowerConfig} {program : Program} {σ : Session}
    (classless : program.classes = []) (start : Session.new config program = .ok σ) :
    σ = ⟨config, .new .global config.globalCapacity config.reuseSlots,
      .new .actor config.actorCapacity config.reuseSlots, .empty, .empty, program.functions⟩ := by
  rw [Session.new, classless] at start
  obtain ⟨classes, built, start⟩ := except_bind_ok.1 start
  obtain ⟨_, -, start⟩ := except_bind_ok.1 start
  cases built
  cases start
  rfl

/-- An error that a unit fails with has no slot. -/
theorem LowerError.Regular.blank {e : LowerError} (regular : e.Regular) : SkipCode.blank e = e := by
  obtain ⟨cause, span⟩ := e
  cases cause with
  | defect d =>
    cases d with
    | notASkip position action => cases regular _ rfl
    | _ => rfl
  | exhausted | unsupported => rfl

/-- Two runs with one mirror end alike, and have made as many requests. -/
theorem Lower.Mirrored.agree {α : Type} [Blank α] {depth depth' : Nat} {s s' t : UnitState}
    {deferred : List LowerError} {r : Except LowerError α}
    {o o' : Option (Except LowerError α × UnitState)}
    (h : Mirrored depth s deferred (some (r, t)) o') (h' : Mirrored depth' s' deferred o o')
    (requests : s.requests = s'.requests) :
    t.pool = s.pool ∧ ∃ r' t', o = some (r', t') ∧ blank r' = blank r ∧ t'.requests = t.requests ∧
      t'.session.classData = .empty := by
  generalize found : some (r, t) = ended at h
  cases h with
  | endless => cases found
  | @ends r t later count pool =>
    cases found
    generalize found' : some (blank r, t.blanked later) = ended at h'
    cases h' with
    | endless => cases found'
    | @ends r' t' later' count' _ storage =>
      have both := Option.some.inj found'
      have same : later = later' := congrArg (fun x => x.2.deferred) both
      exact ⟨pool, r', t', rfl, (congrArg Prod.fst both).symm, by rw [same] at count; omega,
        storage⟩

namespace Session.Runs

variable {program : Program} {small large config : LowerConfig} {σ τ : Session} {unit : String}
  {pool : Pool} {m : Lower ActionList} {last : UnitState}

/-- A run of a unit depends on the declarations of its session. -/
theorem congr (runs : τ.Runs unit pool m) (classes : σ.classes = τ.classes)
    (functions : σ.functions = τ.functions) : σ.Runs unit pool m := by
  have bound : expansionBound σ = expansionBound τ := by
    rw [expansionBound, expansionBound, classes, functions]
  cases runs with
  | rule unit pool body =>
    rw [← bound]
    exact .rule unit pool body
  | statics =>
    rw [← bound, ← classes]
    exact .statics

/-- Without classes a run mirrors itself. -/
theorem mirrors (runs : σ.Runs unit pool m) (classless : σ.classes = .empty) : Mirrors 0 0 m m := by
  cases runs with
  | rule unit pool body => exact .unitBody (.stmts (.expander _) body)
  | statics =>
    rw [classless]
    exact .unitBody (.pure ())

/-- The error of a unit that fails in a new session mentions no slot. -/
theorem blank_error (runs : σ.Runs unit pool m) (start : Session.new config program = .ok σ)
    {e : LowerError} (ran : run m (.new σ unit pool) = some (.error e, last)) : blank e = e := by
  have history : History config program [] σ := .start start
  have failed : e.Regular ∨ last.list.Sound [] ∧
      ∃ c, last.list.check = .error c ∧ e = .defect (.badList c) := by
    cases runs with
    | rule unit pool body =>
      exact failed_unitBody (.stmts (Safe.expander _) body) history.lends history.built ran
    | statics =>
      exact failed_unitBody (.staticInitials (Safe.expander _) _) history.lends history.built ran
  obtain regular | ⟨-, _, -, rfl⟩ := failed
  · exact regular.blank
  · rfl

/-- Without reuse the first requests of a unit are met, as long as the storage of instances takes no
slot. -/
theorem answered (runs : σ.Runs unit pool m) (classless : program.classes = [])
    (start : Session.new config program = .ok σ) (noReuse : config.reuseSlots = false)
    {r : Except LowerError ActionList} (ran : run m (.new σ unit pool) = some (r, last))
    (storage : last.session.classData = .empty) :
    ∃ asked, Asks m (.new σ unit pool) .unknown asked ∧
      last.Answered pool (config.capacity pool) asked := by
  obtain rfl := Session.new_classless classless start
  have none' : last.session.classData.vars = [] := by
    rw [storage]
    rfl
  have logs : Logs pool (config.capacity pool) m := Logs.rules.composed runs.composed
  obtain ⟨-, asked, asks, answered⟩ := logs.answers _ r last [] ran none'
    ⟨rfl, fun other => by cases other <;> exact ⟨noReuse, rfl⟩, by cases pool <;> rfl, by
      cases pool <;> rfl,
      by cases pool <;> rfl, by cases pool <;> exact (Nat.zero_min _).symm, by simp [UnitState.new]⟩
  exact ⟨asked, asks, answered⟩

/-- Two sessions of a program without classes that differ in the capacities of their pools alone do
the same to a unit, when in one of them nothing is refused. In the other the unit fails with the
same error, or gives the same list up to slots. Without reuse it notes there a refusal for each
request beyond the capacity, in the order of the requests. -/
theorem exhaustion_agrees (classless : program.classes = [])
    (same : { small with
        globalCapacity := large.globalCapacity
        actorCapacity := large.actorCapacity } = large)
    (start : Session.new small program = .ok σ) (start' : Session.new large program = .ok τ)
    (runs : τ.Runs unit pool m) {r : Except LowerError ActionList} {last : UnitState}
    (ran : run m (.new τ unit pool) = some (r, last)) (clean : last.deferred = []) :
    σ.Runs unit pool m ∧ ∃ r' last', run m (.new σ unit pool) = some (r', last') ∧
      (∀ e, r = .error e → r' = .error e) ∧
      (∀ list, r = .ok list → ∃ list', r' = .ok list' ∧ blank list' = blank list) ∧
      (small.reuseSlots = false → ∃ asked, Asks m (.new σ unit pool) .unknown asked ∧
        asked.length = (last.session.slotPool pool).allocations ∧
        last'.deferred.reverse = (asked.drop (small.capacity pool).toNat).map
          (Request.refusal pool (small.capacity pool)) ∧
        last'.deferred.length =
          (last.session.slotPool pool).allocations - (small.capacity pool).toNat) := by
  have fresh := Session.new_classless classless start
  have fresh' := Session.new_classless classless start'
  have runs' : σ.Runs unit pool m := by
    refine runs.congr ?_ ?_ <;> rw [fresh, fresh']
  -- what is done without slots is the same in both sessions
  have mirror : (UnitState.new σ unit pool).blanked [] =
    (UnitState.new τ unit pool).blanked [] := by
    rw [fresh, fresh', ← same]
    rfl
  have fit : (UnitState.new σ unit pool).Fit 0 :=
    ⟨(History.start start).lends, by rw [fresh]; rfl, by rw [fresh]; rfl, rfl⟩
  have fit' : (UnitState.new τ unit pool).Fit 0 :=
    ⟨(History.start start').lends, by rw [fresh']; rfl, by rw [fresh']; rfl, rfl⟩
  have first := runs.mirrors fit'.classes 0 _ [] fit'
  have second := runs.mirrors fit'.classes 0 _ [] fit
  rw [ran] at first
  rw [mirror] at second
  have requests : (UnitState.new τ unit pool).requests = (UnitState.new σ unit pool).requests := by
    rw [fresh, fresh']
    cases pool <;> rfl
  obtain ⟨unit', r', last', ran', alike, total, storage⟩ := first.agree second requests
  refine ⟨runs', r', last', ran', ?_, ?_, fun noReuse => ?_⟩
  · rintro e rfl
    cases r' with
    | ok list => cases alike
    | error e' =>
      have errors : blank e' = blank e := Except.error.inj alike
      rw [← runs.blank_error start' ran, ← errors, runs'.blank_error start ran']
  · rintro list rfl
    cases r' with
    | ok list' => exact ⟨list', rfl, Except.ok.inj alike⟩
    | error e => cases alike
  · obtain ⟨asked, asks, answered⟩ := runs'.answered classless start noReuse ran' storage
    have met : last.requests = (last.session.slotPool pool).allocations := by
      rw [UnitState.requests, clean, unit']
      rfl
    have length : asked.length = (last.session.slotPool pool).allocations := by
      rw [← answered.total, total, met]
    refine ⟨asked, asks, length, answered.deferred, ?_⟩
    rw [← List.length_reverse, answered.deferred, List.length_map, List.length_drop, length]

end Session.Runs

namespace OneSlot

/-- One slot, where others have a thousand. -/
def small : LowerConfig := { LowerConfig.default with globalCapacity := 1 }

def twice : MethodDecl :=
  .named "twice" ["x"] [.ofKind (.return (some (.binary .add (.var "x") (.var "x"))))]

def program : Program := ⟨[], [twice], []⟩

/-- A rule that calls a function in a loop, and says nothing about slots. -/
def body : List Stmt :=
  [.define "first" (some (.number (.ofNat 1))),
    .ofKind (.while (.bool true)
      [(Stmt.define "second" (some (.callFunction "twice" [.var "first"]))).located ⟨2, 3⟩,
        .ofKind (.break 0)])]

/-- The same behind which a name is read that is not there. -/
def failing : List Stmt := body ++ [(Stmt.expr (.var "third")).located ⟨4, 1⟩]

def output? (body : List Stmt) : Option UnitOutput :=
  match Session.new .default program with
  | .error _ => none
  | .ok σ => σ.lowerUnit "rule" .global body

/-- How a rule ends that can be computed. -/
theorem exists_run (body : List Stmt) (p : UnitOutput → Bool) (h : (output? body).any p = true) :
    ∃ τ r last, Session.new .default program = .ok τ ∧
      run (unitBody (lowerStmts (expander (expansionBound τ)) body)) (.new τ "rule" .global) =
        some (r, last) ∧
      p ⟨r, last.deferred.reverse, last.symbols.reverse, last.session⟩ = true := by
  unfold output? at h
  split at h
  · cases h
  · next τ start =>
    obtain ⟨output, found, holds⟩ := (Option.any_eq_true _ _).1 h
    unfold Session.lowerUnit Session.runUnit at found
    obtain ⟨⟨r, last⟩, ran, e⟩ := Option.bind_eq_some_iff.1 found
    cases e
    exact ⟨τ, r, last, start, ran, holds⟩

end OneSlot

open OneSlot in
/-- With one slot the rule is the same up to slots, and three requests are refused. The rule that
fails does so for the name that is not there. -/
theorem exhaustion_agrees_one_slot : ∃ σ τ,
    Session.new small program = .ok σ ∧ Session.new .default program = .ok τ ∧
    (∃ list list' last last',
      run (unitBody (lowerStmts (expander (expansionBound τ)) body)) (.new τ "rule" .global) =
        some (.ok list, last) ∧
      run (unitBody (lowerStmts (expander (expansionBound τ)) body)) (.new σ "rule" .global) =
        some (.ok list', last') ∧ blank list' = blank list ∧ last'.deferred.length = 3) ∧
    ∃ e last last',
      run (unitBody (lowerStmts (expander (expansionBound τ)) failing)) (.new τ "rule" .global) =
        some (.error e, last) ∧
      run (unitBody (lowerStmts (expander (expansionBound τ)) failing)) (.new σ "rule" .global) =
        some (.error e, last') := by
  obtain ⟨τ, r, last, start', ran, fine⟩ := exists_run body (fun output => output.result.isOk &&
    output.deferred.isEmpty && (output.session.slotPool .global).allocations == 4)
      (by decide +kernel)
  obtain ⟨τ', r', last', start'', ran', fails⟩ := exists_run failing (fun output =>
    !output.result.isOk && output.deferred.isEmpty) (by decide +kernel)
  cases start'.symm.trans start''
  simp only [Bool.and_eq_true, List.isEmpty_reverse, List.isEmpty_iff, beq_iff_eq] at fine fails
  obtain ⟨⟨isOk, clean⟩, four⟩ := fine
  obtain ⟨notOk, clean'⟩ := fails
  have start : Session.new small program = .ok _ := rfl
  obtain ⟨-, s, t, here, -, lists, defers⟩ :=
    Session.Runs.exhaustion_agrees rfl rfl start start' (.rule "rule" .global body) ran clean
  obtain ⟨-, s', t', here', errors, -⟩ :=
    Session.Runs.exhaustion_agrees rfl rfl start start' (.rule "rule" .global failing) ran' clean'
  refine ⟨_, τ, start, start', ?_, ?_⟩
  · cases r with
    | error _ => cases isOk
    | ok list =>
      obtain ⟨list', rfl, same⟩ := lists list rfl
      obtain ⟨_, -, -, -, count⟩ := defers rfl
      refine ⟨list, list', last, t, ran, here, same, ?_⟩
      rw [count, four]
      rfl
  · cases r' with
    | ok _ => cases notOk
    | error e =>
      cases errors e rfl
      exact ⟨e, last', t', ran', here'⟩

end SkipCode
