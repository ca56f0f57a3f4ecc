import SkipCode.Proofs.Accounts
import SkipCode.Proofs.Bindings
import SkipCode.Proofs.Blank

/-!
# Lowering without slots

The blank of a state has pools without any slot. There lowering defers each of its requests, and all
else it does is the blank of what it does in the state itself (`Lower.Mirrors`), as long as the
program has no classes: the storage of instances has to have its slots.
-/

namespace SkipCode

open Lower
open Source (Branch Expr Place Span Stmt StmtKind)

/-! ## States without slots -/

instance : Blank Scope := ⟨fun scope => ⟨blank scope.bindings, blank scope.exits, []⟩⟩
instance : Blank Frame := ⟨fun frame => { frame with result := blank frame.result }⟩
instance : Blank Symbol := ⟨fun symbol => { symbol with slot := placeholderSlot }⟩
instance : Blank Callee := ⟨id⟩

instance : Blank Region := ⟨fun region =>
  { region with
    params := blank region.params
    this := blank region.this
    returnAddress := blank region.returnAddress
    argumentTemps := blank region.argumentTemps
    thisTemp := blank region.thisTemp
    result := blank region.result }⟩

/-- Both pools of the blank of a session are empty. -/
instance : Blank Session := ⟨fun σ =>
  { σ with
    config := { σ.config with globalCapacity := 0, actorCapacity := 0 }
    global := .new .global 0 false
    actor := .new .actor 0 false
    classData := .empty }⟩

/-- The blank of a state, with the requests that are deferred there. -/
def UnitState.blanked (s : UnitState) (deferred : List LowerError) : UnitState :=
  { s with
    session := blank s.session
    list := blank s.list
    scopes := blank s.scopes
    frames := blank s.frames
    regions := blank s.regions
    symbols := blank s.symbols
    deferred := deferred }

/-- How many slots of its own pool the unit has asked for, with those that were deferred. -/
def UnitState.requests (s : UnitState) : Nat :=
  (s.session.slotPool s.pool).allocations + s.deferred.length

/-- A state in which so many scopes are open and their slots can be given back, of a program without
classes. -/
structure UnitState.Fit (depth : Nat) (s : UnitState) : Prop where
  lends : s.session.Lends s.owned
  classes : s.session.classes = .empty
  storage : s.session.classData = .empty
  scopes : s.scopes.length = depth

/-- Whether a unit fits its session depends on the session and the scopes alone. -/
theorem UnitState.Fit.congr {depth : Nat} {s t : UnitState} (h : s.Fit depth)
    (session : t.session = s.session) (scopes : t.scopes = s.scopes) : t.Fit depth := by
  refine ⟨?_, session ▸ h.classes, session ▸ h.storage, scopes ▸ h.scopes⟩
  rw [UnitState.owned, session, scopes]
  exact h.lends

namespace UnitState

variable (s : UnitState) (deferred : List LowerError)

/-- Blanking keeps the number of scopes. -/
theorem length_scopes_blanked :
    (s.blanked deferred).scopes.length = s.scopes.length := length_blank _

/-- It keeps the number of frames. -/
theorem length_frames_blanked :
    (s.blanked deferred).frames.length = s.frames.length := length_blank _

/-- It keeps which scopes are above a place. -/
theorem scopesFrom_blanked (floor : Nat) :
    (s.blanked deferred).scopesFrom floor = blank (s.scopesFrom floor) := by
  rw [scopesFrom, scopesFrom, length_scopes_blanked]
  exact List.map_take.symm

/-- The body that names are looked up in is the same. -/
theorem lookupFloor_blanked : (s.blanked deferred).lookupFloor = s.lookupFloor := by
  obtain ⟨_, _, _, _, _, _, frames⟩ := s
  cases frames <;> rfl

/-- Whether it is recursive is the same. -/
theorem inRecursiveFrame_blanked : (s.blanked deferred).inRecursiveFrame = s.inRecursiveFrame := by
  obtain ⟨_, _, _, _, _, _, frames⟩ := s
  cases frames <;> rfl

/-- A name means the same variable, up to its slot. -/
theorem bound?_blanked (name : String) :
    (s.blanked deferred).bound? name = blank (s.bound? name) := by
  have named (bindings : List (String × Variable)) :
    (blank bindings).lookup name = blank (bindings.lookup name) := by
    induction bindings with
    | nil => rfl
    | cons b rest ih =>
      obtain ⟨name', v⟩ := b
      show ((name', blank v) :: blank rest).lookup name = _
      rw [List.lookup_cons, List.lookup_cons, ih]
      split <;> rfl
  rw [bound?, bound?, scopesFrom_blanked, lookupFloor_blanked]
  show List.findSome? _ (List.map _ _) = Option.map _ _
  rw [List.findSome?_map, List.map_findSome?]
  exact congrArg (List.findSome? · _) (funext fun scope => named scope.bindings)

/-- The same stacks are popped on the way out of a body. -/
theorem pendingPops_blanked (depth : Nat) :
    pendingPops (s.blanked deferred) depth = blank (pendingPops s depth) := by
  rw [pendingPops, pendingPops, scopesFrom_blanked]
  exact (blank_flatMap (fun scope => blank_flatMap
    (fun v => v.blank_popActions none) scope.exits) _).symm

end UnitState

namespace Session

variable {σ τ : Session} {owned : List (Pool × UInt32)}

/-- What is lent to more is lent to less. -/
theorem Lends.forgetAll {rest : List (Pool × UInt32)} (h : σ.Lends (owned ++ rest)) :
    σ.Lends rest := by
  induction owned with
  | nil => exact h
  | cons o owned ih => exact ih h.forget

/-- A blanked session does not know its pools. -/
theorem blank_setSlotPool (p : SlotPool) (pool : Pool) :
    blank (σ.setSlotPool p pool) = blank σ := by
  cases pool <;> rfl

theorem classes_setSlotPool (p : SlotPool) (pool : Pool) :
    (σ.setSlotPool p pool).classes = σ.classes := by
  cases pool <;> rfl

/-- The pool of a blanked session refuses everything. -/
theorem allocate_blank (σ : Session) (pool : Pool) (owner : String) :
    ((blank σ).slotPool pool).allocate owner = .error (.exhausted pool 0 owner) := by
  cases pool <;> rfl

/-- What is given back makes no difference but for the slots that are free. -/
structure GivesBack (σ τ : Session) : Prop where
  blank : blank τ = blank σ
  allocations : ∀ pool, (τ.slotPool pool).allocations = (σ.slotPool pool).allocations
  classes : τ.classes = σ.classes

/-- A session that gets slots back can go on getting them. -/
theorem givesBack_freeAll (freed : owned.foldlM Session.free σ = .ok τ) : σ.GivesBack τ := by
  induction owned generalizing σ with
  | nil =>
    cases freed
    exact ⟨rfl, fun _ => rfl, rfl⟩
  | cons o owned ih =>
    rw [List.foldlM_cons] at freed
    obtain ⟨σ', first, others⟩ := except_bind_ok.1 freed
    obtain ⟨p, released, e⟩ := except_bind_ok.1 first
    cases e
    have more := ih others
    have kept : p.allocations = (σ.slotPool o.1).allocations := by
      obtain ⟨-, rfl⟩ | ⟨-, -, -, rfl⟩ := SlotPool.release_ok_iff.1 released <;> rfl
    refine ⟨more.blank.trans (blank_setSlotPool p o.1),
      fun pool => (more.allocations pool).trans ?_,
      more.classes.trans ?_⟩
    · rw [slotPool_setSlotPool]
      split
      · next e => rw [kept, e]
      · rfl
    · exact classes_setSlotPool p o.1

end Session

/-- A slot that is taken is counted. -/
theorem SlotPool.allocations_allocate {p q : SlotPool} {owner : String} {slot : UInt32}
    (taken : p.allocate owner = .ok (slot, q)) : q.allocations = p.allocations + 1 := by
  obtain ⟨rest, -, rfl⟩ | ⟨-, -, -, rfl⟩ := SlotPool.allocate_ok taken <;> rfl

namespace Lower

/-- What the allocation of a slot does inside a scope. -/
theorem run_allocate_open {s : UnitState} {scope : Scope} {rest : List Scope}
    (scopes : s.scopes = scope :: rest) (owner : String) : run (allocate owner) s =
      match (s.session.slotPool s.pool).allocate owner with
      | .ok (slot, p) => some (.ok slot, { s with
          session := s.session.setSlotPool p s.pool
          scopes := { scope with owned := (s.pool, slot) :: scope.owned } :: rest })
      | .error e =>
        some (.ok placeholderSlot, { s with deferred := e.withSpan s.span :: s.deferred }) := by
  rw [allocate, run_bind, run_get]
  dsimp only
  cases (s.session.slotPool s.pool).allocate owner with
  | error e => rfl
  | ok taken =>
    rw [run_bind, run_set]
    dsimp only
    rw [modifyScope, bind_assoc, run_bind, run_get]
    simp only [scopes]
    rfl

variable {α β γ : Type} [Blank α] [Blank β]

/-! ## Two runs -/

/-- The second run ends like the first one, without slots: with the same answer, in the blank of the
state in which the first ends, and with one more deferred for each request. -/
inductive Mirrored (depth : Nat) (s : UnitState) (deferred : List LowerError) :
    Option (Except LowerError α × UnitState) → Option (Except LowerError α × UnitState) → Prop
  | endless : Mirrored depth s deferred none none
  | ends {r : Except LowerError α} {t : UnitState} {later : List LowerError} :
      later.length + s.requests = deferred.length + t.requests → t.pool = s.pool →
      t.session.classData = .empty → (∀ a, r = .ok a → t.Fit depth) →
      Mirrored depth s deferred (some (r, t)) (some (blank r, t.blanked later))

/-- The second step does to the blank of a state what the first does to the state. With so many
scopes open that belong to the step, and so many behind it. -/
def Mirrors (before behind : Nat) (m m' : Lower α) : Prop :=
  ∀ (outside : Nat) (s : UnitState) (deferred : List LowerError), s.Fit (outside + before) →
    Mirrored (outside + behind) s deferred (run m s) (run m' (s.blanked deferred))

namespace Mirrored

variable {depth : Nat} {s t : UnitState} {deferred : List LowerError}

/-- A failure mirrors the same failure. -/
theorem error (fit : s.Fit depth) (e : LowerError) {behind : Nat} :
    Mirrored (α := α) behind s deferred (some (.error e, s))
      (some (.error (blank e), s.blanked deferred)) :=
  .ends rfl rfl fit.storage fun _ h => by cases h

/-- A state that has the slots of the one before. -/
theorem aside (fit : s.Fit depth) (session : t.session = s.session) (pool : t.pool = s.pool)
    (scopes : t.scopes = s.scopes) (later : t.deferred = s.deferred) (r : Except LowerError α) :
    Mirrored depth s deferred (some (r, t)) (some (blank r, t.blanked deferred)) := by
  refine .ends ?_ pool (session ▸ fit.storage) fun _ _ => fit.congr session scopes
  rw [UnitState.requests, UnitState.requests, session, pool, later]

/-- What comes behind a part that has made its requests. -/
theorem after {later : List LowerError} {o o' : Option (Except LowerError α × UnitState)}
    (count : later.length + s.requests = deferred.length + t.requests) (pool : t.pool = s.pool)
    (h : Mirrored depth t later o o') : Mirrored depth s deferred o o' := by
  cases h with
  | endless => exact .endless
  | ends count' pool' storage fit => exact .ends (by omega) (pool'.trans pool) storage fit

/-- Runs that mirror each other do so behind runs that do. -/
theorem bind {m m' : Lower α} {f f' : α → Lower β} {before behind outside : Nat}
    (hm : Mirrored (outside + before) s deferred (run m s) (run m' (s.blanked deferred)))
    (hf : ∀ a, Mirrors before behind (f a) (f' (blank a))) :
    Mirrored (outside + behind) s deferred (run (m >>= f) s)
      (run (m' >>= f') (s.blanked deferred)) := by
  rw [run_bind, run_bind]
  generalize run m s = first at hm
  generalize run m' (s.blanked deferred) = first' at hm
  cases hm with
  | endless => exact .endless
  | @ends r t later count pool storage fit =>
    cases r with
    | error e => exact .ends count pool storage fun _ h => by cases h
    | ok a => exact (hf a outside t later (fit a rfl)).after count pool

/-- Slots are given back, of which the blank of the state has none. -/
theorem freed {owned : List (Pool × UInt32)} (lends : s.session.Lends (owned ++ s.owned))
    (fit : s.Fit depth) :
    Mirrored depth s deferred (run (owned.forM fun o => freeSlot o.1 o.2) s)
      (some (.ok (), s.blanked deferred)) := by
  obtain ⟨σ, freed, rest⟩ := lends.freeAll
  have given : run (owned.forM fun o => freeSlot o.1 o.2) s =
    some (.ok (), { s with session := σ }) :=
    run_freeAll freed
  have back := Session.givesBack_freeAll freed
  have storage : σ.classData = .empty := (Session.classData_freeAll freed).trans fit.storage
  have same : UnitState.blanked { s with session := σ } deferred = s.blanked deferred := by
    rw [UnitState.blanked, UnitState.blanked, back.blank]
  rw [given, ← same]
  refine .ends (r := .ok ()) ?_ rfl storage fun _ _ =>
    ⟨rest, back.classes.trans fit.classes, storage, fit.scopes⟩
  show deferred.length + s.requests =
    deferred.length + ((σ.slotPool s.pool).allocations + s.deferred.length)
  rw [back.allocations]
  rfl

end Mirrored

namespace Mirrors

variable {before between behind : Nat}

/-- More scopes around do not matter. -/
theorem deeper {m m' : Lower α} (h : Mirrors before behind m m') :
    Mirrors (before + 1) (behind + 1) m m' := by
  intro outside s deferred fit
  have := h (outside + 1) s deferred (by rw [Nat.add_right_comm]; exact fit)
  rwa [Nat.add_right_comm] at this

/-- A value that is given back is mirrored by the blanked one. -/
theorem pure (a : α) : Mirrors before before (Pure.pure a) (Pure.pure (blank a)) :=
  fun _ _ _ fit => .aside fit rfl rfl rfl rfl (.ok a)

theorem answer {a a' : α} (h : blank a = a') :
    Mirrors before before (Pure.pure a) (Pure.pure a') := h ▸ .pure a

theorem lift {x x' : Except LowerError α} (h : blank x = x') :
    Mirrors before before (liftM x : Lower α) (liftM x') := by
  subst h
  intro outside s deferred fit
  rw [run_lift, run_lift]
  exact .aside fit rfl rfl rfl rfl x

/-- What fails is mirrored by what fails alike. -/
theorem throw {e e' : LowerError} (h : blank e = e') :
    Mirrors before behind (MonadExcept.throw e : Lower α) (MonadExcept.throw e') := by
  subst h
  exact fun _ _ _ fit => .error fit e

/-- What is cut short is mirrored by what is cut short. -/
theorem endless :
    Mirrors before behind (Lower.endless : Lower α) Lower.endless := fun _ _ _ _ => .endless

/-- Steps that mirror each other do so one behind the other. -/
theorem bind {m m' : Lower α} {f f' : α → Lower β} (hm : Mirrors before between m m')
    (hf : ∀ a, Mirrors between behind (f a) (f' (blank a))) :
    Mirrors before behind (m >>= f) (m' >>= f') :=
  fun outside s deferred fit => (hm outside s deferred fit).bind hf

/-- What depends on the state goes on in it. -/
theorem replace {f f' : UnitState → Lower α}
    (h : ∀ outside s deferred, s.Fit (outside + before) →
      Mirrored (outside + behind) s deferred (run (f s) s)
        (run (f' (s.blanked deferred)) (s.blanked deferred))) :
    Mirrors before behind (MonadState.get >>= f) (MonadState.get >>= f') := by
  intro outside s deferred fit
  rw [run_bind, run_bind]
  exact h outside s deferred fit

/-- What looks at a state without classes mirrors what looks at the blanked one. -/
theorem get {f f' : UnitState → Lower α}
    (h : ∀ (s : UnitState) deferred, s.session.classes = .empty →
      Mirrors before behind (f s) (f' (s.blanked deferred))) :
    Mirrors before behind (MonadState.get >>= f) (MonadState.get >>= f') :=
  .replace fun outside s deferred fit => h s deferred fit.classes outside s deferred fit

/-- A change of what the slots have nothing to do with. -/
theorem change {f f' : UnitState → UnitState}
    (same : ∀ s deferred, (f s).blanked deferred = f' (s.blanked deferred))
    (kept : ∀ s, (f s).session = s.session ∧ (f s).pool = s.pool ∧ (f s).scopes = s.scopes ∧
      (f s).deferred = s.deferred) :
    Mirrors before before (modify f : Lower Unit) (modify f') := by
  intro outside s deferred fit
  obtain ⟨session, pool, scopes, later⟩ := kept s
  rw [run_modify, run_modify, ← same]
  exact .aside fit session pool scopes later (.ok ())

/-- What is made of mirrored results is mirrored. -/
theorem map {m m' : Lower α} {f f' : α → β} (hm : Mirrors before behind m m')
    (hf : ∀ a, blank (f a) = f' (blank a)) :
    Mirrors before behind (f <$> m) (f' <$> m') := by
  rw [← bind_pure_comp, ← bind_pure_comp]
  refine .bind hm fun a => ?_
  rw [← hf]
  exact .pure _

theorem discard {m m' : Lower α} (hm : Mirrors before behind m m') :
    Mirrors before behind (Functor.discard m) (Functor.discard m') := .map hm fun _ => rfl

/-- Rows of steps mirror each other one by one. -/
theorem forM [Blank γ] (f : γ → Lower Unit) (hf : ∀ c, Mirrors before before (f c) (f (blank c)))
    (l : List γ) : Mirrors before before (l.forM f) ((blank l).forM f) := by
  induction l with
  | nil => exact .pure ()
  | cons a rest ih => exact .bind (hf a) fun _ => ih

/-- A loop over two lists. -/
theorem forM_zip [Blank γ] (f : γ × α → Lower Unit)
    (hf : ∀ c a, Mirrors before before (f (c, a)) (f (blank c, blank a))) {l l' : List γ}
    (h : blank l = l') (m : List α) :
    Mirrors before before ((l.zip m).forM f) ((l'.zip (blank m)).forM f) := by
  subst h
  rw [← blank_zip]
  exact .forM f (fun p => hf p.1 p.2) (l.zip m)

/-- So do rows of results. -/
theorem mapM [Blank γ] (f : γ → Lower α) (hf : ∀ c, Mirrors before before (f c) (f (blank c)))
    (l : List γ) : Mirrors before before (l.mapM f) ((blank l).mapM f) := by
  induction l with
  | nil => exact .pure []
  | cons a rest ih =>
    rw [blank_cons, List.mapM_cons, List.mapM_cons]
    exact .bind (hf a) fun a => .bind ih fun rest => .pure (a :: rest)

theorem mapM_zip [Blank γ] {δ : Type} [Blank δ] (f : γ × δ → Lower α)
    (hf : ∀ c d, Mirrors before before (f (c, d)) (f (blank c, blank d))) {l l' : List γ}
    (h : blank l = l') (m : List δ) :
    Mirrors before before ((l.zip m).mapM f) ((l'.zip (blank m)).mapM f) := by
  subst h
  rw [← blank_zip]
  exact .mapM f (fun p => hf p.1 p.2) (l.zip m)

/-- So does a step that is done only where there is something. -/
theorem optionMapM [Blank γ] {f f' : γ → Lower α}
    (hf : ∀ a, Mirrors before before (f a) (f' (blank a))) (o : Option γ) :
    Mirrors before before (o.mapM f) ((blank o).mapM f') := by
  cases o with
  | none => exact .pure none
  | some a => exact .map (hf a) fun _ => rfl

/-- A step that is made before the others when a condition holds. -/
theorem first {c c' : Prop} [Decidable c] [Decidable c'] {m m' : Lower Unit} {f f' : Unit → Lower α}
    (same : c ↔ c') (hm : Mirrors before between m m') (hf : Mirrors between behind (f ()) (f' ()))
    (hf' : Mirrors before behind (f ()) (f' ())) :
    Mirrors before behind (if c then m >>= f else f ()) (if c' then m' >>= f' else f' ()) := by
  by_cases h : c
  · rw [if_pos h, if_pos (same.1 h)]
    exact .bind hm fun _ => hf
  · rw [if_neg h, if_neg fun h' => h (same.2 h')]
    exact hf'

/-- A choice is mirrored by the same choice. -/
theorem ite {c c' : Prop} [Decidable c] [Decidable c'] {m m' n n' : Lower α} (same : c ↔ c')
    (hm : Mirrors before behind m m') (hn : Mirrors before behind n n') :
    Mirrors before behind (if c then m else n) (if c' then m' else n') := by
  by_cases h : c
  · rw [if_pos h, if_pos (same.1 h)]
    exact hm
  · rw [if_neg h, if_neg fun h' => h (same.2 h')]
    exact hn

/-- The position at which an error is reported has nothing to do with slots. -/
theorem located {m m' : Lower α} (span : Span) (hm : Mirrors before behind m m') :
    Mirrors before behind (Lower.located span m) (Lower.located span m') := by
  intro outside s deferred fit
  have inside := hm outside { s with span := span } deferred (fit.congr rfl rfl)
  have at' : (s.blanked deferred).session = blank s.session := rfl
  have runs {m : Lower α} {s : UnitState} : run (Lower.located span m) s =
      (run m { s with span := span }).bind fun p =>
        some (p.1.mapError (·.withSpan span), { p.2 with span := s.span }) := rfl
  rw [runs, runs]
  have same : ({ s.blanked deferred with span := span } : UnitState) =
      UnitState.blanked { s with span := span } deferred := rfl
  rw [same]
  generalize run m { s with span := span } = ended at inside
  generalize run m' (UnitState.blanked { s with span := span } deferred) = ended' at inside
  cases inside with
  | endless => exact .endless
  | @ends r t later count pool storage fit' =>
    have answer : (blank r).mapError (·.withSpan span) = blank (r.mapError (·.withSpan span)) := by
      cases r with
      | ok a => rfl
      | error e => exact congrArg Except.error (e.blank_withSpan span).symm
    show Mirrored _ s deferred (some (_, _)) (some ((blank r).mapError _, _))
    rw [answer]
    refine .ends (t := { t with span := s.span }) count pool storage fun a h => ?_
    cases r with
    | error _ => cases h
    | ok a => exact (fit' a rfl).congr rfl rfl

/-! ### Steps that write -/

/-- A change of the list is mirrored by the same change up to slots. -/
theorem modifyList {f f' : ActionList → ActionList} (h : ∀ l, blank (f l) = f' (blank l)) :
    Mirrors before before (Lower.modifyList f) (Lower.modifyList f') :=
  .change (fun s deferred => congrArg (fun list => { s.blanked deferred with list }) (h s.list))
    fun _ => ⟨rfl, rfl, rfl, rfl⟩

/-- Code is mirrored by the code with blank slots. -/
theorem emit {actions actions' : List Action} (h : blank actions = actions') :
    Mirrors before before (Lower.emit actions) (Lower.emit actions') :=
  .modifyList fun l => h ▸ l.blank_extend actions

theorem position : Mirrors before before Lower.position Lower.position := by
  refine .get fun s deferred _ => ?_
  rw [show (s.blanked deferred).list = blank s.list from rfl, ActionList.length_blank]
  exact .pure _

theorem pushSkip : Mirrors before before Lower.pushSkip Lower.pushSkip :=
  .bind .position fun position => .bind (.modifyList fun l => l.blank_pushSkip none) fun _ =>
    .pure position

theorem pushSkipTo (target : Nat) :
    Mirrors before before (Lower.modifyList (·.pushSkipTo target))
      (Lower.modifyList (·.pushSkipTo target)) :=
  .modifyList fun l => l.blank_pushSkipTo target

theorem resolveHere (position : Nat) :
    Mirrors before before (Lower.resolveHere position) (Lower.resolveHere position) :=
  .get fun s _ _ => .bind (.lift (s.list.blank_resolveHere position)) fun _ =>
    .modifyList fun _ => rfl

theorem hiddenName (what : String) :
    Mirrors before before (Lower.hiddenName what) (Lower.hiddenName what) :=
  .bind (.change (fun _ _ => rfl) fun _ => ⟨rfl, rfl, rfl, rfl⟩) fun _ => .get fun _ _ _ => .pure _

/-- A step of a loop is mirrored in the unit. -/
theorem onLoop (block : LoopBlock) {m m' : LoopBlock.Step Unit} (h : Attempt.Mirrors m m') :
    Mirrors before before (Lower.onLoop block m) (Lower.onLoop (blank block) m') := by
  intro outside s deferred fit
  have mirrored : Attempt.run m' (blank block,
    ⟨(s.blanked deferred).list, (s.blanked deferred).loops⟩) = _ :=
    h (block, ⟨s.list, s.loops⟩)
  rw [run_onLoop, run_onLoop, mirrored]
  obtain ⟨r, block', flow⟩ := Attempt.run m (block, ⟨s.list, s.loops⟩)
  -- only the list and the loops are different behind it
  let t : UnitState := { s with list := flow.list, loops := flow.loops }
  have ended (r : Except LowerError LoopBlock) :
      Mirrored (outside + before) s deferred (some (r, t)) (some (blank r, t.blanked deferred)) :=
    .aside (t := t) fit rfl rfl rfl rfl r
  cases r with
  | error e => exact ended (.error e)
  | ok _ => exact ended (.ok block')

/-! ### Scopes -/

/-- A scope that is opened is one more on both sides. -/
theorem openScope : Mirrors before (before + 1) Lower.openScope Lower.openScope := by
  intro outside s deferred fit
  refine .ends (t := { s with scopes := .empty :: s.scopes }) rfl rfl fit.storage fun _ _ => ?_
  exact ⟨fit.lends, fit.classes, fit.storage, congrArg (· + 1) fit.scopes⟩

/-- A change of the innermost scope that keeps its slots is mirrored. -/
theorem modifyScope {f f' : Scope → Scope} (same : ∀ scope, blank (f scope) = f' (blank scope))
    (owned : ∀ scope, (f scope).owned = scope.owned) :
    Mirrors before before (Lower.modifyScope f) (Lower.modifyScope f') := by
  refine .replace fun outside s deferred fit => ?_
  cases found : s.scopes with
  | nil =>
    have found' : (s.blanked deferred).scopes = [] := congrArg blank found
    simp only [found']
    exact .error fit _
  | cons scope rest =>
    have found' : (s.blanked deferred).scopes = blank scope :: blank rest := congrArg blank found
    simp only [found']
    rw [run_set, run_set, ← same]
    refine .ends (t := { s with scopes := f scope :: rest }) rfl rfl fit.storage fun _ _ => ?_
    refine ⟨?_, fit.classes, fit.storage, ?_⟩
    · have lends := fit.lends
      rw [UnitState.owned, found, List.flatMap_cons, ← owned] at lends
      exact lends
    · have open' := fit.scopes
      rw [found] at open'
      exact open'

/-- A name is bound to the same variable up to its slot. -/
theorem bindName (name : String) (v : Variable) :
    Mirrors before before (Lower.bind name v) (Lower.bind name (blank v)) :=
  .modifyScope (fun _ => rfl) fun _ => rfl

/-- The stacks of a scope are popped, and its slots given back. -/
theorem closeScope : Mirrors (before + 1) before Lower.closeScope Lower.closeScope := by
  refine .replace fun outside s deferred fit => ?_
  cases found : s.scopes with
  | nil =>
    have found' : (s.blanked deferred).scopes = [] := congrArg blank found
    simp only [found']
    exact .error fit _
  | cons scope rest =>
    have found' : (s.blanked deferred).scopes = blank scope :: blank rest := congrArg blank found
    simp only [found']
    let pop (var : RecursiveVar) : Lower Unit := do
      Lower.emit (← (var.exit none : Except LowerError _)).1
    let pops (exits : List RecursiveVar) : Lower Unit := exits.forM pop
    let frees (owned : List (Pool × UInt32)) : Lower Unit := owned.forM fun o => freeSlot o.1 o.2
    let u : UnitState := { s with scopes := rest }
    -- behind the scope others are open, whose slots stay
    have lends : s.session.Lends (scope.owned ++ u.owned) := by
      have := fit.lends
      rwa [UnitState.owned, found, List.flatMap_cons] at this
    have outer : u.Fit (outside + before) := by
      refine ⟨lends.forgetAll, fit.classes, fit.storage, ?_⟩
      have := fit.scopes
      rw [found, List.length_cons] at this
      exact Nat.succ_inj.1 this
    have same : Mirrors before before (pops scope.exits) (pops (blank scope.exits)) :=
      .forM pop (fun v => .bind (.lift (v.blank_exit none)) fun _ => .emit rfl) scope.exits
    have aside : Aside (pops scope.exits) :=
      Aside.composes.forM fun _ _ => .bind (.lift _) fun _ => .modifyList _
    have popped := same outside u deferred outer
    show Mirrored _ s deferred (run (pops scope.exits >>= fun _ => frees scope.owned) u)
      (run (pops (blank scope.exits) >>= fun _ => frees []) (u.blanked deferred))
    rw [run_bind, run_bind]
    generalize run (pops (blank scope.exits)) (u.blanked deferred) = ended' at popped
    generalize ran : run (pops scope.exits) u = ended at popped
    cases popped with
    | endless => exact .endless
    | @ends r t later count pool storage fit =>
      cases r with
      | error e => exact .ends count pool storage fun _ h => by cases h
      | ok _ =>
        have kept := aside u _ t ran
        have lent : t.session.Lends (scope.owned ++ t.owned) := by
          rw [UnitState.owned, kept.scopes, kept.session]
          exact lends
        exact (Mirrored.freed lent (fit () rfl)).after count pool

/-- Steps in scopes of their own mirror each other. -/
theorem inScope {m m' : Lower α} (hm : Mirrors (before + 1) (before + 1) m m') :
    Mirrors before before (Lower.inScope m) (Lower.inScope m') :=
  .bind .openScope fun _ => .bind hm fun a => .bind .closeScope fun _ => .pure a

/-- The request is met or refused, and in the blank of the state it is refused. -/
theorem allocate (owner : String) :
    Mirrors (before + 1) (before + 1) (Lower.allocate owner) (Lower.allocate owner) := by
  intro outside s deferred fit
  have refused : run (Lower.allocate owner) (s.blanked deferred) = some (.ok placeholderSlot,
      s.blanked ((LowerError.exhausted s.pool 0 owner).withSpan s.span :: deferred)) := by
    have none' : ((s.blanked deferred).session.slotPool (s.blanked deferred).pool).allocate owner =
        .error (.exhausted s.pool 0 owner) := Session.allocate_blank s.session s.pool owner
    rw [Lower.allocate, run_bind, run_get]
    dsimp only
    rw [none']
    rfl
  obtain ⟨scope, rest, scopes⟩ : ∃ scope rest, s.scopes = scope :: rest :=
    List.exists_cons_of_length_eq_add_one fit.scopes
  rw [refused, run_allocate_open scopes]
  cases taken : (s.session.slotPool s.pool).allocate owner with
  | error e =>
    refine .ends (t := { s with deferred := e.withSpan s.span :: s.deferred })
      (r := .ok placeholderSlot) ?_ rfl
      fit.storage fun _ _ => fit.congr rfl rfl
    show (deferred.length + 1) + ((s.session.slotPool s.pool).allocations + s.deferred.length) =
      deferred.length + ((s.session.slotPool s.pool).allocations + (s.deferred.length + 1))
    omega
  | ok taken' =>
    obtain ⟨slot, p⟩ := taken'
    let t : UnitState := { s with
      session := s.session.setSlotPool p s.pool
      scopes := { scope with owned := (s.pool, slot) :: scope.owned } :: rest }
    let refusal := (LowerError.exhausted s.pool 0 owner).withSpan s.span
    -- the blank of a scope owns nothing, and the blank of a pool has nothing left
    have same : t.blanked (refusal :: deferred) = s.blanked (refusal :: deferred) := by
      have session : blank t.session = blank s.session := Session.blank_setSlotPool p s.pool
      have scopes' : blank t.scopes = blank s.scopes := by
        rw [scopes]
        rfl
      rw [UnitState.blanked, UnitState.blanked, session, scopes']
    show Mirrored _ s deferred (some (_, t)) (some (blank (.ok slot),
      s.blanked (refusal :: deferred)))
    rw [← same]
    have pool : t.session.slotPool s.pool = p := by rw [Session.slotPool_setSlotPool, if_pos rfl]
    refine .ends ?_ rfl ?_ fun _ _ => ⟨?_, ?_, ?_, ?_⟩
    · show (deferred.length + 1) + ((s.session.slotPool s.pool).allocations + s.deferred.length) =
        deferred.length + ((t.session.slotPool s.pool).allocations + s.deferred.length)
      rw [pool, SlotPool.allocations_allocate taken]
      omega
    · exact (Session.classData_setSlotPool ..).trans fit.storage
    · have lends := fit.lends
      rw [UnitState.owned, scopes] at lends
      exact lends.allocate taken
    · exact (Session.classes_setSlotPool p s.pool).trans fit.classes
    · exact (Session.classData_setSlotPool ..).trans fit.storage
    · have open' := fit.scopes
      rw [scopes] at open'
      exact open'

theorem addSymbol (name : String) (slot : UInt32) (stacked : Bool) :
    Mirrors before before (Lower.addSymbol name slot stacked)
      (Lower.addSymbol name (blank slot) stacked) := by
  refine .change (fun s deferred => ?_) fun _ => ⟨rfl, rfl, rfl, rfl⟩
  have region : (blank s.regions).getLast?.map (·.bodyStart) =
    s.regions.getLast?.map (·.bodyStart) := by
    rw [show blank s.regions = s.regions.map blank from rfl, List.getLast?_map, Option.map_map]
    rfl
  show _ = UnitState.mk _ _ _ _ _ _ _ _ _ _ _ _
  rw [s.length_scopes_blanked, s.length_frames_blanked,
    show (s.blanked deferred).regions = blank s.regions from rfl, region]
  rfl

/-- A name is looked up alike. -/
theorem lookup (name : String) : Mirrors before before (Lower.lookup name) (Lower.lookup name) := by
  intro outside s deferred fit
  rw [run_lookup, run_lookup, UnitState.bound?_blanked]
  cases s.bound? name with
  | none => exact .error fit _
  | some v => exact .aside fit rfl rfl rfl rfl (.ok v)

theorem actorVar (name : String) :
    Mirrors before before (Lower.actorVar name) (Lower.actorVar name) := by
  refine .bind (.lookup name) fun v => ?_
  rw [Variable.pool?_blank]
  exact .ite .rfl (.pure v) (.throw rfl)

/-! ### Declarations -/

/-- A temporary that is refused on one side has a blank slot on both. -/
theorem temp (what : String) :
    Mirrors (before + 1) (before + 1) (Lower.temp what) (Lower.temp what) :=
  .bind (.hiddenName what) fun name => .bind (.allocate name) fun slot =>
    .bind (.addSymbol name slot false) fun _ =>
    .get fun s _ _ => .pure (IndexedVar.plain name s.pool slot)

/-- A stack is declared alike, also where its slot is refused. -/
theorem declareStack (name : String) (initial : Option Element) :
    Mirrors (before + 1) (before + 1) (Lower.declareStack name initial)
      (Lower.declareStack name (blank initial)) := by
  refine .bind (.allocate name) fun slot => .bind (.addSymbol name slot true) fun _ =>
    .get fun s deferred _ => ?_
  let entry (slot : UInt32) (initial : Option Element) :=
    (RecursiveVar.new name s.pool slot).enter (initial.getD .neutral) none
  have entered : entry placeholderSlot (blank initial) = blank (entry slot initial) := by
    rw [RecursiveVar.blank_enter]
    cases initial <;> rfl
  let note (entered : List Action × RecursiveVar) : Lower RecursiveVar := do
    Lower.emit entered.1
    Lower.modifyScope fun scope => { scope with exits := entered.2 :: scope.exits }
    Lower.bind name (.recursive entered.2)
    return entered.2
  show Mirrors _ _ (note (entry slot initial)) (note (entry placeholderSlot (blank initial)))
  rw [entered]
  exact .bind (.emit rfl) fun _ => .bind (.modifyScope (fun _ => rfl) fun _ => rfl) fun _ =>
    .bind (.bindName name (.recursive _)) fun _ => .pure _

/-- So is a plain variable. -/
theorem declarePlain (name : String) (initial : Option Element) :
    Mirrors (before + 1) (before + 1) (Lower.declarePlain name initial)
      (Lower.declarePlain name (blank initial)) := by
  refine .bind (.allocate name) fun slot => .bind (.addSymbol name slot false) fun _ =>
    .get fun s deferred _ => ?_
  let v := IndexedVar.plain name s.pool slot
  have last : Mirrors (before + 1) (before + 1) (do
        Lower.bind name (.indexed v)
        return v) (do
        Lower.bind name (.indexed (blank v))
        return blank v) :=
    .bind (.bindName name (.indexed v)) fun _ => .pure v
  cases initial with
  | none => exact last
  | some value => exact .bind (.emit (v.blank_set none value [])) fun _ => last

/-- So is a variable of either kind. -/
theorem declare (name : String) (initial : Option Element) (stacked : Bool) :
    Mirrors (before + 1) (before + 1) (Lower.declare name initial stacked)
      (Lower.declare name (blank initial) stacked) := by
  refine .get fun s deferred _ => ?_
  rw [UnitState.inRecursiveFrame_blanked]
  exact .ite .rfl (.bind (.declareStack name initial) fun v => .pure (Variable.recursive v))
    (.bind (.declarePlain name initial) fun v => .pure (Variable.indexed v))

/-- A value is kept on a stack on both sides or on neither. -/
theorem materialize (value : Element) :
    Mirrors (before + 1) (before + 1) (Lower.materialize value)
      (Lower.materialize (blank value)) := by
  refine .get fun s deferred _ => ?_
  rw [UnitState.inRecursiveFrame_blanked]
  exact .ite .rfl (.bind (.hiddenName _) fun name =>
    .bind (.declareStack name (some value)) fun v =>
    .answer (v.blank_get none)) (.pure value)

/-! ### Frames -/

theorem frame : Mirrors before before Lower.frame Lower.frame := by
  refine .get fun s deferred _ => ?_
  obtain ⟨_, _, _, _, _, _, frames⟩ := s
  cases frames with
  | nil => exact .throw rfl
  | cons frame rest => exact .pure frame

theorem pushFrame (f : Frame) :
    Mirrors before before (Lower.pushFrame f) (Lower.pushFrame (blank f)) :=
  .change (fun _ _ => rfl) fun _ => ⟨rfl, rfl, rfl, rfl⟩

/-- A frame is closed alike. -/
theorem closeFrame : Mirrors before before Lower.closeFrame Lower.closeFrame := by
  refine .replace fun outside s deferred fit => ?_
  cases found : s.frames with
  | nil =>
    have found' : (s.blanked deferred).frames = [] := congrArg blank found
    simp only [found']
    exact .error fit _
  | cons frame rest =>
    have found' : (s.blanked deferred).frames = blank frame :: blank rest := congrArg blank found
    have returns : Mirrors before before (frame.returns.forM Lower.resolveHere)
        (frame.returns.forM Lower.resolveHere) := by
      have all : Mirrors before before _ _ := forM Lower.resolveHere resolveHere frame.returns
      rwa [blank_positions] at all
    simp only [found']
    exact .bind (.aside (t := { s with frames := rest }) fit rfl rfl rfl rfl (.ok ()))
      fun _ => returns

theorem expandedFrame (method : Option String) (result : Option IndexedVar) :
    Mirrors before before (Lower.expandedFrame method result)
      (Lower.expandedFrame method (blank result)) := by
  refine .get fun s deferred _ => .answer ?_
  rw [UnitState.inRecursiveFrame_blanked, s.length_scopes_blanked]
  rfl

/-- The same stacks are popped on the way out. -/
theorem unwindTo (depth : Nat) :
    Mirrors before before (Lower.unwindTo depth) (Lower.unwindTo depth) :=
  .get fun s deferred _ => .emit (s.pendingPops_blanked deferred depth).symm

/-- The receiver is bound as it is on both sides or on neither. -/
theorem bindThis (receiver : Element) :
    Mirrors (before + 1) (before + 1) (Lower.bindThis receiver)
      (Lower.bindThis (blank receiver)) := by
  have stable : isStable (blank receiver) = isStable receiver := by
    cases receiver with
    | lastOf inner => cases inner <;> rfl
    | _ => rfl
  unfold Lower.bindThis
  rw [stable]
  exact .ite .rfl (.bindName "this" (.reference receiver))
    (.discard (.declare "this" (some receiver) false))

/-- The receiver and the arguments are bound alike. -/
theorem bindCall (receiver : Option Element) (params : List String) (arguments : List Element) :
    Mirrors (before + 1) (before + 1) (Lower.bindCall receiver params arguments)
      (Lower.bindCall (blank receiver) params (blank arguments)) := by
  have declared : Mirrors (before + 1) (before + 1) (declareParams params arguments)
      (declareParams params (blank arguments)) := by
    unfold declareParams
    exact forM_zip (fun p => Functor.discard (Lower.declare p.1 (some p.2) false))
      (fun param argument => .discard (.declare param (some argument) false))
        (blank_names params) arguments
  cases receiver with
  | none => exact declared
  | some receiver => exact .bind (.bindThis receiver) fun _ => declared

end Mirrors

end Lower

end SkipCode
