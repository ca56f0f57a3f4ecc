import SkipCode.Proofs.Bindings
import SkipCode.Proofs.Levels

/-!
# What surrounds a place

Wherever lowering comes to, it stands in scopes with the names that they declare, in the bodies that
are expanded there, and in the regions of recursive methods. Lowering also binds names of its own
making (`Generated`), which no program needs to see, so they are left out of the `Surroundings` of a
state.

* `Lower.StaysPut`: a step behind which the surroundings are those before it, as they are behind
  every expression and every statement that declares nothing;
* `Lower.StaysInScope`: a step that may have declared names in the innermost scope, as statements
  do.

This needs no assumption on the unit, which may have gone past exhaustions.
-/

namespace SkipCode

open Lower
open Source (Branch Expr MethodDecl Place Stmt StmtKind)

/-- What surrounds a place: the names of its scopes, innermost first, the scope where each body
starts with its key, and the open regions without the calls inside. -/
structure Surroundings where
  scopes : List (List (String × Variable))
  bodies : List (Nat × Option String)
  regions : List Region
  classes : ClassTable
  functions : List MethodDecl

namespace Surroundings

/-- All but the innermost scope. -/
def outside (v : Surroundings) : Surroundings := { v with scopes := v.scopes.tail }

/-- In a new scope. -/
def opened (v : Surroundings) : Surroundings := { v with scopes := [] :: v.scopes }

/-- In the body of a frame. -/
def entered (v : Surroundings) (frame : Frame) : Surroundings :=
  { v with bodies := (frame.lookupFloor, frame.method) :: v.bodies }

/-- In the body of a region. -/
def within (v : Surroundings) (region : Region) : Surroundings :=
  { v with regions := { region with callSites := [] } :: v.regions }

/-- Behind a body. -/
def left (v : Surroundings) : Surroundings := { v with bodies := v.bodies.tail }

/-- Behind a region. -/
def without (v : Surroundings) : Surroundings := { v with regions := v.regions.tail }

/-- The scopes below this one belong to the caller of the innermost body. -/
def floor (v : Surroundings) : Nat := (v.bodies.head?.map Prod.fst).getD 0

/-- The names that can be seen, those of the innermost scope first. -/
def names (v : Surroundings) :
    List (String × Variable) := (v.scopes.take (v.scopes.length - v.floor)).flatten

/-- With other names in the innermost scope. -/
def declaring (v : Surroundings) (names : List (String × Variable)) : Surroundings :=
  match v.scopes with
  | scope :: rest => { v with scopes := (names ++ scope) :: rest }
  | [] => v

/-- Declaring nothing changes nothing. -/
@[simp] theorem declaring_nil (v : Surroundings) : v.declaring [] = v := by
  obtain ⟨_ | _, _, _, _, _⟩ := v <;> rfl

/-- What is declared later lies in front. -/
theorem declaring_append (v : Surroundings) (first second : List (String × Variable)) :
    v.declaring (first ++ second) = (v.declaring second).declaring first := by
  obtain ⟨_ | _, _, _, _, _⟩ := v
  · rfl
  · simp [declaring]

/-- What is declared in the innermost scope is not outside of it. -/
@[simp] theorem outside_declaring (v : Surroundings) (names : List (String × Variable)) :
    (v.declaring names).outside = v.outside := by
  obtain ⟨_ | _, _, _, _, _⟩ := v <;> rfl

/-- The place is in the same body, where these names can be seen besides those of the other place.
-/
structure Adds (v : Surroundings) (names : List (String × Variable)) (w : Surroundings) : Prop where
  inside : w.floor < w.scopes.length
  names : w.names = names ++ v.names
  bodies : w.bodies = v.bodies
  regions : w.regions = v.regions
  classes : w.classes = v.classes
  functions : w.functions = v.functions

section

variable {u v : Surroundings} {first : List (String × Variable)}

/-- Nothing has been added at the start. -/
theorem Adds.refl (inside : v.floor < v.scopes.length) :
    v.Adds [] v := ⟨inside, rfl, rfl, rfl, rfl, rfl⟩

/-- The innermost scope is seen first. -/
theorem names_eq {scope : List (String × Variable)} {rest : List (List (String × Variable))}
    (scopes : v.scopes = scope :: rest) (inside : v.floor ≤ rest.length) :
    v.names = scope ++ (rest.take (rest.length - v.floor)).flatten := by
  rw [names, scopes, List.length_cons, Nat.sub_add_comm inside, List.take_succ_cons,
    List.flatten_cons]

/-- A new scope adds no names. -/
theorem Adds.opened (h : u.Adds first v) : u.Adds first v.opened := by
  have inside : v.opened.floor < v.opened.scopes.length := Nat.lt_succ_of_lt h.inside
  refine ⟨inside, ?_, h.bodies, h.regions, h.classes, h.functions⟩
  rw [← h.names]
  exact names_eq (v := v.opened) rfl (Nat.le_of_lt h.inside)

/-- What is declared comes in front of what was added. -/
theorem Adds.declaring (h : u.Adds first v) (declared : List (String × Variable)) :
    u.Adds (declared ++ first) (v.declaring declared) := by
  obtain ⟨inside, names, bodies, regions, classes, functions⟩ := h
  cases e : v.scopes with
  | nil =>
    rw [e] at inside
    exact absurd inside (Nat.not_lt_zero _)
  | cons scope rest =>
    have next : v.declaring declared = { v with scopes := (declared ++ scope) :: rest } := by
      rw [Surroundings.declaring, e]
    have below : v.floor ≤ rest.length := by
      rw [e] at inside
      exact Nat.lt_succ_iff.1 inside
    rw [next]
    refine ⟨Nat.lt_succ_of_le below, ?_, bodies, regions, classes, functions⟩
    -- the names of the innermost scope are the first of all
    rw [names_eq (v := { v with scopes := (declared ++ scope) :: rest }) rfl below,
      List.append_assoc,
      List.append_assoc, ← names, names_eq e below]
    rfl

/-- A body sees what its own scope declares. -/
theorem names_entered {scope : List (String × Variable)} {rest : List (List (String × Variable))}
    {frame : Frame} (scopes : v.scopes = scope :: rest) (floor : frame.lookupFloor = rest.length) :
    (v.entered frame).names = scope ∧ (v.entered frame).floor <
      (v.entered frame).scopes.length := by
  have length : v.scopes.length = rest.length + 1 := by rw [scopes, List.length_cons]
  have here : (v.entered frame).floor = rest.length := floor
  constructor
  · show (v.scopes.take (v.scopes.length - (v.entered frame).floor)).flatten = scope
    rw [here, length, Nat.add_sub_cancel_left, scopes]
    simp
  · show (v.entered frame).floor < v.scopes.length
    omega

end

end Surroundings

open Classical in
/-- The bindings of a scope that the source has declared. -/
noncomputable def visible (bindings : List (String × Variable)) : List (String × Variable) :=
  bindings.filter fun b => ¬ Generated b.1

/-- What can be seen of two rows of names is what can be seen of each. -/
theorem visible_append (first second : List (String × Variable)) :
    visible (first ++ second) = visible first ++ visible second := List.filter_append ..

/-- Names of lowering's own making are not seen. -/
theorem visible_generated {name : String} (generated : Generated name) (v : Variable) :
    visible [(name, v)] = [] := by
  simp [visible, generated]

/-- All other names are. -/
theorem visible_source {name : String} (source : ¬ Generated name) (v : Variable) :
    visible [(name, v)] = [(name, v)] := by
  simp [visible, source]

/-- A name that the source has declared is found among the visible ones. -/
theorem lookup_visible {name : String} (source : ¬ Generated name)
    (bindings : List (String × Variable)) :
    (visible bindings).lookup name = bindings.lookup name := by
  induction bindings with
  | nil => rfl
  | cons b rest ih =>
    obtain ⟨other, v⟩ := b
    have split : visible ((other, v) :: rest) = visible [(other, v)] ++ visible rest :=
      visible_append [_] _
    rw [split]
    -- a binding that is left out has another name, so that the look-up would pass it by
    by_cases generated : Generated other
    · have ne : name ≠ other := fun e => source (e ▸ generated)
      rw [visible_generated generated, List.nil_append, ih, List.lookup_cons, beq_false_of_ne ne]
    · rw [visible_source generated, List.singleton_append, List.lookup_cons, List.lookup_cons, ih]

/-- A name is looked for in one scope after the other. -/
theorem lookup_flatten {name : String} (scopes : List (List (String × Variable))) :
    scopes.flatten.lookup name = scopes.findSome? (·.lookup name) := by
  induction scopes with
  | nil => rfl
  | cons scope rest ih =>
    rw [List.flatten_cons, List.lookup_append, ih, List.findSome?_cons]
    cases scope.lookup name <;> rfl

namespace UnitState

noncomputable def surroundings (s : UnitState) : Surroundings where
  scopes := s.scopes.map fun scope => visible scope.bindings
  bodies := s.frames.map fun frame => (frame.lookupFloor, frame.method)
  regions := s.regions.map fun region => { region with callSites := [] }
  classes := s.session.classes
  functions := s.session.functions

variable {s : UnitState}

/-- Where the scopes of the body begin is part of the surroundings. -/
theorem lookupFloor_eq (s : UnitState) : s.lookupFloor = s.surroundings.floor := by
  unfold lookupFloor surroundings Surroundings.floor
  cases s.frames <;> rfl

/-- What a name of the source stands for is what it stands for among the visible names. -/
theorem bound?_eq {name : String} (source : ¬ Generated name) :
    s.bound? name = s.surroundings.names.lookup name := by
  have length : s.surroundings.scopes.length = s.scopes.length := List.length_map ..
  -- both look at the scopes down to the one where the body starts
  rw [Surroundings.names, lookup_flatten, length, ← lookupFloor_eq, bound?, scopesFrom,
    surroundings,
    ← List.map_take, List.findSome?_map]
  exact congrArg (List.findSome? · _) (funext fun scope => (lookup_visible source _).symm)

end UnitState

namespace Lower

variable {α β γ : Type}

/-- A step behind which the surroundings follow from those before it. -/
def Moves (f : Surroundings → Surroundings) (m : Lower α) : Prop :=
  ∀ (s : UnitState) a t, run m s = some (.ok a, t) → t.surroundings = f s.surroundings

/-- A step that leaves the surroundings as they are. -/
abbrev StaysPut (m : Lower α) : Prop := Moves id m

/-- A step that leaves everything as it is but for the names of the innermost scope. -/
def StaysInScope (m : Lower α) : Prop :=
  ∀ (s : UnitState) a t, run m s = some (.ok a, t) → t.surroundings.outside = s.surroundings.outside

/-- The moves of two steps are made one behind the other. -/
theorem Moves.bind {f g : Surroundings → Surroundings} {m : Lower α} {n : α → Lower β}
    (hm : Moves f m) (hn : ∀ a, Moves g (n a)) : Moves (g ∘ f) (m >>= n) := by
  intro s b t h
  obtain ⟨a, u, first, second⟩ := run_bind_ok.1 h
  rw [hn a u b t second, hm s a u first]
  rfl

namespace StaysPut

/-- What stays put twice has stayed put. -/
theorem bind {m : Lower α} {f : α → Lower β} (hm : StaysPut m) (hf : ∀ a, StaysPut (f a)) :
    StaysPut (m >>= f) :=
  Moves.bind hm hf

theorem pure (a : α) : StaysPut (Pure.pure a : Lower α) := by
  intro s b t h
  cases h
  rfl

/-- With these rules steps are put together of steps that stay put. -/
theorem composes : Composes Lower StaysPut := ⟨pure, bind⟩

theorem get : StaysPut (MonadState.get : Lower UnitState) := by
  intro s a t h
  cases h
  rfl

theorem throw (e : LowerError) : StaysPut (MonadExcept.throw e : Lower α) := by
  intro s a t h
  cases h

theorem lift (x : Except LowerError α) : StaysPut (liftM x : Lower α) := by
  intro s a t h
  obtain ⟨-, rfl⟩ := run_lift_ok.1 h
  rfl

/-- A change of the state that keeps what surrounds a place. -/
theorem change {f : UnitState → UnitState} (same : ∀ s, (f s).surroundings = s.surroundings) :
    StaysPut (modify f : Lower PUnit) := by
  intro s a t h
  cases h
  exact same s

/-- The list is no part of the surroundings. -/
theorem modifyList (f : ActionList → ActionList) :
    StaysPut (Lower.modifyList f) := change fun _ => rfl

theorem emit (actions : List Action) : StaysPut (Lower.emit actions) := modifyList _

theorem position : StaysPut Lower.position := .bind .get fun _ => .pure _

theorem pushSkip :
    StaysPut Lower.pushSkip := .bind .position fun _ => .bind (.modifyList _) fun _ => .pure _

theorem resolveHere (position : Nat) : StaysPut (Lower.resolveHere position) :=
  .bind .get fun _ => .bind (.lift _) fun _ => .modifyList _

theorem lookup (name : String) : StaysPut (Lower.lookup name) := by
  intro s v t h
  rw [run_lookup_ok h]
  rfl

theorem actorVar (name : String) : StaysPut (Lower.actorVar name) := by
  intro s v t h
  rw [(run_actorVar_ok h).1]
  rfl

/-- The storage is none either. -/
theorem onStorage (m : ClassStorage.Step α) : StaysPut (Lower.onStorage m) := by
  intro s a t h
  obtain ⟨u, -, rfl⟩ := run_onStorage_ok.1 h
  rfl

theorem fieldVar (className field : String) (handle : Element) :
    StaysPut (Lower.fieldVar className field handle) :=
  .bind .get fun _ => .bind (.lift _) fun _ => .bind (.lift _) fun _ =>
    .bind (.onStorage _) fun _ =>
    .bind (.onStorage _) fun _ => .pure _

theorem staticVar (className field : String) : StaysPut (Lower.staticVar className field) :=
  .bind .get fun _ => .bind (.lift _) fun _ => .onStorage _

/-- Loops belong to the list, not to the names around a place. -/
theorem onLoop (block : LoopBlock) (m : LoopBlock.Step Unit) : StaysPut (Lower.onLoop block m) := by
  intro s a t h
  obtain ⟨flow, -, rfl⟩ := run_onLoop_ok.1 h
  rfl

theorem closeLoop (block : LoopBlock) (tail : List Action) :
    StaysPut (Lower.closeLoop block tail) :=
  composes.map _ (.onLoop _ _)

theorem hiddenName (what : String) : StaysPut (Lower.hiddenName what) :=
  .bind (.change fun _ => rfl) fun _ => .bind .get fun _ => .pure _

theorem allocate (owner : String) : StaysPut (Lower.allocate owner) := by
  intro s a t h
  obtain ⟨p, scope, rest, -, e, rfl⟩ | ⟨e, rfl⟩ := run_allocate_ok h
  · have classes : (s.session.setSlotPool p s.pool).classes = s.session.classes := by
      cases s.pool <;> rfl
    have functions : (s.session.setSlotPool p s.pool).functions = s.session.functions := by
      cases s.pool <;> rfl
    simp [UnitState.surroundings, e, classes, functions]
  · rfl

theorem addSymbol (name : String) (slot : UInt32) (stacked : Bool) :
    StaysPut (Lower.addSymbol name slot stacked) :=
  .change fun _ => rfl

theorem temp (what : String) : StaysPut (Lower.temp what) :=
  .bind (.hiddenName what) fun _ => .bind (.allocate _) fun _ => .bind (.addSymbol _ _ _) fun _ =>
    .bind .get fun _ => .pure _

theorem located (span : Source.Span) {m : Lower α} (hm : StaysPut m) :
    StaysPut (Lower.located span m) := by
  intro s a t h
  obtain ⟨x, u, ran, e, rfl⟩ := run_located h
  cases x with
  | error _ => cases e
  | ok b => exact hm { s with span := span } b u ran

end StaysPut

/-! ## Declarations -/

theorem Moves.bindName (name : String) (v : Variable) :
    Moves (·.declaring (visible [(name, v)])) (Lower.bind name v) := by
  intro s a t h
  obtain ⟨scope, rest, e, rfl⟩ := run_modifyScope_ok.1 h
  have split : visible ((name, v) :: scope.bindings) =
    visible [(name, v)] ++ visible scope.bindings :=
    visible_append [_] _
  simp [UnitState.surroundings, Surroundings.declaring, e, split]

theorem surroundings_declareStack {name : String} {initial : Option Element} {v : RecursiveVar}
    {s t : UnitState} (h : run (declareStack name initial) s = some (.ok v, t)) :
    t.surroundings = s.surroundings.declaring (visible [(name, .recursive v)]) := by
  obtain ⟨slot, u₁, allocated, h₁⟩ := run_bind_ok.1 h
  obtain ⟨_, u₂, noted, h₂⟩ := run_bind_ok.1 h₁
  obtain ⟨_, _, ⟨⟩, h₃⟩ := run_bind_ok.1 h₂
  obtain ⟨_, u₃, pushed, h₄⟩ := run_bind_ok.1 h₃
  obtain ⟨_, u₄, exits, h₅⟩ := run_bind_ok.1 h₄
  obtain ⟨_, u₅, bound, h₆⟩ := run_bind_ok.1 h₅
  cases h₆
  -- all but the binding itself: the slot, the symbol, the first push, and the pop at the end of the
  -- scope
  have kept : u₄.surroundings = s.surroundings := by
    have left : u₄.surroundings = u₃.surroundings := by
      obtain ⟨scope, rest, e, rfl⟩ := run_modifyScope_ok.1 exits
      simp [UnitState.surroundings, e]
    rw [left, StaysPut.emit _ _ _ _ pushed, StaysPut.addSymbol _ _ _ _ _ _ noted,
      StaysPut.allocate _ _ _ _ allocated]
    rfl
  rw [Moves.bindName _ _ _ _ _ bound, kept]

theorem surroundings_declarePlain {name : String} {initial : Option Element} {v : IndexedVar}
    {s t : UnitState} (h : run (declarePlain name initial) s = some (.ok v, t)) :
    t.surroundings = s.surroundings.declaring (visible [(name, .indexed v)]) := by
  obtain ⟨slot, u₁, allocated, h₁⟩ := run_bind_ok.1 h
  obtain ⟨_, u₂, noted, h₂⟩ := run_bind_ok.1 h₁
  obtain ⟨_, _, ⟨⟩, h₃⟩ := run_bind_ok.1 h₂
  have before : u₂.surroundings = s.surroundings := by
    rw [StaysPut.addSymbol _ _ _ _ _ _ noted, StaysPut.allocate _ _ _ _ allocated]
    rfl
  have last {u : UnitState} {w : IndexedVar} (h : run (do
      Lower.bind name (.indexed w)
      return w) u = some (.ok v, t)) : t.surroundings =
        u.surroundings.declaring (visible [(name, .indexed v)]) := by
    obtain ⟨_, u₃, bound, h₄⟩ := run_bind_ok.1 h
    cases h₄
    exact Moves.bindName _ _ _ _ _ bound
  rw [← before]
  cases initial with
  | none => exact last h₃
  | some value =>
    obtain ⟨_, u₃, written, h₄⟩ := run_bind_ok.1 h₃
    rw [last h₄, StaysPut.emit _ _ _ _ written]
    rfl

/-- A declaration adds its name to the innermost scope. -/
theorem surroundings_declare {name : String} {initial : Option Element} {stacked : Bool}
    {v : Variable} {s t : UnitState} (h : run (declare name initial stacked) s = some (.ok v, t)) :
    t.surroundings = s.surroundings.declaring (visible [(name, v)]) := by
  obtain ⟨-, w, rfl, ran⟩ | ⟨-, w, rfl, ran⟩ := run_declare_ok h
  · exact surroundings_declareStack ran
  · exact surroundings_declarePlain ran

/-- A step that goes on with a name of lowering's own making. -/
theorem StaysPut.withGenerated {what : String} (known : what ∈ variableWords)
    {f : String → Lower α} (hf : ∀ name, Generated name → StaysPut (f name)) :
    StaysPut (Lower.hiddenName what >>= f) := by
  intro s a t h
  obtain ⟨name, u, named, rest⟩ := run_bind_ok.1 h
  have before := StaysPut.hiddenName _ _ _ _ named
  rw [run_hiddenName] at named
  cases named
  rw [hf _ ⟨what, known, _, rfl⟩ _ a t rest, before]
  rfl

theorem StaysPut.declareGenerated {name : String} (generated : Generated name)
    (initial : Option Element) (stacked : Bool) :
    StaysPut (Lower.declare name initial stacked) := by
  intro s v t h
  rw [surroundings_declare h, visible_generated generated, Surroundings.declaring_nil]
  rfl

/-- A stack under a made-up name is not seen. -/
theorem StaysPut.declareStackGenerated {name : String} (generated : Generated name)
    (initial : Option Element) :
    StaysPut (Lower.declareStack name initial) := by
  intro s v t h
  rw [surroundings_declareStack h, visible_generated generated, Surroundings.declaring_nil]
  rfl

/-- A value that is kept on a stack has a made-up name. -/
theorem StaysPut.materialize (value : Element) : StaysPut (Lower.materialize value) := by
  -- in a recursive frame a value is pinned on a stack with a name, elsewhere it stays where it is
  refine .bind .get fun s => ?_
  split
  · exact .withGenerated (by decide) fun name generated =>
      .bind (.declareStackGenerated generated _) fun _ => .pure _
  · exact .pure _

/-! ## Scopes and bodies -/

namespace StaysInScope

/-- What moves only inside the innermost scope stays in scope. -/
theorem of_moves {m : Lower α} {f : Surroundings → Surroundings} (hm : Moves f m)
    (outside : ∀ v, (f v).outside = v.outside) : StaysInScope m := by
  intro s a t h
  rw [hm s a t h, outside]

/-- What stays put stays in scope. -/
theorem put {m : Lower α} (hm : StaysPut m) : StaysInScope m := of_moves hm fun _ => rfl

/-- Steps that stay in scope do so together. -/
theorem bind {m : Lower α} {f : α → Lower β} (hm : StaysInScope m) (hf : ∀ a, StaysInScope (f a)) :
    StaysInScope (m >>= f) := by
  intro s b t h
  obtain ⟨a, u, first, second⟩ := run_bind_ok.1 h
  rw [hf a u b t second, hm s a u first]

/-- With these rules steps are put together of steps that stay in scope. -/
theorem composes : Composes Lower StaysInScope := ⟨fun a => put (.pure a), bind⟩

/-- A name that is bound is in the innermost scope. -/
theorem bindName (name : String) (v : Variable) : StaysInScope (Lower.bind name v) :=
  of_moves (.bindName name v) fun _ => Surroundings.outside_declaring _ _

theorem declare (name : String) (initial : Option Element) (stacked : Bool) :
    StaysInScope (Lower.declare name initial stacked) := by
  intro s v t h
  rw [surroundings_declare h, Surroundings.outside_declaring]

theorem declareStack (name : String) (initial : Option Element) :
    StaysInScope (Lower.declareStack name initial) := by
  intro s v t h
  rw [surroundings_declareStack h, Surroundings.outside_declaring]

theorem declarePlain (name : String) (initial : Option Element) :
    StaysInScope (Lower.declarePlain name initial) := by
  intro s v t h
  rw [surroundings_declarePlain h, Surroundings.outside_declaring]

/-- Whatever is declared is declared in the innermost scope. -/
theorem rules : DeclareRules StaysInScope where
  toComposes := composes
  get := put .get
  hiddenName what := put (.hiddenName what)
  temp what := put (.temp what)
  bindReference name _ := bindName name _
  declareStack := declareStack
  declarePlain := declarePlain

end StaysInScope

/-- A scope that is opened is a new one around the place. -/
theorem Moves.openScope : Moves Surroundings.opened Lower.openScope := by
  intro s a t h
  cases h
  rfl

/-- Closing it leads back outside. -/
theorem Moves.closeScope : Moves Surroundings.outside Lower.closeScope := by
  intro s a t h
  obtain ⟨scope, rest, σ, e, freed, rfl⟩ := run_closeScope_ok h
  have grown := Session.Grows.freed freed
  simp [UnitState.surroundings, Surroundings.outside, e, grown.classes, grown.functions]

/-- A frame that is entered begins a body. -/
theorem Moves.pushFrame (frame : Frame) : Moves (·.entered frame) (Lower.pushFrame frame) := by
  intro s a t h
  cases h
  rfl

/-- Closing it leads back to the body around. -/
theorem Moves.closeFrame : Moves Surroundings.left Lower.closeFrame := by
  intro s a t h
  obtain ⟨frame, frames, list, e, -, rfl⟩ := run_closeFrame_ok h
  simp [UnitState.surroundings, UnitState.left, Surroundings.left, e]

/-- A region that is opened can be called from inside. -/
theorem Moves.pushRegion (region : Region) : Moves (·.within region) (Lower.pushRegion region) := by
  intro s a t h
  cases h
  rfl

/-- Once it is closed it cannot. -/
theorem Moves.popRegion : Moves Surroundings.without Lower.popRegion := by
  intro s a t h
  obtain ⟨regions, e, rfl⟩ := run_popRegion_ok h
  simp [UnitState.surroundings, Surroundings.without, e]

namespace StaysPut

/-- What is declared in a scope is gone behind it. -/
theorem inScope {m : Lower α} (hm : StaysInScope m) : StaysPut (Lower.inScope m) := by
  intro s a t h
  obtain ⟨u, ran, closed⟩ := run_inScope_ok.1 h
  rw [Moves.closeScope _ _ _ closed, hm _ _ _ ran]
  rfl

/-- A body in a scope of its own is entered and left. -/
theorem inBody {frame : Frame} {m : Lower Unit} (hm : StaysInScope m) : StaysPut (do
    Lower.inScope (do
      Lower.pushFrame frame
      m)
    Lower.closeFrame) := by
  intro s _ t h
  obtain ⟨_, v, ran, left⟩ := run_bind_ok.1 h
  obtain ⟨u, inside, closed⟩ := run_inScope_ok.1 ran
  obtain ⟨_, _, pushed, lowered⟩ := run_bind_ok.1 inside
  rw [Moves.closeFrame _ _ _ left, Moves.closeScope _ _ _ closed, hm _ _ _ lowered,
    Moves.pushFrame _ _ _ _ pushed]
  rfl

/-- The end of a region declares nothing. -/
theorem dispatch (address : IndexedVar) (number : Nat) (sites : List Nat) :
    StaysPut (Lower.dispatch address number sites) := by
  induction sites generalizing number with
  | nil => exact .pure _
  | cons site rest ih =>
    exact .bind (.emit _) fun _ => .bind (.modifyList _) fun _ => ih (number + 1)

theorem callRegion (index : Nat) (region : Region) (receiver : Option Element)
    (arguments : List Element) : StaysPut (Lower.callRegion index region receiver arguments) := by
  intro s a t h
  rw [run_callRegion] at h
  cases h
  have regions (continuation : Nat) : (s.regions.modify index fun region =>
      { region with callSites := region.callSites ++ [continuation] }).map
        (fun region => { region with callSites := [] }) =
      s.regions.map fun region => { region with callSites := [] } := by
    refine List.ext_getElem? fun i => ?_
    simp only [List.getElem?_map, List.getElem?_modify]
    cases s.regions[i]? with
    | none => rfl
    | some region => by_cases here : index = i <;> simp [here]
  simp [UnitState.surroundings, noteCall, UnitState.withList, regions]

end StaysPut

end Lower

/-! ## Expressions -/

/-- Writes the initial value of a field, in the body that all of them share. -/
def Lower.initialField (into : Expander) (this : Element) (field : Nat × Option Expr) :
    Lower Unit := do
  let value ← match field.2 with
    | some e => into.initial e
    | none => pure .neutral
  emit ((← onStorage (ClassStorage.fieldStack field.1)).set value none [this])

def Lower.initialFields (into : Expander) (this : Element) (fields : List (Nat × Option Expr)) :
    Lower Unit :=
  fields.forM (Lower.initialField into this)

/-- The lowering of bodies leaves the surroundings as they are. -/
structure Expander.StaysPut (into : Expander) : Prop where
  block : ∀ body, Lower.StaysPut (into.block body)
  initial : ∀ e, Lower.StaysPut (into.initial e)

namespace Expander.StaysPut

variable {into : Expander}

/-- A body that is expanded leaves everything as it was around the call. -/
theorem expandBody (bodies : into.StaysPut) (key : String) (params : List String) (body : List Stmt)
    (receiver : Option Element) (arguments : List Element) (result : Option IndexedVar) :
    Lower.StaysPut (Lower.expandBody into key params body receiver arguments result) := by
  rw [expandBody_eq]
  exact .bind (.bind .get fun _ => .pure _) fun _ => .inBody
    (.bind (StaysInScope.rules.bindCall _ _ _) fun _ => .put (bodies.block _))

/-- So does a region. -/
theorem expandRegion (bodies : into.StaysPut) (key : String) (params : List String)
    (body : List Stmt) (receiver : Option Element) (arguments : List Element) :
    Lower.StaysPut (Lower.expandRegion into key params body receiver arguments) := by
  -- a frame and a region are opened one in the other, and closed in the other order
  have closed (address : IndexedVar) : Moves (fun v => v.left.without) (closeRegion address) :=
    Moves.bind .closeFrame fun _ => Moves.bind .popRegion fun _ =>
      Lower.StaysPut.bind (.emit _) fun _ => .pure _
  have framed (frame : Frame) (region : Region) (address : IndexedVar) : Lower.StaysPut (do
      pushFrame frame
      pushRegion region
      into.block body
      closeRegion address) := by
    have opened := Moves.bind (.pushRegion region) fun _ => Moves.bind (bodies.block body) fun _ =>
      closed address
    exact Moves.bind (.pushFrame frame) fun _ => opened
  rw [expandRegion_eq]
  refine .bind (.temp _) fun result => .bind (.temp _) fun address =>
    .bind (.bind .get fun _ => .pure _) fun outer => ?_
  exact .bind (.inScope (.bind (StaysInScope.rules.openRegion _ _ _ _ _) fun region =>
    .put (framed _ region address))) fun _ => .bind (.dispatch _ _ _) fun _ => .pure _

/-- So does a call, whichever way it is expanded. -/
theorem expandCall (bodies : into.StaysPut) (callee : Callee) (receiver : Option Element)
    (arguments : List Element) :
    Lower.StaysPut (Lower.expandCall into callee receiver arguments) := by
  refine .bind .get fun s => ?_
  dsimp only
  split
  · split
    · exact .bind (.callRegion _ _ _ _) fun _ => .materialize _
    · exact .bind (bodies.expandRegion _ _ _ _ _) fun _ => .materialize _
  · split
    · exact .bind (.throw _) fun _ => .materialize _
    · exact .bind (.temp _) fun _ => .bind (bodies.expandBody _ _ _ _ _ _) fun _ => .materialize _

theorem initialFields (bodies : into.StaysPut) (this : Element)
    (fields : List (Nat × Option Expr)) :
    Lower.StaysPut (Lower.initialFields into this fields) := by
  refine Lower.StaysPut.composes.forM fun field _ => ?_
  have write (stack : Nat) (value : Element) : Lower.StaysPut (do
      emit ((← onStorage (ClassStorage.fieldStack stack)).set value none [this])) :=
    .bind (.onStorage _) fun _ => .emit _
  obtain ⟨stack, _ | e⟩ := field
  · exact .bind (.pure _) fun _ => write stack _
  · exact .bind (bodies.initial e) fun _ => write stack _

/-- Initial values of fields leave everything as it was. -/
theorem initializeFields (bodies : into.StaysPut) (this : Element)
    (fields : List (Nat × Option Expr)) :
    Lower.StaysPut (Lower.initializeFields into this fields) :=
  .bind (.bind .get fun _ => .pure _) fun _ => .inBody
    (.bind (StaysInScope.bindName _ _) fun _ => .put (bodies.initialFields this fields))

/-- So does making an instance, but for the made-up name of its handle. -/
theorem expandNew (bodies : into.StaysPut) (className : String) (constructorIndex : Nat)
    (arguments : List Element) :
    Lower.StaysPut (Lower.expandNew into className constructorIndex arguments) := by
  intro s x t h
  obtain ⟨constructor, fields, hidden, s₁, handle, s₂, layout, s₃, s₄, s₅, -, -, hhidden, hdeclare,
    -, hprepare,
    hacquire, hfields, hbody, rfl⟩ := run_expandNew_ok h
  have declared : s₂.surroundings = s.surroundings :=
    Lower.StaysPut.withGenerated (by decide) (fun name generated =>
      .declareGenerated generated none false) s handle s₂
      (run_bind_ok.2 ⟨hidden, s₁, hhidden, hdeclare⟩)
  rw [bodies.expandBody _ _ _ _ _ _ _ _ _ hbody, bodies.initializeFields _ _ _ _ _ hfields,
    Lower.StaysPut.onStorage _ _ _ _ hacquire, Lower.StaysPut.onStorage _ _ _ _ hprepare, declared]
  rfl

/-- With these rules expressions stay put. -/
theorem exprRules (bodies : into.StaysPut) : ExprRules into Lower.StaysPut where
  toComposes := Lower.StaysPut.composes
  lookup := .lookup
  fieldVar := .fieldVar
  staticVar := .staticVar
  actorVar := .actorVar
  resolveCallee className method := fun s v t h => by
    rw [run_resolveCallee_ok h]
    rfl
  checkArity callee arguments := fun s v t h => by
    rw [(run_checkArity_ok h).2]
    rfl
  expandNew := bodies.expandNew
  expandCall := bodies.expandCall

theorem expr (bodies : into.StaysPut) (e : Expr) :
    Lower.StaysPut (lowerExpr into e) := bodies.exprRules.expr e

theorem exprs (bodies : into.StaysPut) (es : List Expr) : Lower.StaysPut (lowerExprs into es) :=
  bodies.exprRules.exprs es

end Expander.StaysPut

/-! ## Statements -/

/-- The statements that declare a name in the scope that they stand in. -/
def Source.StmtKind.IsDefine : StmtKind → Prop
  | .define .. => True
  | _ => False

namespace Lower

variable {α : Type} {into : Expander}

/-- A condition is lowered in a scope of its own. -/
theorem Moves.openCondition (bodies : into.StaysPut) (condition : Expr) :
    Moves Surroundings.opened (Lower.openCondition into condition) :=
  Moves.bind .openScope fun _ => bodies.expr condition

theorem Moves.closeCondition : Moves Surroundings.outside Lower.closeCondition :=
  Moves.bind StaysPut.get fun _ => Moves.bind .closeScope fun _ => StaysPut.pure _

namespace StaysPut

/-- The scope of a condition is closed again before its branch begins. -/
theorem openArm (bodies : into.StaysPut) (condition : Expr) :
    StaysPut (Lower.openArm into condition) := by
  have behind (x : Element) : Moves Surroundings.outside (do
      let p ← (IfBlock.new.setup x (← MonadState.get).list : Except LowerError _)
      Lower.modifyList fun _ => p.2
      return (p.1, ← Lower.closeCondition)) :=
    Moves.bind StaysPut.get fun _ => Moves.bind (StaysPut.lift _) fun _ =>
      Moves.bind (StaysPut.modifyList _) fun _ => Moves.bind .closeCondition fun _ =>
        StaysPut.pure _
  exact Moves.bind (.openCondition bodies condition) behind

theorem closeArm (block : IfBlock) (tail : List Action) (chain : IfChain) (more : Bool) :
    StaysPut (Lower.closeArm block tail chain more) := by
  have rest {last : Lower IfChain} (hlast : StaysPut last) : StaysPut (do
      let finished ← (block.finish (← MonadState.get).list : Except LowerError _)
      Lower.modifyList fun _ => finished.2
      Lower.emit tail
      last) :=
    .bind .get fun _ => .bind (.lift _) fun _ => .bind (.modifyList _) fun _ =>
      .bind (.emit _) fun _ => hlast
  unfold Lower.closeArm
  dsimp only
  split
  · exact .bind .get fun _ => .bind (.modifyList _) fun _ => rest (.pure _)
  · split
    · exact rest (.pure chain)
    · exact .bind .pushSkip fun skip => rest (.bind (.resolveHere skip) fun _ => .pure chain)

theorem closeChain (chain : IfChain) : StaysPut (Lower.closeChain chain) :=
  .bind .get fun _ => .bind (.lift _) fun _ => .modifyList _

/-- It is for a loop, too. -/
theorem openLoop (bodies : into.StaysPut) (kind : LoopKind) (condition : Expr) :
    StaysPut (Lower.openLoop into kind condition) := by
  have behind (block : LoopBlock) (x : Element) : Moves Surroundings.outside (do
      let block ← Lower.onLoop block (LoopBlock.guard (some x))
      return (block, ← Lower.closeCondition)) :=
    Moves.bind (StaysPut.onLoop _ _) fun _ => Moves.bind .closeCondition fun _ => StaysPut.pure _
  exact .bind .get fun _ => .bind (.onLoop _ _) fun block =>
    Moves.bind (.openCondition bodies condition) (behind block)

/-- An exit leaves the names around it in force behind it, where nothing else is reached. -/
theorem leaveLoop (depth : UInt32) (exit : String)
    (wait : LoopStack → (floor skip : Nat) → Except LowerError LoopStack) :
    StaysPut (Lower.leaveLoop depth exit wait) := by
  intro s a t h
  obtain ⟨frame, frames, target, loops, -, -, -, rfl⟩ := run_leaveLoop_ok h
  rfl

/-- So does a return. -/
theorem leaveFrame (value : Option Element) : StaysPut (Lower.leaveFrame value) := by
  intro s a t h
  obtain ⟨frame, frames, found, rfl⟩ := run_leaveFrame_ok h
  simp [UnitState.surroundings, found]

/-- An assignment declares nothing. -/
theorem assign (bodies : into.StaysPut) (target : Place) (index : List Element)
    (op : Source.AssignOp) (value : Expr) : StaysPut (Lower.assign into target index op value) := by
  cases target with
  | var name =>
    exact .bind (.lookup _) fun _ => .bind (bodies.expr value) fun _ =>
      .bind (.lift _) fun _ => .emit _
  | field object className field =>
    exact .bind (bodies.expr object) fun _ => .bind (.fieldVar _ _ _) fun _ =>
      .bind (bodies.expr value) fun _ => .emit _
  | staticField className field =>
    exact .bind (.staticVar _ _) fun _ => .bind (bodies.expr value) fun _ => .emit _
  | actorVar actor name =>
    exact .bind (.actorVar _) fun _ => .bind (bodies.expr actor) fun _ =>
      .bind (bodies.expr value) fun _ => .bind (.lift _) fun _ => .emit _

theorem delete (bodies : into.StaysPut) (object : Expr) (className : String) :
    StaysPut (Lower.delete into object className) :=
  .bind (bodies.expr object) fun _ => .withGenerated (by decide) fun _ generated =>
    .bind (.declareGenerated generated _ _) fun _ => .bind .get fun _ => .onStorage _

end StaysPut

namespace StaysInScope

theorem located (span : Source.Span) {m : Lower α} (hm : StaysInScope m) :
    StaysInScope (Lower.located span m) := by
  intro s a t h
  obtain ⟨x, u, ran, e, rfl⟩ := run_located h
  cases x with
  | error _ => cases e
  | ok b => exact hm { s with span := span } b u ran

/-- A loop over an array declares its index, which may have a name of the source. -/
theorem openForEach (index : Option String) (array : Element) :
    StaysInScope (Lower.openForEach index array) := by
  have rest (name : String) : StaysInScope (openForEachAt name array) := by
    refine .bind (.declare _ _ _) fun _ => .bind (put .get) fun _ =>
      .bind (put (.onLoop _ _)) fun _ =>
      .bind (put (.onLoop _ _)) fun _ => ?_
    split
    · exact put (.pure _)
    · exact put (.throw _)
  cases index with
  | none => exact .bind (put (.hiddenName _)) fun name => rest name
  | some name => exact rest name

end StaysInScope

end Lower

namespace Expander.StaysPut

variable {into : Expander}

/-- A definition stays in the scope that it adds to. -/
theorem define (bodies : into.StaysPut) :
    {k : StmtKind} → k.IsDefine → StaysInScope (lowerKind into k)
  | .define name initial recursive, _ => by
    rw [lowerKind]
    exact .bind (.put (Lower.StaysPut.composes.optionMapM (fun e => bodies.expr e) _)) fun _ =>
      StaysInScope.composes.map _ (.declare _ _ _)

-- By recursion over the source. A body is lowered in a scope, and what is declared there is gone
-- behind it
-- (`StaysPut.inScope`), so only a `define` can be seen from outside.
mutual

/-- A statement can only declare a name in the scope that it stands in. -/
theorem stmt (bodies : into.StaysPut) : (s : Stmt) → StaysInScope (lowerStmt into s)
  | .mk k span => by
    rw [lowerStmt]
    refine .located span ?_
    by_cases declares : k.IsDefine
    · exact define bodies declares
    · exact .put (kind bodies k declares)

/-- Any other statement stays put. -/
theorem kind (bodies : into.StaysPut) :
    (k : StmtKind) → ¬ k.IsDefine → Lower.StaysPut (lowerKind into k)
  | .define .., plain => absurd trivial plain
  | .assign target index op value, _ => by
    rw [lowerKind]
    exact .bind (bodies.exprs index) fun _ => .assign bodies _ _ _ _
  | .cond branches none, _ => by
    rw [lowerKind]
    exact .bind (arms bodies _ _ branches) fun _ => .closeChain _
  | .cond branches (some body), _ => by
    rw [lowerKind]
    exact .bind (arms bodies _ _ branches) fun _ => .bind (.inScope (stmts bodies body)) fun _ =>
      .closeChain _
  | .while condition body, _ => by
    rw [lowerKind]
    exact .bind (.openLoop bodies _ _) fun _ => .bind (.inScope (stmts bodies body)) fun _ =>
      .closeLoop _ _
  | .for start condition step body, _ => by
    -- behind the first statement, if there is one
    have rest : Lower.StaysPut (do
        let (block, tail) ← Lower.openLoop into .for condition
        Lower.inScope (lowerStmts into body)
        let block ← Lower.onLoop block LoopBlock.epilogue
        match step with
        | some s => Lower.inScope (lowerStmt into s)
        | none => Pure.pure ()
        Lower.closeLoop block tail) := by
      refine .bind (.openLoop bodies _ _) fun _ => .bind (.inScope (stmts bodies body)) fun _ =>
        .bind (.onLoop _ _) fun _ => ?_
      cases step with
      | none => exact .closeLoop _ _
      | some s => exact .bind (.inScope (stmt bodies s)) fun _ => .closeLoop _ _
    rw [lowerKind]
    refine .inScope ?_
    cases start with
    | none => exact .put rest
    | some s => exact .bind (stmt bodies s) fun _ => .put rest
  | .forEach element index array body, _ => by
    rw [lowerKind]
    exact .bind (bodies.expr array) fun _ => .inScope (.bind (.openForEach _ _) fun _ =>
      .put (.bind (.inScope (.bind (.bindName _ _) fun _ => stmts bodies body)) fun _ =>
        .closeLoop _ _))
  | .break depth, _ => by
    rw [lowerKind]
    exact .leaveLoop _ _ _
  | .continue depth, _ => by
    rw [lowerKind]
    exact .leaveLoop _ _ _
  | .return value, _ => by
    rw [lowerKind]
    exact .bind (Lower.StaysPut.composes.optionMapM (fun e => bodies.expr e) _) fun _ =>
      .leaveFrame _
  | .delete object className, _ => by
    rw [lowerKind]
    exact .delete bodies _ _
  | .block body, _ => by
    rw [lowerKind]
    exact .inScope (stmts bodies body)
  | .expr value, _ => by
    rw [lowerKind]
    exact Lower.StaysPut.composes.map _ (bodies.expr value)

/-- A row of statements stays in its scope. -/
theorem stmts (bodies : into.StaysPut) : (body : List Stmt) → StaysInScope (lowerStmts into body)
  | [] => by
    rw [lowerStmts]
    exact .put (.pure _)
  | s :: rest => by
    rw [lowerStmts]
    exact .bind (stmt bodies s) fun _ => stmts bodies rest

/-- The branches of a condition stay put. -/
theorem arms (bodies : into.StaysPut) (more : Bool) (chain : IfChain) :
    (branches : List Branch) → Lower.StaysPut (lowerBranches into more chain branches)
  | [] => by
    rw [lowerBranches]
    exact .pure _
  | .mk condition body :: rest => by
    rw [lowerBranches]
    exact .bind (.openArm bodies _) fun _ => .bind (.inScope (stmts bodies body)) fun _ =>
      .bind (.closeArm _ _ _ _) fun _ => arms bodies _ _ rest

end

/-- Bodies leave the surroundings of the place where they are expanded as they are. -/
theorem expander : (depth : Nat) → (SkipCode.expander depth).StaysPut
  | 0 => ⟨fun _ _ _ _ h => (by cases h), fun _ _ _ _ h => (by cases h)⟩
  | depth + 1 =>
    ⟨fun body => .inScope (stmts (expander depth) body), fun e => (expander depth).expr e⟩

end Expander.StaysPut

end SkipCode
