import SkipCode.Proofs.Receivers
import SkipCode.Proofs.Sites
import SkipCode.Proofs.Updates

/-!
# Places in a body

Where a piece of the source is lowered and run, the state of lowering says what is open there
(`Scene`), and what the names of the body stand for (`Sees`). Both are followed along the body.
-/

namespace SkipCode

open Engine (Host Memory)
open Lower
open Source (StmtKind)

namespace Meaning

/-- What stays the same in a body while it runs. -/
structure Body where
  mode : Mode
  /-- The regions that are open around it. -/
  routines : List Routine
  types : List RoutineType
  /-- The stacks that its caller pushed for it. -/
  params : List Location
  /-- How many scopes are open around it. -/
  depth : Nat
  /-- What the stacks had before. -/
  base : Location → List Value
  /-- How many calls may be open inside it at once. -/
  calls : Nat
  result : Option IndexedVar

/-- The stacks in reach. -/
def Body.stackPlaces (B : Body) (s : UnitState) :
    List Location := stacksAbove s.scopes B.depth ++ B.params

theorem Body.stackPlaces_eq {s t : UnitState} (B : Body) (scopes : t.scopes = s.scopes) :
    B.stackPlaces t = B.stackPlaces s := by rw [stackPlaces, scopes, stackPlaces]

/-- A scope without a stack brings none into reach. -/
theorem Body.stackPlaces_surrounded {s : UnitState} {scope : Scope} (B : Body)
    (inside : B.depth ≤ s.scopes.length) (none : scope.stackPlaces = []) :
    B.stackPlaces { s with scopes := scope :: s.scopes } = B.stackPlaces s := by
  rw [stackPlaces, stacksAbove_cons inside, none, List.nil_append, stackPlaces]

theorem Body.stackPlaces_opened {s : UnitState} (B : Body) (inside : B.depth ≤ s.scopes.length) :
    B.stackPlaces s.opened = B.stackPlaces s := B.stackPlaces_surrounded inside rfl

/-- What stays the same while a unit runs. -/
def setting (h : Host) (T : UnitState) : Setting :=
  ⟨T.session.classes, T.session.functions, h.config.maxArrayLength, h.actor⟩

section

variable {h : Host} {S : Location → Prop} {T : UnitState} {B : Body} {κ κ' : Layout}
  {L : List LoopType} {env : Env} {site n : Nat} {s t u : UnitState} {m : Memory} {st : State}
  {actions pops : List Action} {task : Task} {code : Code} {c : Box} {xs : List Element}

/-! ## What is open -/

/-- A state of lowering in the body. -/
structure Scene (S : Location → Prop) (T : UnitState) (B : Body) (L : List LoopType) (site : Nat)
    (s : UnitState) :
    Prop where
  later : s.Grows T
  ready : Ready S B.types L B.params B.depth s
  counted : s.Counted
  recursive : s.inRecursiveFrame = decide (B.mode = .recursive)
  unit : B.mode = .unit ↔ s.frames.length = 1
  site : B.mode = .unit → s.sites.length = site
  result : ∀ frame frames, s.frames = frame :: frames → frame.result = B.result

namespace Scene

/-- The same things are open later on. -/
theorem steady (scene : Scene S T B L site s) (steady : s.Steady t)
    (ready : Ready S B.types L B.params B.depth t) (adds : s.Adds n t) (later : t.Grows T) :
    Scene S T B L (site + n) t := by
  have frames := steady.frames
  cases found : s.frames with
  | nil => exact absurd found scene.counted.inside
  | cons frame rest =>
    rw [found] at frames
    obtain ⟨frame', rest', grown, others, e⟩ := List.forall₂_cons_left_iff.1 frames
    have length := steady.frames.length_eq
    refine ⟨later, ready, scene.counted.steady steady, ?_, ?_, fun unit => ?_,
      fun frame'' frames found' => ?_⟩
    · rw [← scene.recursive, UnitState.inRecursiveFrame, UnitState.inRecursiveFrame, e,
        found, grown]
    · rw [← length, scene.unit]
    · rw [adds.sites, scene.site unit, if_pos (scene.unit.1 unit)]
    · rw [e] at found'
      cases found'
      rw [grown]
      exact scene.result frame rest found

/-- Behind a piece of the source. -/
theorem next (scene : Scene S T B L site s) (ground : Ground h S T)
    (room : task.IsBlock ∨ Roomy L B.depth s) (lowers : Lowers task s code xs t)
    (fits : task.Fits S) (names : task.Declares (¬ Hidden ·)) (later : t.Grows T) :
    Scene S T B L (site + task.sites) t := by
  have sound := (lowers.keeps B.types L B.params B.depth
    (ground.accounts.of_grows later) fits scene.ready room).sound
  refine scene.steady lowers.steady ?_ (lowers.adds scene.counted fun _ => names) later
  rcases room with ⟨statements, rfl⟩ | roomy
  · exact scene.ready.same lowers.steady (lowers.scopes_eq trivial) sound
  · exact scene.ready.next roomy lowers.steady sound

/-- Behind a plain step. -/
theorem step (scene : Scene S T B L site s) (ground : Ground h S T) (roomy : Roomy L B.depth s)
    {α : Type} {m : Lower α} {r : α} (e : Emits m s actions r t) (disciplined : Disciplined S m)
    (adds : s.Adds n t) (later : t.Grows T) : Scene S T B L (site + n) t :=
  scene.steady e.extends'.steady (scene.ready.next roomy e.extends'.steady
    (e.kept (τ := B.types) (R := B.params) disciplined
      (ground.accounts.of_grows later) scene.ready.sound roomy).sound)
    adds later

theorem withList (scene : Scene S T B L site s) (list : ActionList) :
    Scene S T B L site (s.withList list) :=
  ⟨(UnitState.Grows.elsewhere ..).trans scene.later, scene.ready.withList list,
    scene.counted.congr rfl,
    scene.recursive, scene.unit, scene.site, scene.result⟩

/-- At another place of the source. -/
theorem spanned (scene : Scene S T B L site s) (span : Source.Span) :
    Scene S T B L site { s with span } :=
  ⟨.trans (.elsewhere ..) scene.later,
    ⟨scene.ready.tidy, ⟨scene.ready.sound.scopes, scene.ready.sound.results⟩,
      scene.ready.shaped.inside,
      scene.ready.shaped.body, scene.ready.shaped.loops, scene.ready.shaped.regions⟩,
    scene.counted.congr rfl, scene.recursive, scene.unit, scene.site, scene.result⟩

/-- The scopes of other bodies are not looked into. -/
theorem floor (scene : Scene S T B L site s) : s.lookupFloor ≤ s.scopes.length := by
  obtain ⟨frame, frames, found, start, -, shape⟩ := scene.ready.shaped.body
  have inside := scene.ready.shaped.inside
  rw [UnitState.lookupFloor, found]
  change frame.lookupFloor ≤ s.scopes.length
  rcases shape with ⟨same, -⟩ | ⟨same, -⟩ <;> omega

/-- In another scope. -/
theorem surrounded (scene : Scene S T B L site s) {scope : Scope} (sound : scope.Sound S) :
    Scene S T B L site { s with scopes := scope :: s.scopes } :=
  ⟨.trans (.elsewhere ..) scene.later, scene.ready.surrounded sound, scene.counted.congr rfl,
    scene.recursive,
    scene.unit, scene.site, scene.result⟩

theorem opened (scene : Scene S T B L site s) :
    Scene S T B L site s.opened := scene.surrounded .empty

/-- In a loop, which has its exits where it began. -/
theorem looping (scene : Scene S T B L site s) (list : ActionList) (ended : List Location) :
    Scene S T B (⟨ended, B.stackPlaces s, B.stackPlaces s⟩ :: L) site (s.looping list) :=
  ⟨.trans (.elsewhere ..) scene.later,
    ⟨scene.ready.tidy, ⟨scene.ready.sound.scopes, scene.ready.sound.results⟩,
      scene.ready.shaped.looping list ended⟩,
    scene.counted.congr rfl, scene.recursive, scene.unit, scene.site, scene.result⟩

/-- Behind the body of a loop. -/
theorem looped {L' : List LoopType} (scene : Scene S T B L' site s) (list : ActionList)
    (ready : Ready S B.types L B.params B.depth (s.looped list)) :
    Scene S T B L site (s.looped list) :=
  ⟨.trans (.elsewhere ..) scene.later, ready, scene.counted.congr rfl, scene.recursive, scene.unit,
    scene.site,
    scene.result⟩

/-- The same scopes are open, behind what declared some variables for the unit. -/
theorem same (scene : Scene S T B L site s) (steady : s.Steady t) (scopes : t.scopes = s.scopes)
    (sound : t.Sound S) (adds : s.Adds n t) (later : t.Grows T) : Scene S T B L (site + n) t :=
  scene.steady steady (scene.ready.same steady scopes sound) adds later

end Scene

/-! ## What names stand for -/

/-- What a variable of the target keeps for a box. -/
def Carries (S : Location → Prop) (κ : Layout) (c : Box) : Variable → Prop
  | .indexed v => v.path = [] ∧ ¬ S v.location ∧ κ v.location = some (.box c) ∧ c.stacked = false
  | .recursive v => v.Sound S ∧ κ v.location = some (.box c) ∧ c.stacked = true
  | .reference _ => True

/-- What a name is bound to stands for the term of the name. -/
structure Stands (h : Host) (S : Location → Prop) (T : UnitState) (κ : Layout) (v : Variable)
    (t : Term) : Prop where
  means : Means h S T κ v.get t
  carries : ∀ c, t = .box c → Carries S κ c v

theorem Stands.mono {v : Variable} {t : Term} (stands : Stands h S T κ v t) (le : κ.Le κ') :
    Stands h S T κ' v t := by
  refine ⟨stands.means.mono le, fun c e => ?_⟩
  have carries := stands.carries c e
  cases v with
  | indexed v => exact ⟨carries.1, carries.2.1, le _ _ carries.2.2.1, carries.2.2.2⟩
  | recursive v => exact ⟨carries.1, le _ _ carries.2.1, carries.2.2⟩
  | reference e => trivial

/-- The names of the body stand for their terms, and what is known are places of the unit. -/
structure Sees (h : Host) (S : Location → Prop) (T : UnitState) (B : Body) (κ : Layout) (env : Env)
    (s : UnitState) :
    Prop where
  names : ∀ name t, env.lookup name = some t →
    ¬ Hidden name ∧ ∃ v, s.bound? name = some v ∧ Stands h S T κ v t
  known : ∀ l u, κ l = some u → l ∈ s.symbols.map Symbol.location ∨ l ∈ T.sites.map Symbol.location
  sites : B.mode = .unit → ∀ k sym, T.sites[k]? = some sym →
    κ sym.location = some (.box (.declared k))
  stackPlaces : ∀ l ∈ B.stackPlaces s, l ∈ s.symbols.map Symbol.location
  result : ∀ v, B.result = some v → v.path = [] ∧ v.location ∈ s.symbols.map Symbol.location ∧
    κ v.location = none

namespace Sees

theorem of_grows {l : Location} (grows : s.Grows t) (mem : l ∈ s.symbols.map Symbol.location) :
    l ∈ t.symbols.map Symbol.location := (grows.symbols.map Symbol.location).subset mem

theorem mem_of_site {l : Location} (mem : l ∈ T.sites.map Symbol.location) :
    l ∈ T.symbols.map Symbol.location := by
  obtain ⟨sym, inside, rfl⟩ := List.mem_map.1 mem
  exact List.mem_map_of_mem (List.mem_of_mem_filter (List.mem_reverse.1 inside))

/-- What is known is in the unit. -/
theorem inside (sees : Sees h S T B κ env s) (later : s.Grows T) {l : Location} {u : Content}
    (found : κ l = some u) :
    l ∈ T.symbols.map Symbol.location :=
  (sees.known l u found).elim (of_grows later) mem_of_site

/-- The same names are seen where nothing else is bound. -/
theorem steady (sees : Sees h S T B κ env s) (steady : s.Steady t) (scopes : t.scopes = s.scopes) :
    Sees h S T B κ env t where
  names name t found := by
    obtain ⟨named, v, bound, stands⟩ := sees.names name t found
    exact ⟨named, v, steady.bound? scopes bound, stands⟩
  known l u found := (sees.known l u found).imp_left (of_grows steady.grows)
  sites := sees.sites
  stackPlaces l mem := by
    rw [Body.stackPlaces, scopes] at mem
    exact of_grows steady.grows (sees.stackPlaces l mem)
  result v found := by
    obtain ⟨whole, mem, unknown⟩ := sees.result v found
    exact ⟨whole, of_grows steady.grows mem, unknown⟩

/-- Only the scopes, the bodies and the symbols count. -/
theorem congr (sees : Sees h S T B κ env s) (scopes : t.scopes = s.scopes)
    (frames : t.frames = s.frames) (symbols : t.symbols = s.symbols) : Sees h S T B κ env t where
  names name u found := by
    obtain ⟨named, v, bound, stands⟩ := sees.names name u found
    refine ⟨named, v, ?_, stands⟩
    rwa [UnitState.bound?, UnitState.scopesFrom, UnitState.lookupFloor, scopes, frames]
  known := by
    rw [symbols]
    exact sees.known
  sites := sees.sites
  stackPlaces := by
    rw [symbols, Body.stackPlaces, scopes]
    exact sees.stackPlaces
  result := by
    rw [symbols]
    exact sees.result

/-- In a scope that declares nothing. -/
theorem opened (sees : Sees h S T B κ env s) (inside : B.depth ≤ s.scopes.length) :
    Sees h S T B κ env s.opened where
  names name u found := by
    obtain ⟨named, v, bound, stands⟩ := sees.names name u found
    exact ⟨named, v, UnitState.bound?_surrounded bound rfl, stands⟩
  known := sees.known
  sites := sees.sites
  stackPlaces := by
    rw [B.stackPlaces_opened inside]
    exact sees.stackPlaces
  result := sees.result

/-- In a scope that names an element. -/
theorem referring (sees : Sees h S T B κ env s) {name : String} {x : Element} {u : Term}
    (named : ¬ Hidden name) (means : Means h S T κ x u) (other : ∀ c, u ≠ .box c)
    (floor : s.lookupFloor ≤ s.scopes.length) (inside : B.depth ≤ s.scopes.length) :
    Sees h S T B κ ((name, u) :: env)
      { s with scopes := ⟨[(name, .reference x)], [], []⟩ :: s.scopes } where
  names name' u' found := by
    rw [List.lookup_cons] at found
    split at found
    · next e =>
      cases found
      rw [eq_of_beq e]
      exact ⟨named, .reference x, UnitState.bound?_head floor rfl (by simp), means,
        fun c e => absurd e (other c)⟩
    · next e =>
      obtain ⟨named', v, bound, stands⟩ := sees.names name' u' found
      exact ⟨named', v, UnitState.bound?_surrounded bound (by simp [List.lookup_cons, e]), stands⟩
  known := sees.known
  sites := sees.sites
  stackPlaces := by
    rw [B.stackPlaces_surrounded inside rfl]
    exact sees.stackPlaces
  result := sees.result

end Sees

/-! ## Declarations -/

section

variable {name : String} {slot : UInt32} {stacked : Bool} {bindings : List (String × Variable)}
  {exits : List RecursiveVar} {hidden : Nat}

/-- What is declared has a place of its own. -/
theorem fresh_of_takes (takes : Takes s name stacked slot bindings exits actions hidden t)
    (accounts : Accounts S t) :
    (⟨s.pool, slot⟩ : Location) ∉ s.symbols.map Symbol.location := by
  have distinct := accounts.distinct
  obtain ⟨p, scope, rest, -, -, rfl⟩ := takes.taken
  exact (List.nodup_cons.1 distinct).1

/-- What is declared is no plain variable of the unit, unless it is declared as one. -/
theorem not_site_of_takes (ground : Ground h S T)
    (takes : Takes s name stacked slot bindings exits actions hidden t) (later : t.Grows T)
    (other : ¬ (symbolOf s name slot stacked).IsSite) :
    (⟨s.pool, slot⟩ : Location) ∉ T.sites.map Symbol.location := by
  intro mem
  obtain ⟨sym, mem, place⟩ := List.mem_map.1 mem
  obtain ⟨inside, site⟩ := List.mem_filter.1 (List.mem_reverse.1 mem)
  have here := later.symbols.subset takes.symbol_mem
  obtain rfl := List.inj_on_of_nodup_map ground.accounts.distinct inside here place
  exact other (of_decide_eq_true site)

/-- A plain variable that the unit declares has the next number. -/
theorem site_of_takes (takes : Takes s name stacked slot bindings exits actions hidden t)
    (later : t.Grows T) (site : (symbolOf s name slot stacked).IsSite) :
    T.sites[s.sites.length]? = some (symbolOf s name slot stacked) := by
  obtain ⟨rest, sites⟩ := later.sites
  have here : t.sites = s.sites ++ [symbolOf s name slot stacked] := by
    obtain ⟨p, scope, rest, -, -, rfl⟩ := takes.taken
    rw [UnitState.sites, UnitState.sites, List.filter_cons, if_pos (by simpa using site),
      List.reverse_cons]
  rw [← sites, here, List.append_assoc, List.getElem?_append_right (Nat.le_refl _), Nat.sub_self]
  rfl

/-- What is taken is not known yet, unless it is the place of a plain variable of the unit. -/
theorem unknown_of_takes (ground : Ground h S T) (sees : Sees h S T B κ env s)
    (takes : Takes s name stacked slot bindings exits actions hidden t) (later : t.Grows T)
    (other : ¬ (symbolOf s name slot stacked).IsSite) : κ ⟨s.pool, slot⟩ = none :=
  Option.eq_none_iff_forall_ne_some.2 fun u found => (sees.known _ u found).elim
    (fresh_of_takes takes (ground.accounts.of_grows later))
      (not_site_of_takes ground takes later other)

theorem stacks_of_takes (takes : Takes s name stacked slot bindings exits actions hidden t)
    (roomy : Roomy L B.depth s) :
    B.stackPlaces t = exits.map RecursiveVar.location ++ B.stackPlaces s := by
  rw [Body.stackPlaces, Body.stackPlaces, takes.stackPlaces roomy.body, List.append_assoc]

/-- A name stands for what was declared last. -/
theorem bound?_of_takes {v : Variable} {τ : List RoutineType} {R : List Location} {depth : Nat}
    (takes : Takes s name stacked slot [(name, v)] exits actions hidden t)
    (ready : Ready S τ L R depth s) (roomy : Roomy L depth s) : t.bound? name = some v := by
  obtain ⟨p, scope, rest, -, found, rfl⟩ := takes.taken
  refine UnitState.bound?_head ?_ rfl (by simp)
  obtain ⟨frame, frames, frames_eq, start, -, shape⟩ := ready.shaped.body
  have floor : s.lookupFloor = frame.lookupFloor := by rw [UnitState.lookupFloor, frames_eq]
  have inside := roomy.body
  rw [found, List.length_cons] at inside
  change s.lookupFloor ≤ rest.length
  rcases shape with ⟨same, -⟩ | ⟨same, -⟩ <;> omega

/-- What a declaration makes known, where `n` boxes were entered before. -/
inductive Declared (S : Location → Prop) (T : UnitState) (B : Body) (κ : Layout) (site n : Nat)
    (s t : UnitState) (initial : Option Element) : List Action → Variable → Box → Layout → Prop
  /-- A new stack. -/
  | stack {w : RecursiveVar} : w.Sound S → w.location ∉ s.symbols.map Symbol.location →
      B.stackPlaces t = w.location :: B.stackPlaces s → w.location ∈ t.symbols.map Symbol.location →
      κ w.location = none →
      Declared S T B κ site n s t initial [w.location.push (initial.getD .neutral)] (.recursive w)
        (.entered true n)
        (κ.add w.location (.box (.entered true n)))
  /-- A slot that has the variable while its scope is open. -/
  | slot {w : IndexedVar} : w.path = [] → ¬ S w.location →
      w.location ∉ s.symbols.map Symbol.location →
      B.stackPlaces t = B.stackPlaces s → w.location ∈ t.symbols.map Symbol.location →
        κ w.location = none →
      Declared S T B κ site n s t initial (initial.toList.flatMap fun x => w.set x none [])
        (.indexed w)
        (.entered false n) (κ.add w.location (.box (.entered false n)))
  /-- The slot that a plain variable of the unit always has. -/
  | site {w : IndexedVar} : w.path = [] → ¬ S w.location → B.stackPlaces t = B.stackPlaces s →
      κ w.location = some (.box (.declared site)) →
      Declared S T B κ site n s t initial (initial.toList.flatMap fun x => w.set x none [])
        (.indexed w)
        (.declared site) κ

theorem Declared.of_stack {slot : UInt32} {initial : Option Element} (ground : Ground h S T)
    (sees : Sees h S T B κ env s) (roomy : Roomy L B.depth s) (later : t.Grows T)
    (takes : Takes s name true slot [(name, .recursive ⟨.plain name s.pool slot, 1⟩)]
      [⟨.plain name s.pool slot, 1⟩]
      actions hidden t) (site n : Nat) :
    ∃ κ', Declared S T B κ site n s t initial [Location.push ⟨s.pool, slot⟩ (initial.getD .neutral)]
      (.recursive ⟨.plain name s.pool slot, 1⟩) (.entered true n) κ' := by
  have accounts := ground.accounts.of_grows later
  have sound : RecursiveVar.Sound S ⟨.plain name s.pool slot, 1⟩ :=
    ⟨rfl, (takes.kind accounts).2 rfl⟩
  exact ⟨_, .stack sound (fresh_of_takes takes accounts) (stacks_of_takes takes roomy)
    (List.mem_map_of_mem takes.symbol_mem) (unknown_of_takes ground sees takes later nofun)⟩

/-- A plain variable has the box of its site where the unit declares it, and elsewhere one that is
entered. -/
theorem Declared.of_slot {slot : UInt32} {initial : Option Element} (ground : Ground h S T)
    (scene : Scene S T B L site s) (sees : Sees h S T B κ env s) (roomy : Roomy L B.depth s)
    (later : t.Grows T)
    (takes : Takes s name false slot [(name, .indexed (.plain name s.pool slot))] [] actions
      hidden t)
    (n : Nat) :
    ∃ c κ', Declared S T B κ site n s t initial
        (initial.toList.flatMap fun x => (IndexedVar.plain name s.pool slot).set x none [])
        (.indexed (.plain name s.pool slot)) c κ' ∧
      c = if (symbolOf s name slot false).IsSite then .declared site else .entered false n := by
  have accounts := ground.accounts.of_grows later
  have plain : ¬ S (IndexedVar.plain name s.pool slot).location := fun stack =>
    nomatch (takes.kind accounts).1 stack
  have same : B.stackPlaces t = B.stackPlaces s := stacks_of_takes takes roomy
  split
  · next isSite =>
    have unit := scene.unit.2 isSite.1
    have here := sees.sites unit _ _ (site_of_takes takes later isSite)
    rw [scene.site unit] at here
    exact ⟨_, _, .site rfl plain same here, rfl⟩
  · next other =>
    exact ⟨_, _, .slot rfl plain (fresh_of_takes takes accounts) same
      (List.mem_map_of_mem takes.symbol_mem)
      (unknown_of_takes ground sees takes later other), rfl⟩

/-- Where the body is, a name of the source has the box that its declaration says; any other
variable has one for each time that its scope is entered. -/
theorem declare_known {stacked : Bool} {initial : Option Element} {v : Variable}
    (ground : Ground h S T) (scene : Scene S T B L site s) (sees : Sees h S T B κ env s)
    (roomy : Roomy L B.depth s) (e : Emits (declare name initial stacked) s actions v t)
    (later : t.Grows T) (n : Nat) (plain : Hidden name → stacked = false) :
    ∃ c κ', Declared S T B κ site n s t initial actions v c κ' ∧ t.bound? name = some v ∧
      c = if Hidden name then .entered (decide (B.mode = .recursive)) n else B.mode.box stacked
        site n := by
  have recursive := scene.recursive
  rcases run_declare_ok e.run with ⟨kept, w, rfl, run⟩ | ⟨kept, w, rfl, run⟩
  · obtain ⟨slot, rfl, takes⟩ := run_declareStack_ok run e.clean
    obtain rfl := List.append_cancel_left (e.extends'.list.symm.trans
      (takes.extends (settled_push _ _ _) (Nat.le_refl _)).list)
    obtain ⟨κ', declared⟩ := Declared.of_stack ground sees roomy later takes site n
    refine ⟨_, κ', declared, bound?_of_takes takes scene.ready roomy, ?_⟩
    -- a stack is asked for, or the body is run by calls of its own
    rw [recursive] at kept
    split
    · next hidden =>
      rw [plain hidden, Bool.false_or] at kept
      rw [kept]
    · rcases Bool.or_eq_true_iff.1 kept with rfl | mode
      · cases B.mode <;> rfl
      · rw [of_decide_eq_true mode]
        cases stacked <;> rfl
  · obtain ⟨slot, rfl, takes⟩ := run_declarePlain_ok run e.clean
    obtain rfl := List.append_cancel_left (e.extends'.list.symm.trans
      (takes.extends (.flatMap (fun _ => settled_set _ _ _ _) _) (Nat.le_refl _)).list)
    obtain ⟨c, κ', declared, box⟩ := Declared.of_slot ground scene sees roomy later takes n
    refine ⟨c, κ', declared, bound?_of_takes takes scene.ready roomy, box.trans ?_⟩
    obtain ⟨rfl, mode⟩ := Bool.or_eq_false_iff.1 kept
    rw [recursive, decide_eq_false_iff_not] at mode
    by_cases isSite : (symbolOf s name slot false).IsSite
    · rw [if_pos isSite, if_neg (show ¬ Hidden name from isSite.2.2), scene.unit.2 isSite.1]
      rfl
    · rw [if_neg isSite]
      split
      · rw [decide_eq_false mode]
      · next visible =>
        -- a body that is no site and has no stacks is expanded where it is called
        have expanded : B.mode = .expanded := by
          cases found : B.mode with
          | unit => exact absurd ⟨scene.unit.1 found, rfl, visible⟩ isSite
          | expanded => rfl
          | recursive => exact absurd found mode
        rw [expanded]
        rfl

namespace Declared

variable {initial : Option Element} {v : Variable}

theorem le (declared : Declared S T B κ site n s t initial actions v c κ') : κ.Le κ' := by
  cases declared with
  | stack _ _ _ _ fresh => exact Layout.le_add fresh
  | slot _ _ _ _ _ fresh => exact Layout.le_add fresh
  | site => exact .refl κ

theorem carries (declared : Declared S T B κ site n s t initial actions v c κ') :
    Carries S κ' c v := by
  cases declared with
  | stack sound => exact ⟨sound, κ.add_here .., rfl⟩
  | slot whole plain => exact ⟨whole, plain, κ.add_here .., rfl⟩
  | site whole plain _ here => exact ⟨whole, plain, here, rfl⟩

theorem known (declared : Declared S T B κ site n s t initial actions v c κ') {l : Location}
    {u : Content} (found : κ' l = some u) : κ l = some u ∨ l ∈ t.symbols.map Symbol.location := by
  have added {l' : Location} {u' : Content} (mem : l' ∈ t.symbols.map Symbol.location)
      (found : κ.add l' u' l = some u) : κ l = some u ∨ l ∈ t.symbols.map Symbol.location := by
    by_cases e : l = l'
    · exact .inr (e ▸ mem)
    · exact .inl (by rwa [κ.add_other e] at found)
  cases declared with
  | stack _ _ _ mem => exact added mem found
  | slot _ _ _ _ mem => exact added mem found
  | site => exact .inl found

/-- Nothing else becomes known. -/
theorem unknown (declared : Declared S T B κ site n s t initial actions v c κ') {l : Location}
    (mem : l ∈ s.symbols.map Symbol.location) (unknown : κ l = none) : κ' l = none := by
  have added {l' : Location} {u : Content} (other : l' ∉ s.symbols.map Symbol.location) :
    κ.add l' u l = none := by
    rw [κ.add_other (by rintro rfl; exact other mem), unknown]
  cases declared with
  | stack _ other => exact added other
  | slot _ _ other => exact added other
  | site => exact unknown

theorem stackPlaces (declared : Declared S T B κ site n s t initial actions v c κ') {l : Location}
    (mem : l ∈ B.stackPlaces t) :
    l ∈ B.stackPlaces s ∨ l ∈ t.symbols.map Symbol.location := by
  cases declared with
  | stack _ _ more here =>
    rw [more] at mem
    exact (List.mem_cons.1 mem).symm.imp_right (by rintro rfl; exact here)
  | slot _ _ _ same => exact .inl (same ▸ mem)
  | site _ _ same => exact .inl (same ▸ mem)

end Declared

/-- A variable that carries a box reads it. -/
theorem Carries.stands {v : Variable} (carries : Carries S κ c v) (ground : Ground h S T)
    (known : ∀ l u, κ l = some u → l ∈ T.symbols.map Symbol.location)
    (writable : ∀ e, v ≠ .reference e) :
    Stands h S T κ v (.box c) := by
  refine ⟨?_, fun c' e => by cases e; exact carries⟩
  cases v with
  | indexed v =>
    obtain ⟨whole, plain, here, -⟩ := carries
    have means := Means.slot ground here (known _ _ here) plain
    have get : (Variable.indexed v).get = v.location.root none := by
      rw [Variable.get, Variable.getFor, IndexedVar.get, whole]
      rfl
    rw [get]
    exact means
  | recursive v =>
    obtain ⟨sound, here, -⟩ := carries
    have means := Means.top ground here (known _ _ here) sound.2
    rw [Variable.get, Variable.getFor, sound.get_eq]
    exact means
  | reference e => exact absurd rfl (writable e)

theorem Declared.writable {initial : Option Element} {v : Variable}
    (declared : Declared S T B κ site n s t initial actions v c κ') (e : Element) :
    v ≠ .reference e := by
  cases declared <;> nofun

/-- Names behind a declaration, where those of the source are as they were but for the one that is
declared. -/
theorem Sees.declared {env' : Env} {initial : Option Element} {v : Variable} (ground : Ground h S T)
    (sees : Sees h S T B κ env s) (declared : Declared S T B κ site n s t initial actions v c κ')
    (e : Emits (declare name initial stacked) s actions v t) (later : t.Grows T)
    (bound : t.bound? name = some v) (names : ∀ name' u, env'.lookup name' = some u →
      name' ≠ name ∧ env.lookup name' = some u ∨ name' = name ∧ ¬ Hidden name ∧ u = .box c) :
    Sees h S T B κ' env' t := by
  have grows := e.extends'.grows
  have known (l : Location) (u : Content) (found : κ' l = some u) :
      l ∈ t.symbols.map Symbol.location ∨ l ∈ T.sites.map Symbol.location := by
    rcases declared.known found with found | mem
    · exact (sees.known l u found).imp_left (of_grows grows)
    · exact .inl mem
  refine ⟨fun name' u found => ?_, known, fun unit k sym found =>
    declared.le _ _ (sees.sites unit k sym found),
    fun l mem => (declared.stackPlaces mem).elim
      (fun mem => of_grows grows (sees.stackPlaces l mem)) id,
    fun w found => ?_⟩
  swap
  · obtain ⟨whole, mem, unknown⟩ := sees.result w found
    exact ⟨whole, of_grows grows mem, declared.unknown mem unknown⟩
  rcases names name' u found with ⟨other, found⟩ | ⟨rfl, visible, rfl⟩
  · obtain ⟨visible, v', bound', stands⟩ := sees.names name' u found
    refine ⟨visible, v', ?_, stands.mono declared.le⟩
    exact (e.binds (.declare (N := (· = name)) rfl _ _)).lookup e.extends'.steady.frames
      other bound'
  · exact ⟨visible, v, bound, declared.carries.stands ground
      (fun l u found => (known l u found).elim (of_grows later) mem_of_site) declared.writable⟩

/-- Behind the declaration of a name of the source. -/
theorem Sees.defined {initial : Option Element} {v : Variable} (ground : Ground h S T)
    (sees : Sees h S T B κ env s) (declared : Declared S T B κ site n s t initial actions v c κ')
    (e : Emits (declare name initial stacked) s actions v t) (later : t.Grows T)
    (bound : t.bound? name = some v) (visible : ¬ Hidden name) :
    Sees h S T B κ' ((name, .box c) :: env) t := by
  refine sees.declared ground declared e later bound fun name' u found => ?_
  rw [List.lookup_cons] at found
  split at found
  · next same => exact .inr ⟨eq_of_beq same, visible, (Option.some.inj found).symm⟩
  · next other => exact .inl ⟨by simpa using other, found⟩

/-- Behind the declaration of a hidden name. -/
theorem Sees.hid {initial : Option Element} {v : Variable} (ground : Ground h S T)
    (sees : Sees h S T B κ env s) (declared : Declared S T B κ site n s t initial actions v c κ')
    (e : Emits (declare name initial stacked) s actions v t) (later : t.Grows T)
    (bound : t.bound? name = some v) (hidden : Hidden name) : Sees h S T B κ' env t :=
  sees.declared ground declared e later bound fun _ u found =>
    .inl ⟨fun same => (sees.names _ u found).1 (same ▸ hidden), found⟩

/-- The stacks of the body have room for its items and those of its calls, and a unit has no result.
-/
structure Body.Ok (h : Host) (S : Location → Prop) (B : Body) : Prop where
  room : ∀ l, S l → (B.base l).length + B.calls < h.config.maxArrayLength
  unit : B.mode = .unit → B.result = none

/-- A slot is written as a whole. -/
theorem acts_whole (ground : Ground h S T) {w : IndexedVar} (whole : w.path = [])
    (known : w.location ∈ T.symbols.map Symbol.location) {x : Element} {v : Value}
    (value : Engine.eval (h.context m) x = .ok v)
      (fits : v.items.length ≤ h.config.maxArrayLength) :
    ∃ m', h.acts m (w.set x none []) = some m' ∧ h.Updates m w.location v m' := by
  obtain ⟨sym, mem, place⟩ := List.mem_map.1 known
  have path : Evaluates h m (w.path ++ []) [] := by
    rw [whole]
    exact .nil
  exact acts_set w [] (place ▸ ground.holds sym mem) path value (if_pos fits)

/-- What is declared with a value has it. -/
theorem Declared.runs {x : Element} {v : Variable} {u : Term} (ground : Ground h S T)
    (ok : B.Ok h S) (declared : Declared S T B κ site st.entries s t (some x) actions v c κ')
    (later : t.Grows T) (sees : Sees h S T B κ env s) (grows : s.Grows T)
    (agrees : Agrees h S T B.base B.calls κ (B.stackPlaces s) st m) (value : Means h S T κ x u)
    (fits : c.stacked = false → (u.eval st false).items.length ≤ h.config.maxArrayLength) :
    ∃ m', h.acts m actions = some m' ∧
      Agrees h S T B.base B.calls κ' (B.stackPlaces t) (st.enter c (u.eval st false)) m' := by
  have evaluates := value.value st m agrees.reads
  cases declared with
  | stack sound other more known fresh =>
    rw [more]
    exact agrees.push ground sound.2 (fun mem => other (sees.stackPlaces _ mem))
      (Sees.of_grows later known)
      (ok.room _ sound.2) evaluates
  | slot whole plain other same known fresh =>
    rw [same]
    have known := Sees.of_grows later known
    obtain ⟨m', acts, updates⟩ := acts_whole ground whole known evaluates (fits rfl)
    exact ⟨m', by simpa using acts, agrees.enter_slot ground plain known updates⟩
  | site whole plain same here =>
    rw [same]
    obtain ⟨m', acts, updates⟩ :=
      acts_whole ground whole (sees.inside grows here) evaluates (fits rfl)
    exact ⟨m', by simpa using acts, (agrees.slot ground plain here updates).later⟩

/-- What is declared without a value and set to zero has that value. -/
theorem Declared.starts {v : Variable} {what : String} {zero : List Action} (ground : Ground h S T)
    (ok : B.Ok h S) (declared : Declared S T B κ site st.entries s t none actions v c κ')
    (later : t.Grows T) (sees : Sees h S T B κ env s) (grows : s.Grows T)
    (agrees : Agrees h S T B.base B.calls κ (B.stackPlaces s) st m)
    (set : v.set what (.ofNat 0) [] = .ok zero) :
    ∃ m', h.acts m (actions ++ zero) = some m' ∧
      Agrees h S T B.base B.calls κ' (B.stackPlaces t) (st.enter c (.number (.ofNat 0))) m' := by
  have evaluates (m : Memory) : Engine.eval (h.context m) (.ofNat 0) =
    .ok (.number (.ofNat 0)) := by
    rw [Element.ofNat, Engine.eval]
  cases declared with
  | @stack w sound other more known fresh =>
    rw [more]
    cases set
    -- a neutral item is pushed, which the zero replaces
    have inside := Sees.of_grows later known
    obtain ⟨m₁, pushed, agrees⟩ :=
      agrees.push ground sound.2 (fun mem => other (sees.stackPlaces _ mem)) inside
      (ok.room _ sound.2) (v := .neutral) (x := .neutral)
        (by rw [Element.neutral, Engine.eval]; rfl)
    obtain ⟨m', written, agrees⟩ := agrees.assign_top ground sound (κ.add_here ..) rfl .nil
      (Means.number (.ofNat 0)) rfl
    refine ⟨m', ?_, ?_⟩
    · rw [Host.acts_append_eq]
      exact Option.bind_eq_some_iff.2 ⟨m₁, pushed, written⟩
    · have same : ((st.enter (.entered true st.entries) .neutral).setBox (.entered true st.entries)
          (.number (.ofNat 0))) = st.enter (.entered true st.entries) (.number (.ofNat 0)) := by
        simp [State.enter, State.setBox]
      exact same ▸ agrees
  | slot whole plain other same known fresh =>
    rw [same]
    cases set
    have known := Sees.of_grows later known
    obtain ⟨m', acts, updates⟩ := acts_whole ground whole known (evaluates m) (Nat.zero_le _)
    exact ⟨m', acts, agrees.enter_slot ground plain known updates⟩
  | site whole plain same here =>
    rw [same]
    cases set
    obtain ⟨m', acts, updates⟩ :=
      acts_whole ground whole (sees.inside grows here) (evaluates m) (Nat.zero_le _)
    exact ⟨m', acts, (agrees.slot ground plain here updates).later⟩

end

end

end Meaning

end SkipCode
