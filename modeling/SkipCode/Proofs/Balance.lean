import SkipCode.Proofs.Typing

/-!
# Every derivation of lowering is balanced

What the variables of a place refer to is writable there: it is on a stack that is within reach, or
on none (`Variable.Writable`). With that each way of lowering keeps the discipline when its parts
do, and `Lowers.balanced` puts them together.
-/

namespace SkipCode

open Lower
open Source (AssignOp Branch Expr Place Stmt StmtKind)

variable {S : Location → Prop}

/-! ## The storage of instances -/

/-- A write to one of some places. -/
def Action.Within (a : Action) (places : List Location) : Prop :=
  ∃ st slot index value, a = .set st slot index value ∧ ⟨st.pool, slot⟩ ∈ places

/-- A write to a variable inside of a set stays inside of it. -/
theorem IndexedVar.set_within {v : IndexedVar} {places : List Location}
    (inside : v.location ∈ places) (value : Element) (actor : Option Element)
    (extra : List Element) : ∀ a ∈ v.set value actor extra, a.Within places := by
  intro a ha
  unfold IndexedVar.set at ha
  split at ha <;>
  · rw [List.mem_singleton.1 ha]
    refine ⟨_, _, _, _, rfl, ?_⟩
    rw [IndexedVar.store_pool]
    exact inside

/-- Writes that stay clear of every stack keep to the discipline. -/
theorem touches_within {actions : List Action} {places : List Location}
    (within : ∀ a ∈ actions, a.Within places) (none : ∀ l ∈ places, ¬ S l) (Δ : List Location) :
    TouchesAll S actions Δ Δ := by
  induction actions with
  | nil => exact .nil
  | cons a rest ih =>
    obtain ⟨st, slot, index, value, rfl, mem⟩ := within a (List.mem_cons_self ..)
    exact .cons (.plain (none _ mem)) (ih fun a ha => within a (List.mem_cons_of_mem _ ha))

namespace ClassStorage

variable {α β : Type}

/-- A step that writes to the storage only. -/
def WritesWithin (m : Step α) : Prop :=
  ∀ s a s', Attempt.run m s = (.ok a, s') → s.data.Grows s'.data ∧
    ∃ actions, s'.list.toList = s.list.toList ++ actions ∧
      ∀ a ∈ actions, a.Within s'.data.locations

/-- The stack of a field is among class storage. -/
theorem fieldStack_mem {index : Nat} {s s' : ClassStorage} {v : IndexedVar}
    (h : Attempt.run (fieldStack index) s = (.ok v, s')) : v ∈ s'.data.fieldStacks := by
  obtain ⟨_, _, ⟨⟩, h₁⟩ := Attempt.run_bind_ok.1 h
  dsimp only at h₁
  have made {u : ClassStorage} (h : Attempt.run (do
      let stack ← ClassStorage.allocate s!"__field_stack_{index}"
      ClassStorage.modifyData fun d => { d with fieldStacks := d.fieldStacks ++ [stack] }
      return stack) u = (.ok v, s')) : v ∈ s'.data.fieldStacks := by
    obtain ⟨stack, u, -, h₂⟩ := Attempt.run_bind_ok.1 h
    cases h₂
    exact List.mem_append_right _ (List.mem_singleton_self _)
  split at h₁
  · next found =>
    cases h₁
    exact List.mem_of_getElem? found
  · split at h₁
    · obtain ⟨_, _, h₂, -⟩ := Attempt.run_bind_ok.1 h₁
      cases h₂
    · exact made h₁

/-- So is the variable of a static field. -/
theorem staticField_mem {className field : String} {s s' : ClassStorage} {v : IndexedVar}
    (h : Attempt.run (staticField className field) s = (.ok v, s')) :
    v ∈ s'.data.statics.map (·.2) := by
  obtain ⟨_, _, ⟨⟩, h₁⟩ := Attempt.run_bind_ok.1 h
  split at h₁
  · next found =>
    cases h₁
    obtain ⟨before, after, e, -⟩ := List.lookup_eq_some_iff.1 found
    rw [e]
    simp
  · obtain ⟨var, u, -, h₂⟩ := Attempt.run_bind_ok.1 h₁
    cases h₂
    simp

namespace WritesWithin

/-- What keeps the unit writes nothing. -/
theorem ofKeeps {m : Step α} (h : Keeps m) : WritesWithin m := by
  intro s a s' e
  obtain ⟨grows, same⟩ := h s a s' e
  exact ⟨grows, [], by rw [same, List.append_nil], fun a ha => by cases ha⟩

/-- Writes inside compose. -/
theorem bind {m : Step α} {f : α → Step β} (hm : WritesWithin m)
    (hf : ∀ a, WritesWithin (f a)) : WritesWithin (m >>= f) := by
  intro s b s' h
  obtain ⟨a, u, h₁, h₂⟩ := Attempt.run_bind_ok.1 h
  obtain ⟨g₁, first, e₁, w₁⟩ := hm s a u h₁
  obtain ⟨g₂, second, e₂, w₂⟩ := hf a u b s' h₂
  refine ⟨g₁.trans g₂, first ++ second, by rw [e₂, e₁, List.append_assoc], fun a ha => ?_⟩
  rcases List.mem_append.1 ha with ha | ha
  · obtain ⟨st, slot, index, value, e, mem⟩ := w₁ a ha
    exact ⟨st, slot, index, value, e, g₂.locations _ mem⟩
  · exact w₂ a ha

/-- A failure writes nothing. -/
theorem lift (x : Except LowerError α) : WritesWithin (liftM x : Step α) := by
  intro s a s' h
  rw [Attempt.run_lift] at h
  cases h
  exact ⟨.refl _, [], by simp, fun a ha => by cases ha⟩

/-- So a whole lowering writes inside as its steps do. -/
theorem composes : Composes Step WritesWithin := ⟨fun a => ofKeeps (.pure a), bind⟩

/-- A variable of the storage that is looked up and written. -/
theorem stored {m : Step IndexedVar} (keeps : Keeps m)
    (inside : ∀ s v s', Attempt.run m s = (.ok v, s') → v.location ∈ s'.data.locations)
    (value : Element) (extra : List Element) :
    WritesWithin (do emit ((← m).set value none extra)) := by
  intro s a s' h
  obtain ⟨v, u, h₁, h₂⟩ := Attempt.run_bind_ok.1 h
  obtain ⟨grows, same⟩ := keeps s v u h₁
  cases h₂
  exact ⟨grows, v.set value none extra, by simp [same],
    IndexedVar.set_within (inside s v u h₁) _ _ _⟩

/-- Releasing a handle writes class storage. -/
theorem release (classes : ClassTable) (className : String) (handle : Element) :
    WritesWithin (release classes className handle) := by
  have table : WritesWithin (do emit ((← handleTable).set (.ofNat 0) none [handle])) := by
    refine stored .handleTable (fun s v s' h => ?_) _ _
    refine List.mem_map.2 ⟨v, ?_, rfl⟩
    simp [run_handleTable_ok h]
  refine .bind (.lift _) fun layout => .bind (.ofKeeps (.prepare layout)) fun _ =>
    .bind (.lift _) fun fields => .bind (composes.forIn (fun field _ => ?_) _ _) fun _ => table
  rw [← bind_assoc]
  refine .bind (stored (.fieldStack _) (fun s v s' h => ?_) _ _) fun _ => .ofKeeps (.pure _)
  refine List.mem_map.2 ⟨v, ?_, rfl⟩
  simp [fieldStack_mem h]

end WritesWithin

end ClassStorage

/-- The table's place is one of class storage. -/
theorem ClassData.mem_locations_of_table {d : ClassData} {v : IndexedVar}
    (h : d.table = some v) : v.location ∈ d.locations :=
  List.mem_map.2 ⟨v, by simp [h], rfl⟩

namespace Lower

/-- The field of an instance is in the storage. -/
theorem run_fieldVar_location {className field : String} {handle : Element} {s s' : UnitState}
    {v : IndexedVar} (h : run (fieldVar className field handle) s = some (.ok v, s')) :
    v.location ∈ s'.session.classData.locations := by
  obtain ⟨_, _, -, h₁⟩ := run_bind_ok.1 h
  obtain ⟨_, _, -, h₂⟩ := run_bind_ok.1 h₁
  obtain ⟨_, _, -, h₃⟩ := run_bind_ok.1 h₂
  obtain ⟨_, _, -, h₄⟩ := run_bind_ok.1 h₃
  obtain ⟨w, u, h₅, h₆⟩ := run_bind_ok.1 h₄
  cases h₆
  obtain ⟨t, ht, rfl⟩ := run_onStorage_ok.1 h₅
  exact List.mem_map.2 ⟨w, by simp [ClassStorage.fieldStack_mem ht], rfl⟩

/-- A static variable is at a place of class storage. -/
theorem run_staticVar_location {className field : String} {s s' : UnitState} {v : IndexedVar}
    (h : run (staticVar className field) s = some (.ok v, s')) :
    v.location ∈ s'.session.classData.locations := by
  obtain ⟨_, _, -, h₁⟩ := run_bind_ok.1 h
  obtain ⟨⟨owner, _⟩, _, -, h₂⟩ := run_bind_ok.1 h₁
  obtain ⟨t, ht, rfl⟩ := run_onStorage_ok.1 h₂
  exact List.mem_map.2 ⟨v, List.mem_append_right _ (ClassStorage.staticField_mem ht), rfl⟩

/-- So is a field's stack. -/
theorem run_fieldStack_location {index : Nat} {s s' : UnitState} {v : IndexedVar}
    (h : run (onStorage (ClassStorage.fieldStack index)) s = some (.ok v, s')) :
    v.location ∈ s'.session.classData.locations := by
  obtain ⟨t, ht, rfl⟩ := run_onStorage_ok.1 h
  exact List.mem_map.2 ⟨v, by simp [ClassStorage.fieldStack_mem ht], rfl⟩

end Lower

/-! ## Variables that can be written -/

/-- What a variable refers to can be written where these stacks are within reach. -/
def Variable.Writable (S : Location → Prop) (Δ : List Location) : Variable → Prop
  | .indexed v => ¬ S v.location
  | .recursive v => v.Sound S ∧ v.location ∈ Δ
  | .reference _ => True

section

variable {τ : List RoutineType} {L : List LoopType} {R Δ Δ' : List Location} {depth : Nat}
  {s s' : UnitState} {v : Variable}

/-- What may be written over few stacks may be written over more. -/
theorem Variable.Writable.mono (h : v.Writable S Δ) (sub : Δ ⊆ Δ') : v.Writable S Δ' := by
  cases v with
  | indexed v => exact h
  | recursive v => exact ⟨h.1, sub h.2⟩
  | reference e => trivial

/-- Writes to a variable that may be written keep to the discipline. -/
theorem touches_variable (writable : v.Writable S Δ) {name : String} {value : Element}
    {actor : Option Element} {extra : List Element} {actions : List Action}
    (h : v.setFor name value actor extra = .ok actions) : TouchesAll S actions Δ Δ := by
  cases v with
  | indexed v =>
    cases h
    exact touches_indexed writable _ _ _ _
  | recursive v =>
    cases h
    obtain ⟨y, e⟩ := writable.1.set_eq value actor extra
    rw [e]
    exact .cons (.setTop writable.2) .nil
  | reference e => cases h

/-- Scopes that grow keep their stacks. -/
theorem ScopesGrow.stacks_subset {a b : List Scope} (h : ScopesGrow a b) (depth : Nat) :
    stacksAbove a depth ⊆ stacksAbove b depth := by
  cases h with
  | nil => exact List.Subset.refl _
  | @cons x y rest grows =>
    intro l hl
    rw [stacksAbove, List.length_cons] at hl ⊢
    cases hn : rest.length + 1 - depth with
    | zero => simp [hn] at hl
    | succ n =>
      rw [hn, List.take_succ_cons, List.flatMap_cons, List.mem_append] at hl
      rw [List.take_succ_cons, List.flatMap_cons, List.mem_append]
      exact hl.imp_left fun hl => (grows.exits.map _).subset hl

/-- So do the places that may be written. -/
theorem ScopesGrow.reach_subset {a b : List Scope} (h : ScopesGrow a b) (depth : Nat)
    (R : List Location) : stacksAbove a depth ++ R ⊆ stacksAbove b depth ++ R :=
  fun _ hl => List.mem_append.2 ((List.mem_append.1 hl).imp_left fun hl => h.stacks_subset depth hl)

/-- What a declaration gives can be written from then on. -/
theorem writable_declare {name : String} {initial : Option Element} {stacked : Bool}
    (h : run (declare name initial stacked) s = some (.ok v, s')) (clean : s'.deferred = [])
    (accounts : Accounts S s') (inside : depth < s.scopes.length) :
    v.Writable S (stacksAbove s'.scopes depth) := by
  rcases run_declare_ok h with ⟨-, w, rfl, h₁⟩ | ⟨-, w, rfl, h₁⟩
  · obtain ⟨slot, rfl, takes⟩ := run_declareStack_ok h₁ clean
    refine ⟨⟨rfl, (takes.kind accounts).2 rfl⟩, ?_⟩
    rw [takes.stackPlaces inside]
    simp
  · obtain ⟨slot, rfl, takes⟩ := run_declarePlain_ok h₁ clean
    intro yes
    cases (takes.kind accounts).1 yes

/-- The scopes above a level are those above a deeper one and the ones between. -/
theorem scopesFrom_split {low : Nat} (h : low ≤ depth) (inside : depth ≤ s.scopes.length) :
    s.scopesFrom low = s.scopesFrom depth ++ (outerScopes s.scopes depth).take (depth - low) := by
  rw [UnitState.scopesFrom, UnitState.scopesFrom, outerScopes,
    show s.scopes.length - low = (s.scopes.length - depth) + (depth - low) by omega, List.take_add]

/-- A name that a source may have stands for something that can be written. -/
theorem writable_lookup {name : String} (h : run (lookup name) s = some (.ok v, s))
    (sound : s.Sound S) (shaped : Shaped S τ L R depth s) (named : ¬ MadeUp ["ret_addr"] name) :
    v.Writable S (stacksAbove s.scopes depth ++ R) := by
  obtain ⟨frame, frames, found, rfl, -, shape⟩ := shaped.body
  obtain ⟨_, _, ⟨⟩, h₁⟩ := run_bind_ok.1 h
  dsimp only at h₁
  rw [found] at h₁
  dsimp only at h₁
  split at h₁
  · next w hw =>
    cases h₁
    obtain ⟨scope, hscope, hlookup⟩ := List.exists_of_findSome?_eq_some hw
    obtain ⟨before, after, e, -⟩ := List.lookup_eq_some_iff.1 hlookup
    have bound : (name, v) ∈ scope.bindings := by simp [e]
    -- in a scope of the body
    have own (mem : scope ∈ s.scopesFrom frame.scopeDepth) :
        v.Writable S (stacksAbove s.scopes frame.scopeDepth ++ R) := by
      have head := sound.scopes scope (List.mem_of_mem_take mem)
      cases v with
      | indexed v => exact head.indexed _ v bound
      | recursive v =>
        have exit := head.recursive _ v bound
        refine ⟨head.exits v exit, List.mem_append_left _ ?_⟩
        exact List.mem_flatMap.2 ⟨scope, mem, List.mem_map.2 ⟨v, exit, rfl⟩⟩
      | reference e => trivial
    rcases shape with ⟨floor, -⟩ | ⟨floor, outer, rest, hidden, ret, others, split, binds, hhidden,
      params⟩
    · rw [floor] at hscope
      exact own hscope
    · rw [scopesFrom_split (show frame.lookupFloor ≤ frame.scopeDepth by omega) shaped.inside,
        split, show frame.scopeDepth - frame.lookupFloor = 1 by omega] at hscope
      rcases List.mem_append.1 hscope with mem | mem
      · exact own mem
      · -- in the scope of the parameters
        obtain rfl : scope = outer := by simpa using mem
        have mem : scope ∈ s.scopes :=
          List.mem_of_mem_drop (i := s.scopes.length - frame.scopeDepth) (by
            change scope ∈ outerScopes s.scopes frame.scopeDepth
            rw [split]
            exact List.mem_cons_self ..)
        have head := sound.scopes scope mem
        rw [binds] at bound
        rcases List.mem_cons.1 bound with e | bound'
        · cases e
          exact absurd hhidden named
        · obtain ⟨w, rfl, inside⟩ := params _ _ bound'
          have exit := head.recursive name w (binds ▸ List.mem_cons_of_mem _ bound')
          exact ⟨head.exits w exit, List.mem_append_right _ inside⟩
  · cases h₁

end

/-! ## Regions -/

namespace Lower

/-- Stacks that are declared one after the other, and the values they begin with. -/
structure Pushed (s : UnitState) (pairs : List (String × Element)) (vars : List RecursiveVar)
    (s' : UnitState) : Prop where
  length : vars.length = pairs.length
  extends' : Extends s ((vars.zip pairs).flatMap fun p => p.1.pushActions p.2.2 none) s'
  scopes : ∀ scope rest, s.scopes = scope :: rest → ∃ owned, s'.scopes =
    ⟨((pairs.zip vars).map fun p => (p.1.1, .recursive p.2)).reverse ++ scope.bindings,
      vars.reverse ++ scope.exits, owned⟩ :: rest
  paths : ∀ v ∈ vars, v.stack.path = []
  symbols : ∃ new, s'.symbols = new ++ s.symbols ∧
    new.map Symbol.location = (vars.map RecursiveVar.location).reverse ∧
    ∀ sym ∈ new, sym.stacked = true

/-- Plain variables without a name that are declared one after the other. -/
structure Reserved (s : UnitState) (vars : List IndexedVar) (s' : UnitState) : Prop where
  extends' : Extends s [] s'
  scopes : ∀ scope rest, s.scopes = scope :: rest → ∃ owned, s'.scopes =
    ⟨scope.bindings, scope.exits, owned⟩ :: rest
  paths : ∀ v ∈ vars, v.path = []
  symbols : ∃ new, s'.symbols = new ++ s.symbols ∧
    new.map Symbol.location = (vars.map IndexedVar.location).reverse ∧
    ∀ sym ∈ new, sym.stacked = false

variable {s s' s'' : UnitState}

/-- Without pairs no stacks are pushed. -/
theorem Pushed.nil (s : UnitState) : Pushed s [] [] s :=
  ⟨rfl, .refl s, fun scope rest e => ⟨scope.owned, e⟩, fun _ h => (by cases h),
    ⟨[], rfl, rfl, fun _ h => (by cases h)⟩⟩

/-- Stacks are pushed in turn. -/
theorem Pushed.append {pairs pairs' : List (String × Element)} {vars vars' : List RecursiveVar}
    (h₁ : Pushed s pairs vars s') (h₂ : Pushed s' pairs' vars' s'') :
    Pushed s (pairs ++ pairs') (vars ++ vars') s'' := by
  have len := h₁.length
  refine ⟨by simp [len, h₂.length], ?_, fun scope rest e => ?_, fun v hv => ?_, ?_⟩
  · rw [List.zip_append len, List.flatMap_append]
    exact h₁.extends'.trans h₂.extends'
  · obtain ⟨owned, e₁⟩ := h₁.scopes scope rest e
    obtain ⟨owned', e₂⟩ := h₂.scopes _ rest e₁
    refine ⟨owned', ?_⟩
    rw [e₂, List.zip_append len.symm]
    simp
  · exact (List.mem_append.1 hv).elim (h₁.paths v) (h₂.paths v)
  · obtain ⟨new, e, places, stacked⟩ := h₁.symbols
    obtain ⟨new', e', places', stacked'⟩ := h₂.symbols
    refine ⟨new' ++ new, by rw [e', e, List.append_assoc], ?_, fun sym hs => ?_⟩
    · simp [places, places']
    · exact (List.mem_append.1 hs).elim (stacked' sym) (stacked sym)

/-- A stack that is declared with a value is pushed. -/
theorem pushed_declareStack {name : String} {value : Element} {v : RecursiveVar}
    (h : run (declareStack name (some value)) s = some (.ok v, s')) (clean : s'.deferred = []) :
    Pushed s [(name, value)] [v] s' := by
  obtain ⟨slot, rfl, takes⟩ := run_declareStack_ok h clean
  have extends' := takes.extends (settled_push _ _ _) (Nat.le_refl _)
  obtain ⟨p, scope, rest, -, hs, rfl⟩ := takes.taken
  refine ⟨rfl, extends', fun scope' rest' e => ?_, fun v hv => ?_,
    [_], rfl, rfl, fun sym hs => ?_⟩
  · rw [hs] at e
    cases e
    exact ⟨_, rfl⟩
  · rw [List.mem_singleton.1 hv]
    rfl
  · rw [List.mem_singleton.1 hs]
    rfl

/-- So are a body's parameters. -/
theorem pushed_declareStacks {pairs : List (String × Element)} {vars : List RecursiveVar}
    (h : run (pairs.mapM fun (param, argument) => declareStack param (some argument)) s =
      some (.ok vars, s')) (clean : s'.deferred = []) : Pushed s pairs vars s' := by
  induction pairs generalizing s vars with
  | nil =>
    cases h
    exact .nil _
  | cons pair rest ih =>
    rw [List.mapM_cons] at h
    obtain ⟨v, u, h₁, h₂⟩ := run_bind_ok.1 h
    obtain ⟨vs, w, h₃, h₄⟩ := run_bind_ok.1 h₂
    cases h₄
    have second := ih h₃
    exact (pushed_declareStack h₁ (second.extends'.deferred clean)).append second

/-- Without steps no variables are reserved. -/
theorem Reserved.nil (s : UnitState) : Reserved s [] s :=
  ⟨.refl s, fun scope rest e => ⟨scope.owned, e⟩, fun _ h => (by cases h),
    ⟨[], rfl, rfl, fun _ h => (by cases h)⟩⟩

/-- Variables are reserved in turn. -/
theorem Reserved.append {vars vars' : List IndexedVar} (h₁ : Reserved s vars s')
    (h₂ : Reserved s' vars' s'') : Reserved s (vars ++ vars') s'' := by
  refine ⟨h₁.extends'.trans h₂.extends', fun scope rest e => ?_, fun v hv => ?_, ?_⟩
  · obtain ⟨owned, e₁⟩ := h₁.scopes scope rest e
    obtain ⟨owned', e₂⟩ := h₂.scopes _ rest e₁
    exact ⟨owned', e₂⟩
  · exact (List.mem_append.1 hv).elim (h₁.paths v) (h₂.paths v)
  · obtain ⟨new, e, places, stacked⟩ := h₁.symbols
    obtain ⟨new', e', places', stacked'⟩ := h₂.symbols
    refine ⟨new' ++ new, by rw [e', e, List.append_assoc], ?_, fun sym hs => ?_⟩
    · simp [places, places']
    · exact (List.mem_append.1 hs).elim (stacked' sym) (stacked sym)

/-- A temporary is reserved. -/
theorem reserved_temp {what : String} {v : IndexedVar}
    (h : run (temp what) s = some (.ok v, s')) (clean : s'.deferred = []) :
    Reserved s [v] s' := by
  obtain ⟨slot, rfl, takes⟩ := run_temp_ok h clean
  have extends' := takes.extends .nil (Nat.le_succ _)
  obtain ⟨p, scope, rest, -, hs, rfl⟩ := takes.taken
  refine ⟨extends', fun scope' rest' e => ?_, fun v hv => ?_, [_], rfl, rfl, fun sym hs => ?_⟩
  · rw [hs] at e
    cases e
    exact ⟨_, rfl⟩
  · rw [List.mem_singleton.1 hv]
    rfl
  · rw [List.mem_singleton.1 hs]
    rfl

/-- So are as many as there are parameters. -/
theorem reserved_temps {α : Type} {what : String} {params : List α} {vars : List IndexedVar}
    (h : run (params.mapM fun _ => temp what) s = some (.ok vars, s'))
    (clean : s'.deferred = []) : Reserved s vars s' ∧ vars.length = params.length := by
  induction params generalizing s vars with
  | nil =>
    cases h
    exact ⟨.nil _, rfl⟩
  | cons pair rest ih =>
    rw [List.mapM_cons] at h
    obtain ⟨v, u, h₁, h₂⟩ := run_bind_ok.1 h
    obtain ⟨vs, w, h₃, h₄⟩ := run_bind_ok.1 h₂
    cases h₄
    obtain ⟨second, length⟩ := ih h₃
    exact ⟨(reserved_temp h₁ (second.extends'.deferred clean)).append second, by simp [length]⟩

/-- What the stacks and temporaries of a region are. -/
structure Opens (key : String) (params : List String) (receiver : Option Element)
    (arguments : List Element) (result : IndexedVar) (s : UnitState) (region : Region)
    (s' : UnitState) : Prop where
  key : region.key = key
  result : region.result = result
  sites : region.callSites = []
  start : region.bodyStart = s'.list.length
  length : region.params.length = (params.zip arguments).length
  this : region.this.isSome = receiver.isSome
  thisTemp : region.thisTemp.isSome = receiver.isSome
  temps : region.argumentTemps.length = params.length
  stackPlaces : ∃ name t, MadeUp ["ret_addr"] name ∧
    Pushed s (params.zip arguments ++ receiver.toList.map (("this", ·)) ++
      [(name, .number (.ofInt (-1)))])
      (region.params ++ region.this.toList ++ [region.returnAddress]) t ∧
    Reserved t (region.argumentTemps ++ region.thisTemp.toList) s'

/-- Only the list and other things of no account change behind it. -/
theorem Pushed.same {pairs : List (String × Element)} {vars : List RecursiveVar}
    (h : Pushed s pairs vars s') (extends' : Extends s' [] s'') (scopes : s''.scopes = s'.scopes)
    (symbols : s''.symbols = s'.symbols) : Pushed s pairs vars s'' := by
  refine ⟨h.length, ?_, ?_, h.paths, ?_⟩
  · simpa using h.extends'.trans extends'
  · rw [scopes]
    exact h.scopes
  · rw [symbols]
    exact h.symbols

/-- A region is opened with its stacks pushed and its variables reserved. -/
theorem opens_of_run {key : String} {params : List String} {receiver : Option Element}
    {arguments : List Element} {result : IndexedVar} {region : Region}
    (h : run (openRegion key params receiver arguments result) s = some (.ok region, s'))
    (clean : s'.deferred = []) : Opens key params receiver arguments result s region s' := by
  obtain ⟨vars, s₁, hparams, h₁⟩ := run_bind_ok.1 h
  obtain ⟨this, s₂, hthis, h₂⟩ := run_bind_ok.1 h₁
  obtain ⟨name, s₃, hname, h₃⟩ := run_bind_ok.1 h₂
  obtain ⟨ret, s₄, hret, h₄⟩ := run_bind_ok.1 h₃
  obtain ⟨temps, s₅, htemps, h₅⟩ := run_bind_ok.1 h₄
  obtain ⟨thisTemp, s₆, hthisTemp, h₆⟩ := run_bind_ok.1 h₅
  obtain ⟨start, s₇, hstart, h₇⟩ := run_bind_ok.1 h₆
  cases h₇
  cases hstart
  -- what is declared, from the last to the first
  have reservedThis : Reserved s₅ thisTemp.toList s' ∧ thisTemp.isSome = this.isSome := by
    cases this with
    | none =>
      cases hthisTemp
      exact ⟨.nil _, rfl⟩
    | some v =>
      obtain ⟨temp, htemp, rfl⟩ := run_map_ok.1 hthisTemp
      exact ⟨reserved_temp htemp clean, rfl⟩
  have clean₅ := reservedThis.1.extends'.deferred clean
  obtain ⟨reserved, length⟩ := reserved_temps htemps clean₅
  have clean₄ := reserved.extends'.deferred clean₅
  have pushedRet := pushed_declareStack hret clean₄
  have clean₃ := pushedRet.extends'.deferred clean₄
  have named := Silent.hiddenName _ _ _ _ hname
  rw [run_hiddenName] at hname
  cases hname
  have pushedThis : Pushed s₁ (receiver.toList.map (("this", ·))) this.toList s₂ ∧
      this.isSome = receiver.isSome := by
    cases receiver with
    | none =>
      cases hthis
      exact ⟨.nil _, rfl⟩
    | some receiver =>
      obtain ⟨v, hv, rfl⟩ := run_map_ok.1 hthis
      exact ⟨pushed_declareStack hv clean₃, rfl⟩
  have pushedParams := pushed_declareStacks hparams (pushedThis.1.extends'.deferred clean₃)
  refine ⟨rfl, rfl, rfl, rfl, pushedParams.length, pushedThis.2,
    reservedThis.2.trans pushedThis.2, length, _, s₄,
      ⟨"ret_addr", List.mem_singleton_self _, s₂.hidden + 1, rfl⟩, ?_,
    reserved.append reservedThis.1⟩
  exact ((pushedParams.append pushedThis.1).same named rfl rfl).append pushedRet

end Lower

/-! ## Regions keep the discipline -/

section

variable {s s' : UnitState} {Δ : List Location} {γ : Type}

/-- Pushes grow the stacks by their places. -/
theorem touches_pushes {l : List γ} {f : γ → RecursiveVar} (sound : ∀ x ∈ l, (f x).Sound S)
    (g : γ → Element) (Δ : List Location) :
    TouchesAll S (l.flatMap fun x => (f x).pushActions (g x) none) Δ
      ((l.map fun x => (f x).location).reverse ++ Δ) := by
  induction l generalizing Δ with
  | nil => exact .nil
  | cons x rest ih =>
    have head := sound x (List.mem_cons_self ..)
    rw [List.flatMap_cons, head.push_eq, List.map_cons, List.reverse_cons, List.append_assoc]
    exact .cons (.push head.2) (ih (fun x hx => sound x (List.mem_cons_of_mem _ hx)) _)

/-- Writes to plain variables leave the stacks alone. -/
theorem touches_settings {l : List γ} {f : γ → IndexedVar} (plain : ∀ x ∈ l, ¬ S (f x).location)
    (g : γ → Element) (Δ : List Location) :
    TouchesAll S (l.flatMap fun x => (f x).set (g x) none []) Δ Δ := by
  induction l with
  | nil => exact .nil
  | cons x rest ih =>
    exact (touches_indexed (plain x (List.mem_cons_self ..)) _ _ _ _).append
      (ih fun x hx => plain x (List.mem_cons_of_mem _ hx))

namespace Lower

variable {pairs : List (String × Element)} {vars : List RecursiveVar} {temps : List IndexedVar}

/-- Stacks that were pushed are stacks. -/
theorem Pushed.stackPlaces (h : Pushed s pairs vars s') (accounts : Accounts S s') :
    ∀ v ∈ vars, v.Sound S := by
  intro v hv
  obtain ⟨new, e, places, stacked⟩ := h.symbols
  refine ⟨h.paths v hv, ?_⟩
  have mem : v.location ∈ new.map Symbol.location := by
    rw [places, List.mem_reverse]
    exact List.mem_map.2 ⟨v, hv, rfl⟩
  obtain ⟨sym, hs, e'⟩ := List.mem_map.1 mem
  rw [← e']
  exact (accounts.symbols sym (e ▸ List.mem_append_left _ hs)).2 (stacked sym hs)

/-- Variables that were reserved are none. -/
theorem Reserved.plain (h : Reserved s temps s') (accounts : Accounts S s') :
    ∀ v ∈ temps, ¬ S v.location := by
  intro v hv yes
  obtain ⟨new, e, places, stacked⟩ := h.symbols
  have mem : v.location ∈ new.map Symbol.location := by
    rw [places, List.mem_reverse]
    exact List.mem_map.2 ⟨v, hv, rfl⟩
  obtain ⟨sym, hs, e'⟩ := List.mem_map.1 mem
  rw [← e', accounts.symbols sym (e ▸ List.mem_append_left _ hs), stacked sym hs] at yes
  cases yes

/-- Every stack that was pushed has a place of its own. -/
theorem Pushed.nodup (h : Pushed s pairs vars s') (accounts : Accounts S s') :
    (vars.map RecursiveVar.location).Nodup := by
  obtain ⟨new, e, places, -⟩ := h.symbols
  have := accounts.distinct
  rw [e, List.map_append, places] at this
  exact List.pairwise_reverse.1 ((List.nodup_append.1 this).1.imp Ne.symm)

/-- Pushed stacks keep the unit sound. -/
theorem Pushed.sound (h : Pushed s pairs vars s') (accounts : Accounts S s') (sound : s.Sound S)
    (inside : 0 < s.scopes.length) : s'.Sound S := by
  obtain ⟨scope, rest, e⟩ := List.exists_cons_of_length_pos inside
  obtain ⟨owned, e'⟩ := h.scopes scope rest e
  have old (x : Scope) (hx : x ∈ scope :: rest) : x.Sound S := sound.scopes x (e ▸ hx)
  refine ⟨fun scope' mem => ?_, by rw [h.extends'.frames]; exact sound.results⟩
  rw [e'] at mem
  rcases List.mem_cons.1 mem with rfl | mem
  · -- what the scope gained is sound by its place, and what it had was sound before
    have head := old scope (List.mem_cons_self ..)
    refine ⟨fun v hv => ?_, fun n v hv => ?_, fun n v hv => ?_⟩
    · rcases List.mem_append.1 hv with hv | hv
      · exact h.stackPlaces accounts v (List.mem_reverse.1 hv)
      · exact head.exits v hv
    · rcases List.mem_append.1 hv with hv | hv
      · rw [List.mem_reverse] at hv
        obtain ⟨p, -, e⟩ := List.mem_map.1 hv
        cases e
      · exact head.indexed n v hv
    · rcases List.mem_append.1 hv with hv | hv
      · rw [List.mem_reverse] at hv
        obtain ⟨p, hp, e⟩ := List.mem_map.1 hv
        cases e
        exact List.mem_append_left _ (List.mem_reverse.2 (List.of_mem_zip hp).2)
      · exact List.mem_append_right _ (head.recursive n v hv)
  · exact old scope' (List.mem_cons_of_mem _ mem)

/-- So do reserved variables. -/
theorem Reserved.sound (h : Reserved s temps s') (sound : s.Sound S)
    (inside : 0 < s.scopes.length) : s'.Sound S := by
  obtain ⟨scope, rest, e⟩ := List.exists_cons_of_length_pos inside
  obtain ⟨owned, e'⟩ := h.scopes scope rest e
  refine ⟨fun scope' mem => ?_, by rw [h.extends'.frames]; exact sound.results⟩
  rw [e'] at mem
  rcases List.mem_cons.1 mem with rfl | mem
  · have head := sound.scopes scope (e ▸ List.mem_cons_self ..)
    exact ⟨head.exits, head.indexed, head.recursive⟩
  · exact sound.scopes scope' (e ▸ List.mem_cons_of_mem _ mem)

end Lower

/-- The type of a region: what its calls push, and where its address goes. -/
def Region.type (region : Region) (address : IndexedVar) : RoutineType :=
  ⟨(region.this.toList ++ region.params.reverse).map RecursiveVar.location,
    region.returnAddress.location, address.location⟩

/-- How the outermost call of a region begins, with what holds in the region. -/
theorem Lower.Opens.typed {key : String} {params : List String} {receiver : Option Element}
    {arguments : List Element} {result : IndexedVar} {region : Region} {entry : List Action}
    (opens : Opens key params receiver arguments result s region s') (address : IndexedVar)
    (extends' : Extends s entry s') (accounts : Accounts S s') (sound : s.Sound S)
    {rest : List Scope} (empty : s.scopes = .empty :: rest) :
    RegionTyped S region (region.type address) ∧
      (region.type address).ret ∉ (region.type address).params ∧
      Enters S (region.type address) outermost entry Δ ∧ s'.Sound S ∧
      ∃ name others owned, MadeUp ["ret_addr"] name ∧
        s'.scopes = ⟨(name, .recursive region.returnAddress) :: others,
          region.returnAddress :: (region.this.toList ++ region.params.reverse), owned⟩ :: rest ∧
        ∀ n v, (n, v) ∈ others →
          ∃ w, v = .recursive w ∧ w.location ∈ (region.type address).params := by
  obtain ⟨name, t, hidden, pushed, reserved⟩ := opens.stackPlaces
  have accounts' := accounts.of_grows reserved.extends'.grows
  have stackPlaces := pushed.stackPlaces accounts'
  have inside : 0 < s.scopes.length := by simp [empty]
  have plain := reserved.plain accounts
  have soundT := pushed.sound accounts' sound inside
  have length : (region.params ++ region.this.toList).length =
      (params.zip arguments ++ receiver.toList.map (("this", ·))).length := by
    have := pushed.length
    simp only [List.length_append, List.length_singleton] at this ⊢
    omega
  -- there is at most one receiver
  have this : region.this.toList.reverse = region.this.toList := by cases region.this <;> rfl
  refine ⟨⟨rfl, rfl, fun v hv => stackPlaces v ?_, plain, ?_,
    opens.this.trans opens.thisTemp.symm⟩, ?_, ?_,
    reserved.sound soundT (by rw [pushed.extends'.scopes.length_eq]; exact inside), ?_⟩
  · simp only [List.mem_cons, List.mem_append] at hv ⊢
    tauto
  · rw [opens.length, opens.temps, List.length_zip]
    omega
  · have := pushed.nodup accounts'
    rw [List.map_append, List.nodup_append] at this
    intro mem
    refine this.2.2 _ ?_ _ (List.mem_singleton_self _) rfl
    simp only [Region.type, List.mem_map, List.mem_append, List.mem_reverse] at mem ⊢
    obtain ⟨v, hv, e⟩ := mem
    exact ⟨v, hv.symm, e⟩
  · have whole := extends'.list.symm.trans reserved.extends'.list
    rw [List.append_nil, pushed.extends'.list] at whole
    obtain rfl := List.append_cancel_left whole
    have last : ([region.returnAddress].zip [(name, Element.number (.ofInt (-1)))]).flatMap
        (fun p => p.1.pushActions p.2.2 none) =
          [(region.type address).ret.push (.number (.ofInt (-1)))] := by
      have := (stackPlaces region.returnAddress (by simp)).push_eq (.number (.ofInt (-1)))
      simpa [Region.type] using this
    rw [List.zip_append length, List.flatMap_append, last]
    refine ⟨⟨_, .ofInt (-1), rfl, rfl, ?_⟩⟩
    · have touched := touches_pushes (S := S) (f := Prod.fst)
        (l := (region.params ++ region.this.toList).zip
          (params.zip arguments ++ receiver.toList.map (("this", ·))))
        (fun x hx => stackPlaces x.1 (List.mem_append_left _ (List.of_mem_zip hx).1))
          (fun x => x.2.2) Δ
      have places : (((region.params ++ region.this.toList).zip
          (params.zip arguments ++ receiver.toList.map (("this", ·)))).map
            fun x => x.1.location).reverse = (region.type address).params := by
        rw [show (fun x : RecursiveVar × String × Element => x.1.location) =
          RecursiveVar.location ∘ Prod.fst from rfl, ← List.map_map,
          List.map_fst_zip (Nat.le_of_eq length), ← List.map_reverse, List.reverse_append, this]
        rfl
      rwa [places] at touched
  · obtain ⟨owned, e⟩ := pushed.scopes _ _ empty
    obtain ⟨owned', e'⟩ := reserved.scopes _ _ e
    rw [List.zip_append length.symm, List.map_append, List.reverse_append] at e'
    refine ⟨name, (((params.zip arguments ++ receiver.toList.map (("this", ·))).zip
      (region.params ++ region.this.toList)).map fun p => (p.1.1, Variable.recursive p.2)).reverse,
      owned', hidden, e'.trans ?_, fun n v hv => ?_⟩
    · simp [Scope.empty, this]
    · rw [List.mem_reverse] at hv
      obtain ⟨p, hp, e⟩ := List.mem_map.1 hv
      cases e
      refine ⟨p.2, rfl, ?_⟩
      have mem := (List.of_mem_zip hp).2
      rw [List.mem_append] at mem
      simp only [Region.type, List.mem_map, List.mem_append, List.mem_reverse]
      exact ⟨p.2, mem.symm, rfl⟩

/-- How a call inside a region begins. -/
theorem RegionTyped.enters {region : Region} {type : RoutineType}
    (typed : RegionTyped S region type) (receiver : Option Element) (arguments : List Element) :
    Enters S type (callNumber region.callSites.length) (callEntry region receiver arguments) Δ := by
  have ret := typed.stackPlaces region.returnAddress (List.mem_cons_self ..)
  have param (v : RecursiveVar) (hv : v ∈ region.params) : v.Sound S :=
    typed.stackPlaces v (List.mem_cons_of_mem _ (List.mem_append_right _ hv))
  have temp (v : IndexedVar) (hv : v ∈ region.argumentTemps) : ¬ S v.location :=
    typed.temps v (List.mem_append_left _ hv)
  -- the arguments are all computed before the first of them is pushed
  have kept : TouchesAll S ((region.argumentTemps.zip arguments).flatMap
      fun p => p.1.set p.2 none []) Δ Δ :=
    touches_settings (f := Prod.fst) (fun x hx => temp x.1 (List.of_mem_zip hx).1) Prod.snd Δ
  have pushed : TouchesAll S ((region.params.zip region.argumentTemps).flatMap
      fun p => p.1.pushActions (p.2.get none) none) Δ
        ((region.params.map RecursiveVar.location).reverse ++ Δ) := by
    have := touches_pushes (S := S) (f := Prod.fst) (l := region.params.zip region.argumentTemps)
      (fun x hx => param x.1 (List.of_mem_zip hx).1) (fun x => x.2.get none) Δ
    rwa [show (fun x : RecursiveVar × IndexedVar => x.1.location) =
      RecursiveVar.location ∘ Prod.fst from rfl, ← List.map_map,
      List.map_fst_zip typed.arguments] at this
  have both := typed.this
  unfold callEntry
  rw [ret.push_eq, ← typed.ret]
  refine ⟨_, _, rfl, rfl, ?_⟩
  rw [typed.params]
  cases hthis : region.this with
  | none =>
    rw [hthis] at both
    obtain e : region.thisTemp = none := Option.isNone_iff_eq_none.1 (by simpa using both)
    simpa [e] using kept.append pushed
  | some v =>
    rw [hthis] at both
    obtain ⟨w, e⟩ := Option.isSome_iff_exists.1 both.symm
    have stack : v.Sound S := typed.stackPlaces v (by simp [hthis])
    have plain : ¬ S w.location := typed.temps w (by simp [e])
    have last : TouchesAll S (v.pushActions (w.get none) none)
        ((region.params.map RecursiveVar.location).reverse ++ Δ)
        (v.location :: ((region.params.map RecursiveVar.location).reverse ++ Δ)) := by
      rw [stack.push_eq]
      exact .cons (.push stack.2) .nil
    cases receiver with
    | none => simpa [e] using (kept.append pushed).append last
    | some receiver =>
      have first := touches_indexed plain receiver none [] Δ
      simpa [e] using ((kept.append first).append pushed).append last

end

/-! ## Tidy sources -/

/-- Statements that assign no variable of a name that lowering makes up for return addresses. -/
def Tidy (kinds : List StmtKind) : Prop :=
  ∀ k ∈ kinds, ∀ name, k.assigned? = some name → ¬ MadeUp ["ret_addr"] name

instance (kinds : List StmtKind) : Decidable (Tidy kinds) :=
  decidable_of_iff (∀ k ∈ kinds, ∀ name ∈ k.assigned?, ¬ MadeUp ["ret_addr"] name) Iff.rfl

/-- A part of a tidy body is tidy. -/
theorem Tidy.subset {a b : List StmtKind} (h : Tidy b) (sub : a ⊆ b) : Tidy a :=
  fun k hk => h k (sub hk)

/-- The bodies of a session are tidy. -/
def Session.Tidy (σ : Session) : Prop := ∀ body ∈ σ.bodies, SkipCode.Tidy (Source.kindsOf body)

/-- So is a constructor of a tidy session. -/
theorem Session.Tidy.constructor {σ : Session} {className : String} {index : Nat}
    {constructor : Source.ConstructorDecl} (tidy : σ.Tidy)
    (found : σ.classes.constructor className index = .ok constructor) :
    SkipCode.Tidy (Source.kindsOf constructor.body) := by
  rcases ClassTable.constructor_mem_bodies found with e | mem
  · rw [e]
    exact fun k hk => by cases hk
  · exact tidy _ (List.mem_append_right _ mem)

/-- A session grows without opening bodies. -/
theorem Session.Grows.bodies {a b : Session} (h : a.Grows b) : b.bodies = a.bodies := by
  rw [Session.bodies, Session.bodies, h.classes, h.functions]

namespace Task

/-- The statements in a piece of the source. -/
def kinds : Task → List StmtKind
  | call callee _ _ => Source.kindsOf callee.decl.body
  | body _ _ statements _ _ _ => Source.kindsOf statements
  | stmt s => s.kinds
  | kind k => k.kinds
  | stmts statements => Source.kindsOf statements
  | block statements => Source.kindsOf statements
  | arms branches otherwise => Source.kindsOfBranches branches ++ Source.kindsOf (otherwise.getD [])
  | loop _ statements step => Source.kindsOf statements ++ Source.kindsOf step
  | _ => []

section

variable {condition : Expr} {body : List Stmt} {start step : Option Stmt}
  {branches rest : List Branch} {otherwise : Option (List Stmt)}

/-- The parts of a choice are parts of the statement. -/
theorem kinds_cond : (arms branches otherwise).kinds ⊆ (kind (.cond branches otherwise)).kinds := by
  change _ ⊆ (StmtKind.cond branches otherwise).kinds
  rw [Source.kinds_cond]
  exact List.subset_cons_self _ _

/-- So is a loop of its kind. -/
theorem kinds_while : (loop condition body []).kinds ⊆ (kind (.while condition body)).kinds := by
  change Source.kindsOf body ++ Source.kindsOf [] ⊆ (StmtKind.while condition body).kinds
  simp [Source.kindsOf, Source.StmtKind.kinds]

/-- So is the beginning of a counting loop. -/
theorem kinds_start :
    (stmts start.toList).kinds ⊆ (kind (.for start condition step body)).kinds := by
  change Source.kindsOf start.toList ⊆ (StmtKind.for start condition step body).kinds
  simp [Source.kinds_for]

/-- So are its condition, step and body. -/
theorem kinds_for :
    (loop condition body step.toList).kinds ⊆ (kind (.for start condition step body)).kinds := by
  change Source.kindsOf body ++ Source.kindsOf step.toList ⊆
    (StmtKind.for start condition step body).kinds
  rw [Source.kinds_for]
  intro k hk
  simp only [List.mem_cons, List.mem_append] at hk ⊢
  tauto

/-- The last arm is a part of the arms. -/
theorem kinds_otherwise : (block body).kinds ⊆ (arms [] (some body)).kinds :=
  List.Subset.refl (Source.kindsOf body)

/-- So is the first one. -/
theorem kinds_arm : (block body).kinds ⊆ (arms (.mk condition body :: rest) otherwise).kinds := by
  change Source.kindsOf body ⊆ Source.kindsOfBranches (.mk condition body :: rest) ++ _
  rw [Source.kindsOfBranches, List.append_assoc]
  exact List.subset_append_left _ _

/-- So are the others. -/
theorem kinds_arms :
    (arms rest otherwise).kinds ⊆ (arms (.mk condition body :: rest) otherwise).kinds := by
  change Source.kindsOfBranches rest ++ _ ⊆ Source.kindsOfBranches (.mk condition body :: rest) ++ _
  rw [Source.kindsOfBranches, List.append_assoc]
  exact List.subset_append_right _ _

end

/-- Whether a piece of the source closes every scope that it opens. -/
def Closed : Task → Prop
  | body .. | initials .. | block _ | arms .. | loop .. => True
  | _ => False

end Task

/-- Closing a scope leaves those below it. -/
theorem Lower.Closes.scopes {t u : UnitState} {pops : List Action} {scope : Scope}
    {rest : List Scope} (closes : Closes t pops u) (h : ScopesGrow (scope :: rest) t.scopes) :
    u.scopes = rest := by
  obtain ⟨inner, rest', σ, e, -, -, rfl⟩ := closes.closed
  have := h.tail_eq
  rw [e] at this
  exact this

/-- Behind what closes its scopes the same scopes are open with the same in them. -/
theorem Lowers.scopes_eq {task : Task} {s t : UnitState} {c : Code} {xs : List Element}
    (h : Lowers task s c xs t) (closed : task.Closed) : t.scopes = s.scopes := by
  induction h with
  | body list e inner closes _ =>
    exact closes.scopes (e.extends'.steady.trans inner.steady).scopes
  | initials list inner closes _ => exact closes.scopes inner.steady.scopes
  | block inner closes _ => exact closes.scopes inner.steady.scopes
  | arms_nil => rfl
  | arms_otherwise _ ih => exact ih trivial
  | arms_last list list' condition closes _ _ ih =>
    exact (ih trivial).trans (closes.scopes condition.steady.scopes)
  | arms_cons list list' condition closes _ _ _ ih₁ ih₂ =>
    exact (ih₂ trivial).trans ((ih₁ trivial).trans (closes.scopes condition.steady.scopes))
  | loop list list' list'' list''' condition closes _ _ _ ih₁ ih₂ =>
    exact (ih₂ trivial).trans ((ih₁ trivial).trans (closes.scopes condition.steady.scopes))
  | _ => exact closed.elim

/-! ## Plain steps of expressions and statements -/

namespace Disciplined

variable {α : Type}

/-- A failure keeps to the discipline. -/
theorem lift (x : Except LowerError α) : Disciplined S (liftM x : Lower α) :=
  quiet (.lift x) fun s a s' h => by
    rw [run_lift] at h
    cases h
    rfl

/-- So does naming a field's variable. -/
theorem fieldVar (className field : String) (handle : Element) :
    Disciplined S (Lower.fieldVar className field handle) :=
  .bind .get fun _ => .bind (.lift _) fun _ => .bind (.lift _) fun _ =>
    .bind (.onStorage (.prepare _)) fun _ => .bind (.onStorage (.fieldStack _)) fun _ => .pure _

/-- So does naming a static variable. -/
theorem staticVar (className field : String) : Disciplined S (Lower.staticVar className field) :=
  .bind .get fun _ => .bind (.lift _) fun _ => .onStorage (.staticField _ _)

/-- So does naming an index. -/
theorem indexName (index : Option String) : Disciplined S (Lower.indexName index) := by
  cases index with
  | some name => exact .pure name
  | none => exact .hiddenName _

/-- A step on the storage that writes to it. -/
theorem writeStorage {m : ClassStorage.Step α} (adds : ClassStorage.Adds m)
    (within : ClassStorage.WritesWithin m) : Disciplined S (Lower.onStorage m) := by
  refine ⟨.onStorage adds, fun s a s' depth h _ accounts _ sound => ?_⟩
  obtain ⟨actions, extends'⟩ := Plain.onStorage adds s a s' h
  obtain ⟨t, ht, rfl⟩ := run_onStorage_ok.1 h
  obtain ⟨-, written, e, inside⟩ := within _ _ _ ht
  obtain rfl := List.append_cancel_left (extends'.list.symm.trans e)
  exact ⟨actions, extends', touches_within inside accounts.storage _, ⟨sound.scopes, sound.results⟩⟩

/-- So does deleting by a handle. -/
theorem deleteHandle (handle : Element) (className : String) :
    Disciplined S (Lower.deleteHandle handle className) :=
  .bind (.hiddenName _) fun _ => .bind (rules.declare _ _ _) fun _ => .bind .get fun _ =>
    .writeStorage (.release _ _ _) (.release _ _ _)

end Disciplined

/-- A name bound to an element adds no stack. -/
theorem Scope.Sound.of_reference (name : String) (e : Element) :
    (⟨[(name, .reference e)], [], []⟩ : Scope).Sound S := by
  refine ⟨fun _ h => (by cases h), fun n v h => ?_, fun n v h => ?_⟩ <;>
  · cases List.mem_singleton.1 h

/-- Neither does an empty scope. -/
theorem Scope.Sound.empty : Scope.empty.Sound S :=
  ⟨fun _ h => (by cases h), fun _ _ h => (by cases h), fun _ _ h => (by cases h)⟩

/-! ## Pieces of code at a place -/

/-- What holds where a piece of the source is lowered. -/
structure Ready (S : Location → Prop) (τ : List RoutineType) (L : List LoopType)
    (R : List Location) (depth : Nat) (s : UnitState) : Prop where
  tidy : s.session.Tidy
  sound : s.Sound S
  shaped : Shaped S τ L R depth s

/-- What a piece of code has to do there. -/
structure Kept (S : Location → Prop) (τ : List RoutineType) (L : List LoopType)
    (R : List Location) (depth : Nat) (s : UnitState) (c : Code) (s' : UnitState) : Prop where
  code : Balanced S τ L R (stacksAbove s.scopes depth ++ R) c (stacksAbove s'.scopes depth ++ R)
  sound : s'.Sound S

section

variable {α : Type} {τ : List RoutineType} {L : List LoopType} {R : List Location} {depth : Nat}
  {s t u : UnitState} {a b : Code} {actions pops : List Action}

/-- A session that grows stays tidy. -/
theorem Session.Grows.tidy {σ σ' : Session} (h : σ.Grows σ') (tidy : σ.Tidy) : σ'.Tidy := by
  rw [Session.Tidy, h.bodies]
  exact tidy

/-- A state stays ready through code that leaves its frames as they were. -/
theorem Ready.next (ready : Ready S τ L R depth s) (roomy : Roomy L depth s) (steady : s.Steady t)
    (sound : t.Sound S) : Ready S τ L R depth t :=
  ⟨steady.grows.session.tidy ready.tidy, sound, ready.shaped.steady roomy steady⟩

/-- Without code everything is kept. -/
theorem Kept.nothing (sound : s.Sound S) : Kept S τ L R depth s (.acts []) s :=
  ⟨.acts .nil, sound⟩

/-- Code that can stand behind any stacks, between states with the same scopes. -/
theorem Kept.standing (code : ∀ Δ, Balanced S τ L R Δ a Δ) (sound : t.Sound S)
    (same : t.scopes = s.scopes) : Kept S τ L R depth s a t := by
  refine ⟨?_, sound⟩
  rw [same]
  exact code _

/-- Code that keeps composes. -/
theorem Kept.seq (h₁ : Kept S τ L R depth s a t) (h₂ : Kept S τ L R depth t b u) :
    Kept S τ L R depth s (.seq a b) u :=
  ⟨.seq h₁.code h₂.code, h₂.sound⟩

/-- A balanced list of actions keeps to the discipline. -/
theorem Balanced.touched {Δ Δ' : List Location} (h : Balanced S τ L R Δ (.acts actions) Δ') :
    TouchesAll S actions Δ Δ' := by
  cases h with
  | acts touched => exact touched

/-- Without actions no stack changes. -/
theorem TouchesAll.nil_eq {Δ Δ' : List Location} (h : TouchesAll S [] Δ Δ') : Δ = Δ' := by
  cases h
  rfl

/-- A step without actions behind other code. -/
theorem Kept.after (h₁ : Kept S τ L R depth s a t) (h₂ : Kept S τ L R depth t (.acts []) u) :
    Kept S τ L R depth s a u := by
  refine ⟨?_, h₂.sound⟩
  rw [← h₂.code.touched.nil_eq]
  exact h₁.code

/-- A step without actions before other code. -/
theorem Kept.before (h₁ : Kept S τ L R depth s (.acts []) t) (h₂ : Kept S τ L R depth t b u) :
    Kept S τ L R depth s b u := by
  refine ⟨?_, h₂.sound⟩
  rw [h₁.code.touched.nil_eq]
  exact h₂.code

/-- A plain step. -/
theorem Lower.Emits.kept {m : Lower α} {x : α} (emits : Emits m s actions x t)
    (disciplined : Disciplined S m) (accounts : Accounts S t) (sound : s.Sound S)
    (roomy : Roomy L depth s) : Kept S τ L R depth s (.acts actions) t := by
  obtain ⟨actions', e, touched, sound'⟩ :=
    disciplined.typed s x t depth emits.run emits.clean accounts roomy.body sound
  obtain rfl := List.append_cancel_left (emits.extends'.list.symm.trans e.list)
  exact ⟨.acts (touched.onto R), sound'⟩

/-- The end of a scope. -/
theorem Lower.Closes.kept (closes : Closes t pops u) (sound : t.Sound S) {scope : Scope}
    {rest : List Scope} (open' : ScopesGrow (scope :: rest) t.scopes) (inside : depth ≤ rest.length)
    (R : List Location) :
    TouchesAll S pops (stacksAbove t.scopes depth ++ R) (stacksAbove rest depth ++ R) ∧
      u.Sound S := by
  obtain rfl := closes.scopes open'
  obtain ⟨inner, rest, σ, e, rfl, -, rfl⟩ := closes.closed
  have head := sound.scopes inner (e ▸ List.mem_cons_self ..)
  refine ⟨?_, fun x hx => sound.scopes x (e ▸ List.mem_cons_of_mem _ hx), sound.results⟩
  rw [e, stacksAbove_cons inside, List.append_assoc]
  exact touches_pops head.exits _

/-- The state of the lists does not matter. -/
theorem Ready.withList (ready : Ready S τ L R depth s) (list : ActionList) :
    Ready S τ L R depth (s.withList list) :=
  ⟨ready.tidy, ⟨ready.sound.scopes, ready.sound.results⟩,
    ready.shaped.same ((UnitState.Steady.refl s).withList list) rfl⟩

/-- Room does not depend on the list. -/
theorem Roomy.withList (roomy : Roomy L depth s) (list : ActionList) :
    Roomy L depth (s.withList list) := ⟨roomy.body, roomy.loops⟩

/-- Inside another scope. -/
theorem Ready.surrounded {scope : Scope} (ready : Ready S τ L R depth s) (sound : scope.Sound S) :
    Ready S τ L R depth { s with scopes := scope :: s.scopes } := by
  refine ⟨ready.tidy, ⟨fun other mem => ?_, ready.sound.results⟩, ready.shaped.opened _⟩
  rcases List.mem_cons.1 mem with rfl | mem
  · exact sound
  · exact ready.sound.scopes other mem

/-- A state with one more scope is ready. -/
theorem Ready.opened (ready : Ready S τ L R depth s) : Ready S τ L R depth s.opened :=
  ready.surrounded .empty

/-- An empty scope has no stacks. -/
theorem stacksAbove_opened (inside : depth ≤ s.scopes.length) :
    stacksAbove s.opened.scopes depth = stacksAbove s.scopes depth := by
  rw [UnitState.opened, stacksAbove_cons inside]
  rfl

end

/-! ## The ways of lowering -/

namespace Task

/-- Where the results of a piece of the source go that has a body of its own. -/
def result? : Task → Option IndexedVar
  | body _ _ _ _ _ result => result
  | _ => none

def IsBlock (task : Task) : Prop := ∃ statements, task = block statements

/-- What is asked of a piece of the source. -/
structure Fits (S : Location → Prop) (task : Task) : Prop where
  tidy : Tidy task.kinds
  result : ∀ v, task.result? = some v → ¬ S v.location

end Task

/-- A piece of the source becomes code that keeps the discipline wherever it stands. -/
def Keeps (S : Location → Prop) (task : Task) (s : UnitState) (c : Code) (t : UnitState) : Prop :=
  ∀ τ L R depth, Accounts S t → task.Fits S → Ready S τ L R depth s →
    task.IsBlock ∨ Roomy L depth s → Kept S τ L R depth s c t

/-- A session grows while a scope is closed. -/
theorem Lower.Closes.grows {t u : UnitState} {pops : List Action} (closes : Closes t pops u) :
    t.Grows u := by
  obtain ⟨scope, rest, σ, -, -, freed, rfl⟩ := closes.closed
  exact ⟨rfl, rfl, .freed freed, List.suffix_refl _, Nat.le_refl _, id⟩

section

variable {τ : List RoutineType} {L : List LoopType} {R : List Location} {depth : Nat}
  {s t u : UnitState} {c d : Code} {actions pops : List Action} {task : Task}

/-- A piece of the source that is neither a block nor has a result. -/
theorem Task.Fits.of_subset {other : Task} (fits : task.Fits S) (sub : other.kinds ⊆ task.kinds)
    (none : other.result? = none) : other.Fits S :=
  ⟨fits.tidy.subset sub, fun v h => by rw [none] at h; cases h⟩

/-- What is lowered behind something else. -/
theorem Keeps.next (keeps : Keeps S task t d u) (accounts : Accounts S u) (fits : task.Fits S)
    (ready : Ready S τ L R depth s) (roomy : Roomy L depth s) (steady : s.Steady t)
    (before : Kept S τ L R depth s c t) : Kept S τ L R depth s (.seq c d) u :=
  before.seq (keeps τ L R depth accounts fits (ready.next roomy steady before.sound)
    (Or.inr (roomy.steady steady)))

/-- What a scope of its own surrounds. -/
theorem Kept.inScope {scope : Scope} (empty : scope.exits = []) (inside : depth ≤ s.scopes.length)
    (inner : Kept S τ L R depth { s with scopes := scope :: s.scopes } c t)
    (steady : ({ s with scopes := scope :: s.scopes } : UnitState).Steady t)
    (closes : Closes t pops u) : Kept S τ L R depth s (.seq c (.acts pops)) u := by
  obtain ⟨touched, sound⟩ := closes.kept inner.sound steady.scopes inside R
  have code := inner.code
  simp only [stacksAbove_cons inside, Scope.stackPlaces, empty, List.map_nil,
    List.nil_append] at code
  refine ⟨.seq code (.acts ?_), sound⟩
  rw [closes.scopes steady.scopes]
  exact touched

/-- A body of its own. -/
theorem Kept.framed {frame : Frame} {list : ActionList}
    (same : t.scopes = s.scopes)
    (inner : Kept S τ [] [] s.scopes.length (s.entered frame) c t) :
    Kept S τ L R depth s (.frame c) (t.left list) := by
  have code := inner.code
  rw [same] at code
  change Balanced S τ [] [] (stacksAbove s.scopes s.scopes.length ++ []) c
    (stacksAbove s.scopes s.scopes.length ++ []) at code
  rw [stacksAbove_length, List.append_nil] at code
  refine ⟨?_, inner.sound.scopes, fun f hf v hv => ?_⟩
  · change Balanced S τ L R _ _ (stacksAbove t.scopes depth ++ R)
    rw [same]
    exact .frame code
  · exact inner.sound.results f (List.mem_of_mem_tail hf) v hv

/-- A state that has entered a body is ready at the body's own depth. -/
theorem Ready.entered {scope : Scope} {m : Option String} {r : Option IndexedVar}
    (ready : Ready S τ L R depth s) (sound : scope.Sound S)
    (plain : ∀ v, r = some v → ¬ S v.location) :
    Ready S τ [] [] s.scopes.length
      (({ s with scopes := scope :: s.scopes } : UnitState).entered (s.expanded m r)) := by
  refine ⟨ready.tidy, ⟨fun x hx => ?_, fun f hf v hv => ?_⟩, ready.shaped.entered _ _ _⟩
  · rcases List.mem_cons.1 hx with rfl | hx
    · exact sound
    · exact ready.sound.scopes x hx
  · rcases List.mem_cons.1 hf with rfl | hf
    · exact plain v hv
    · exact ready.sound.results f hf v hv

/-- Inside of a body there is room for its own stacks. -/
theorem Roomy.entered (s : UnitState) (scope : Scope) (frame : Frame) :
    Roomy [] s.scopes.length
      (({ s with scopes := scope :: s.scopes } : UnitState).entered frame) :=
  ⟨Nat.lt_succ_self _, fun _ h => by simp at h⟩

end

section

variable {τ : List RoutineType} {L : List LoopType} {R : List Location} {depth : Nat}
  {s s₁ s₂ s₃ s₄ : UnitState} {c : Code}

/-- A single temporary is a plain variable. -/
theorem Lower.Reserved.single {temp : IndexedVar} (h : Reserved s [temp] s₁)
    (accounts : Accounts S s₁) : ¬ S temp.location ∧ temp.path = [] :=
  ⟨h.plain accounts temp (List.mem_singleton_self _), h.paths temp (List.mem_singleton_self _)⟩

/-- The end of a region: its address, and the pops of what its calls push. -/
theorem finishes_of_scope {region : Region} {type : RoutineType} {address : IndexedVar}
    {scope : Scope} (typed : RegionTyped S region type) (fresh : type.ret ∉ type.params)
    (exits : scope.exits = region.returnAddress :: (region.this.toList ++ region.params.reverse))
    (there : type.address = address.location) (plain : ¬ S address.location ∧ address.path = []) :
    Finishes S type (address.set (region.returnAddress.get none) none [] ++ scopePops scope)
      (address.get none) := by
  have sound : ∀ v ∈ scope.exits, v.Sound S := by
    intro v hv
    apply typed.stackPlaces
    simp only [exits, List.mem_cons, List.mem_append, List.mem_reverse] at hv ⊢
    exact hv
  have places : scope.exits.map RecursiveVar.location = type.ret :: type.params := by
    rw [exits, List.map_cons, typed.params, typed.ret]
  have ret := typed.stackPlaces region.returnAddress (List.mem_cons_self ..)
  refine ⟨?_, ?_, there ▸ plain.1, typed.ret ▸ ret.2, fun l hl => ?_, fresh⟩
  · have set : address.set (region.returnAddress.get none) none [] =
        [.set (type.address.store none) type.address.slot none (.lastOf (type.ret.root none))] := by
      rw [ret.get_eq, ← typed.ret, there, IndexedVar.set, plain.2]
      rfl
    rw [set, scopePops, pops_eq sound, places]
    rfl
  · rw [there, IndexedVar.get, plain.2]
    rfl
  · have : l ∈ scope.exits.map RecursiveVar.location := places ▸ List.mem_cons_of_mem _ hl
    obtain ⟨v, hv, rfl⟩ := List.mem_map.1 this
    exact (sound v hv).2

/-- What holds at the start of the body of a region. -/
theorem Ready.within (key : String) {result : IndexedVar} {region : Region} {type : RoutineType}
    {scope : Scope} {name : String} {others : List (String × Variable)}
    (ready : Ready S τ L R depth s) (steady : s.opened.Steady s₁) (loops : s₁.loops = s.loops)
    (regions : s₁.regions = s.regions) (sound : s₁.Sound S) (typed : RegionTyped S region type)
    (scopes : s₁.scopes = scope :: s.scopes)
    (binds : scope.bindings = (name, .recursive region.returnAddress) :: others)
    (hidden : MadeUp ["ret_addr"] name)
    (params : ∀ n v, (n, v) ∈ others → ∃ w, v = .recursive w ∧ w.location ∈ type.params)
    (plain : ¬ S result.location) :
    Ready S (type :: τ) [] type.params s₁.scopes.length
      ((s₁.entered (s.activation key result)).within region) := by
  -- a body starts without loops, and with one more routine to call
  refine ⟨steady.grows.session.tidy ready.tidy, ⟨sound.scopes, fun f hf v hv => ?_⟩,
    Nat.le_refl _, ?_, .nil, ?_⟩
  · rcases List.mem_cons.1 hf with rfl | hf
    · cases hv
      exact plain
    · exact sound.results f hf v hv
  · refine ⟨_, _, rfl, ?_, ?_, Or.inr ⟨rfl, scope, s.scopes, name, region.returnAddress, others, ?_,
      binds, hidden, params⟩⟩
    · rw [scopes]
      rfl
    · change s.loops.depth + 0 = s₁.loops.depth
      rw [loops, Nat.add_zero]
    · change outerScopes s₁.scopes (s.scopes.length + 1) = _
      rw [show s.scopes.length + 1 = s₁.scopes.length by rw [scopes]; rfl, outerScopes_length,
        scopes]
  · refine .cons typed ?_
    change List.Forall₂ (RegionTyped S) s₁.regions τ
    rw [regions]
    exact ready.shaped.regions

end

section

variable {τ : List RoutineType} {L : List LoopType} {R : List Location} {depth : Nat}
  {s t u : UnitState} {c : Code}

/-- A region at a place where its temporaries are declared already can stand behind any stacks. -/
theorem Ready.region {key : String} {params : List String} {body : List Stmt}
    {receiver : Option Element} {arguments : List Element} {result address : IndexedVar}
    {region closing : Region} {regions : List Region} {entry pops : List Action}
    {s₃ s₄ s₅ : UnitState} (list list' : ActionList)
    (opens : Emits (openRegion key params receiver arguments result) s.opened entry region s₃)
    (inner : Lowers (.block body) ((s₃.entered (s.activation key result)).within region) c [] s₄)
    (open' : s₄.regions = closing :: regions)
    (closes : Closes ({ s₄.left list with regions }.withList list') pops s₅)
    (keeps : Keeps S (.block body) ((s₃.entered (s.activation key result)).within region) c s₄)
    (accounts : Accounts S s₅) (tidy : Tidy (Source.kindsOf body))
    (ready : Ready S τ L R depth s) (plain : ¬ S result.location)
    (plain' : ¬ S address.location ∧ address.path = []) :
    (∀ L' R' Δ, Balanced S τ L' R' Δ (.region entry c
      (address.set (closing.returnAddress.get none) none [] ++ pops) (address.get none)) Δ) ∧
        s₅.Sound S ∧ s₅.scopes = s.scopes := by
  have outer : s.opened.Steady s₃ := opens.extends'.steady
  have steady := inner.steady
  have same := inner.scopes_eq trivial
  change s₄.scopes = s₃.scopes at same
  have accounts₄ : Accounts S s₄ := (accounts.of_grows closes.grows).of_grows (.elsewhere ..)
  have accounts₃ : Accounts S s₃ := (accounts₄.of_grows steady.grows).of_grows (.elsewhere ..)
  have began (Δ : List Location) := (opens_of_run opens.run opens.clean).typed address (Δ := Δ)
    opens.extends' accounts₃ ready.opened.sound rfl
  obtain ⟨typed, fresh, -, sound₃, name, others, owned, hidden, scopes₃, binds⟩ := began []
  have inside :=
    ready.within key outer opens.extends'.loops opens.extends'.regions sound₃ typed scopes₃
    rfl hidden binds plain
  have kept := keeps _ _ _ _ accounts₄ ⟨tidy, fun _ h => by cases h⟩ inside (Or.inl ⟨body, rfl⟩)
  have code := kept.code
  rw [same] at code
  change Balanced S _ [] _ (stacksAbove s₃.scopes s₃.scopes.length ++ _) c
    (stacksAbove s₃.scopes s₃.scopes.length ++ _) at code
  rw [stacksAbove_length, List.nil_append] at code
  -- the region is the one that was opened, with the calls inside noted
  obtain ⟨grown, rest, grows, -, e⟩ := List.forall₂_cons_left_iff.1 steady.regions
  rw [open'] at e
  cases e
  have ret : closing.returnAddress = region.returnAddress := by rw [grows.same]
  obtain ⟨scope, others', σ, e, rfl, -, rfl⟩ := closes.closed
  change s₄.scopes = _ at e
  rw [same, scopes₃] at e
  obtain ⟨outermost, rfl⟩ := List.cons.inj e
  have exits : scope.exits =
      region.returnAddress :: (region.this.toList ++ region.params.reverse) := by rw [← outermost]
  have finishes := finishes_of_scope typed fresh exits rfl plain'
  rw [ret]
  refine ⟨fun L' R' Δ => .region (began Δ).2.2.1 code finishes,
    ⟨fun x hx => ?_, fun f hf v hv => ?_⟩, rfl⟩
  · refine kept.sound.scopes x ?_
    rw [same, scopes₃]
    exact List.mem_cons_of_mem _ hx
  · exact kept.sound.results f (List.mem_of_mem_tail hf) v hv

/-- A call back into a region can stand behind any stacks. -/
theorem Ready.reenter {index : Nat} {key : String} {region : Region}
    (found : findRegion? s.regions key = some (index, region)) (ready : Ready S τ L R depth s)
    (r : Option Element) (a : List Element) (L' : List LoopType) (R' Δ : List Location) :
    Balanced S τ L' R' Δ (.reenter index region.callSites.length (callEntry region r a)) Δ := by
  obtain ⟨lt, e⟩ := List.getElem?_eq_some_iff.1 (findRegion?_at found)
  have lt' : index < τ.length := by rwa [← ready.shaped.regions.length_eq]
  have typed := (List.forall₂_iff_get.1 ready.shaped.regions).2 index lt lt'
  rw [List.get_eq_getElem, e] at typed
  exact .reenter (List.getElem?_eq_getElem lt') (typed.enters r a)

end

/-- Balance does not depend on how code is grouped. -/
theorem Balanced.assoc {τ : List RoutineType} {L : List LoopType} {R Δ Δ' : List Location}
    {a b c : Code} (h : Balanced S τ L R Δ (.seq (.seq a b) c) Δ') :
    Balanced S τ L R Δ (.seq a (.seq b c)) Δ' := by
  cases h with
  | seq first third =>
    cases first with
    | seq first second => exact .seq first (.seq second third)

section

variable {τ : List RoutineType} {L : List LoopType} {R : List Location} {depth : Nat}
  {s s₁ s₂ s₃ s₄ s₅ s₆ t : UnitState} {a b c d e : Code} {x : Element} {task : Task}
  {pops actions : List Action}

/-- Neither does what code keeps. -/
theorem Kept.assoc (h : Kept S τ L R depth s (.seq (.seq a b) c) t) :
    Kept S τ L R depth s (.seq a (.seq b c)) t := ⟨h.code.assoc, h.sound⟩

/-- What code keeps does not depend on the list. -/
theorem Kept.withList (h : Kept S τ L R depth s c t) (list : ActionList) :
    Kept S τ L R depth s c (t.withList list) := ⟨h.code, h.sound.scopes, h.sound.results⟩

/-- Nor do accounts. -/
theorem Accounts.withList {list : ActionList} (h : Accounts S (t.withList list)) : Accounts S t :=
  h.of_grows (.withList t list)

/-- Nor do they depend on a frame that was left. -/
theorem Accounts.of_left {list : ActionList} (h : Accounts S (t.left list)) : Accounts S t :=
  h.of_grows (.elsewhere ..)

/-- A task without statements and result fits. -/
theorem Task.Fits.of_none (kinds : task.kinds = []) (result : task.result? = none) :
    task.Fits S :=
  ⟨fun k hk => (by rw [kinds] at hk; cases hk), fun v h => (by rw [result] at h; cases h)⟩

/-- So expressions fit. -/
theorem Task.Fits.exprs (es : List Expr) : (Task.exprs es).Fits S := .of_none rfl rfl

/-- So does a single one. -/
theorem Task.Fits.expr (e : Expr) : (Task.expr e).Fits S := .of_none rfl rfl

/-- A write behind other code. -/
theorem Kept.write {v : Variable} {name : String} {value : Element} {actor : Option Element}
    {extra : List Element} (sound : s.Sound S)
    (writable : v.Writable S (stacksAbove s.scopes depth ++ R))
    (h : v.setFor name value actor extra = .ok actions) :
    Kept S τ L R depth s (.acts actions) s := ⟨.acts (touches_variable writable h), sound⟩

/-- A write to what is no stack. -/
theorem Kept.store {v : IndexedVar} {value : Element} {actor : Option Element}
    {extra : List Element} (sound : s.Sound S) (plain : ¬ S v.location) (list : ActionList) :
    Kept S τ L R depth s (.acts (v.set value actor extra)) (s.withList list) :=
  ⟨.acts (touches_indexed plain _ _ _ _), sound.scopes, sound.results⟩

/-- A piece behind a write to what is no stack. -/
theorem Keeps.stored {v : IndexedVar} {value : Element} {actor : Option Element}
    {extra : List Element} {list : ActionList} (keeps : Keeps S task (t.withList list) d u)
    (accounts : Accounts S u) (fits : task.Fits S) (ready : Ready S τ L R depth s)
    (roomy : Roomy L depth s) (steady : s.Steady t) (before : Kept S τ L R depth s c t)
    (plain : ¬ S v.location) :
    Kept S τ L R depth s (.seq c (.seq (.acts (v.set value actor extra)) d)) u :=
  (keeps.next accounts fits ready roomy (steady.withList list)
    (before.seq (.store before.sound plain list))).assoc

/-- A block between states that differ in nothing else. -/
theorem Keeps.atBlock {body : List Stmt} (keeps : Keeps S (.block body) s c t)
    (lowers : Lowers (.block body) s c [] t) (accounts : Accounts S t)
    (tidy : Tidy (Source.kindsOf body)) (ready : Ready S τ L R depth s) :
    Balanced S τ L R (stacksAbove s.scopes depth ++ R) c (stacksAbove s.scopes depth ++ R) ∧
      t.Sound S := by
  have kept := keeps τ L R depth accounts ⟨tidy, fun v h => by cases h⟩ ready (Or.inl ⟨body, rfl⟩)
  have code := kept.code
  rw [lowers.scopes_eq trivial] at code
  exact ⟨code, kept.sound⟩

/-- A state with the same scopes is ready. -/
theorem Ready.same (ready : Ready S τ L R depth s) (steady : s.Steady t)
    (same : t.scopes = s.scopes) (sound : t.Sound S) : Ready S τ L R depth t :=
  ⟨steady.grows.session.tidy ready.tidy, sound, ready.shaped.same steady same⟩

/-- A condition in a scope of its own: what it pushed is popped on both ways. -/
theorem Keeps.condition {condition : Expr} {list : ActionList}
    (keeps : Keeps S (.expr condition) s.opened c s₁)
    (lowers : Lowers (.expr condition) s.opened c [x] s₁)
    (closes : Closes (s₁.withList list) pops s₂) (accounts : Accounts S s₂)
    (ready : Ready S τ L R depth s) :
    Balanced S τ L R (stacksAbove s.scopes depth ++ R) c (stacksAbove s₁.scopes depth ++ R) ∧
      TouchesAll S pops (stacksAbove s₁.scopes depth ++ R) (stacksAbove s.scopes depth ++ R) ∧
        s₂.scopes = s.scopes ∧ s.Steady s₂ ∧ s₂.Sound S := by
  have inner := keeps τ L R depth (accounts.of_grows closes.grows).withList (.expr _) ready.opened
    (Or.inr (ready.shaped.roomy _))
  have code := inner.code
  rw [stacksAbove_opened ready.shaped.inside] at code
  obtain ⟨touched, sound⟩ := closes.kept (inner.withList list).sound lowers.steady.scopes
    ready.shaped.inside R
  exact ⟨code, touched, closes.scopes lowers.steady.scopes,
    .inScope (lowers.steady.withList list) closes, sound⟩

/-- A loop with a condition. -/
theorem Keeps.loop {condition : Expr} {body step : List Stmt}
    (list list' list'' list''' : ActionList)
    (h₁ : Lowers (.expr condition) (s.looping list).opened c [x] s₁)
    (closes : Closes (s₁.withList list') pops s₂) (h₂ : Lowers (.block body) s₂ d [] s₃)
    (h₃ : Lowers (.block step) (s₃.looped list'') e [] s₄)
    (k₁ : Keeps S (.expr condition) (s.looping list).opened c s₁)
    (k₂ : Keeps S (.block body) s₂ d s₃) (k₃ : Keeps S (.block step) (s₃.looped list'') e s₄) :
    Keeps S (.loop condition body step) s
      (.loop (.seq c (.seq (.test x.negate) (.seq (.acts pops) d))) e pops)
      (s₄.withList list''') := by
  intro τ L R depth accounts fits ready _
  have accounts₄ := accounts.withList
  have accounts₃ : Accounts S s₃ := (accounts₄.of_grows h₃.steady.grows).of_grows (.elsewhere ..)
  have accounts₂ := accounts₃.of_grows h₂.steady.grows
  -- a failed test leads where the stacks of the condition are still there
  have inner : Ready S τ (⟨stacksAbove s₁.scopes depth ++ R, stacksAbove s.scopes depth ++ R,
      stacksAbove s.scopes depth ++ R⟩ :: L) R depth (s.looping list) :=
    ⟨ready.tidy, ⟨ready.sound.scopes, ready.sound.results⟩, ready.shaped.looping list _⟩
  obtain ⟨condition, touched, same, steady, sound₂⟩ :=
    k₁.condition h₁ closes accounts₂ inner
  obtain ⟨body, sound₃⟩ := k₂.atBlock h₂ accounts₃ (fits.tidy.subset (List.subset_append_left _ _))
    (inner.same steady same sound₂)
  have same₃ : s₃.scopes = s.scopes := (h₂.scopes_eq trivial).trans same
  obtain ⟨step, sound₄⟩ := k₃.atBlock h₃ accounts₄
    (fits.tidy.subset (List.subset_append_right _ _))
    (ready.same (.inLoop (steady.trans h₂.steady) list'') same₃ ⟨sound₃.scopes, sound₃.results⟩)
  have same₄ : s₄.scopes = s.scopes := (h₃.scopes_eq trivial).trans same₃
  rw [same] at body
  change Balanced S τ L R (stacksAbove s₃.scopes depth ++ R) e
    (stacksAbove s₃.scopes depth ++ R) at step
  rw [same₃] at step
  refine ⟨?_, sound₄.scopes, sound₄.results⟩
  change Balanced S τ L R _ _ (stacksAbove s₄.scopes depth ++ R)
  rw [same₄]
  exact .loop (.seq condition (.seq (.test rfl) (.seq (.acts touched) body))) step touched

/-- A loop over an array. -/
theorem Keeps.forEach {element : String} {index : Option String} {array : Expr} {body : List Stmt}
    {name : String} {v : Variable} {declared zero next pops' : List Action}
    (list list' list'' : ActionList)
    (h₁ : Lowers (.expr array) s c [x] s₁) (named : Emits (indexName index) s₁.opened [] name s₂)
    (declares : Emits (declare name none false) s₂ declared v s₃)
    (hzero : v.set "foreach index" (.ofNat 0) [] = .ok zero)
    (h₂ : Lowers (.stmts body)
      { (s₃.looping list).withList list' with
        scopes := ⟨[(element, .reference (.itemAt x v.get))], [], []⟩ :: s₃.scopes } d [] s₄)
    (closes : Closes s₄ pops s₅)
    (hnext : v.set "foreach index" (v.get.add (.ofNat 1)) [] = .ok next)
    (closes' : Closes (s₅.looped list'') pops' s₆) (k₁ : Keeps S (.expr array) s c s₁)
    (k₂ : Keeps S (.stmts body)
      { (s₃.looping list).withList list' with
        scopes := ⟨[(element, .reference (.itemAt x v.get))], [], []⟩ :: s₃.scopes } d s₄) :
    Keeps S (.kind (.forEach element index array body)) s
      (.seq c (.seq (.acts (declared ++ zero))
        (.seq (.loop (.seq (.test (.compare v.get .greaterEqual (.countOf x)))
          (.seq d (.acts pops))) (.acts next) []) (.acts pops')))) s₆ := by
  intro τ L R depth accounts fits ready room
  obtain ⟨_, ⟨⟩⟩ | roomy := room
  have accounts₅ : Accounts S s₅ := (accounts.of_grows closes'.grows).of_grows (.elsewhere ..)
  have accounts₄ : Accounts S s₄ := accounts₅.of_grows closes.grows
  have accounts₃ : Accounts S s₃ := (accounts₄.of_grows h₂.steady.grows).of_grows (.elsewhere ..)
  have accounts₂ := accounts₃.of_grows declares.extends'.grows
  have accounts₁ : Accounts S s₁ :=
    (accounts₂.of_grows named.extends'.grows).of_grows (.withScopes s₁ _)
  -- the array, and the index in the scope of the loop
  have kept₁ := k₁ τ L R depth accounts₁ (.expr _) ready (Or.inr roomy)
  have ready₁ := ready.next roomy h₁.steady kept₁.sound
  have roomy₁ := ready₁.shaped.roomy .empty
  have kept₂ : Kept S τ L R depth s₁.opened _ s₂ :=
    named.kept (.indexName index) accounts₂ ready₁.opened.sound roomy₁
  have ready₂ := ready₁.opened.next roomy₁ named.extends'.steady kept₂.sound
  have roomy₂ := roomy₁.steady named.extends'.steady
  have kept₃ : Kept S τ L R depth s₂ _ s₃ :=
    declares.kept (Disciplined.rules.declare _ _ _) accounts₃ kept₂.sound roomy₂
  have ready₃ := ready₂.next roomy₂ declares.extends'.steady kept₃.sound
  have writable := (writable_declare declares.run declares.clean accounts₃ roomy₂.body).mono
    (List.subset_append_left _ R)
  -- the passes
  have inner : Ready S τ (⟨stacksAbove s₃.scopes depth ++ R, stacksAbove s₃.scopes depth ++ R,
      stacksAbove s₃.scopes depth ++ R⟩ :: L) R depth ((s₃.looping list).withList list') :=
    Ready.withList (s := s₃.looping list) ⟨ready₃.tidy,
      ⟨ready₃.sound.scopes, ready₃.sound.results⟩, ready₃.shaped.looping list _⟩ list'
  have body := k₂ _ _ _ _ accounts₄ ⟨fits.tidy.subset (List.subset_cons_self ..), fun v h => by
    cases h⟩ (inner.surrounded (.of_reference element _)) (Or.inr (inner.shaped.roomy _))
  have pass := Kept.inScope (s := (s₃.looping list).withList list') rfl inner.shaped.inside body
    h₂.steady closes
  have same : s₅.scopes = s₃.scopes := closes.scopes h₂.steady.scopes
  have passed := pass.code
  rw [same] at passed
  have loop : Balanced S τ L R (stacksAbove s₃.scopes depth ++ R)
      (.loop (.seq (.test (.compare v.get .greaterEqual (.countOf x))) (.seq d (.acts pops)))
        (.acts next) []) (stacksAbove s₃.scopes depth ++ R) :=
    .loop (.seq (.test rfl) passed) (.acts (touches_variable writable hnext)) .nil
  have growing : ScopesGrow (.empty :: s₁.scopes) (s₅.looped list'').scopes := by
    change ScopesGrow s₁.opened.scopes s₅.scopes
    rw [same]
    exact named.extends'.scopes.trans declares.extends'.scopes
  obtain ⟨popped, sound⟩ := closes'.kept ⟨pass.sound.scopes, pass.sound.results⟩ growing
    ready₁.shaped.inside R
  refine ⟨.seq kept₁.code (.seq (.acts ?_) (.seq loop (.acts ?_))), sound⟩
  · rw [← stacksAbove_opened ready₁.shaped.inside]
    exact (kept₂.code.touched.append kept₃.code.touched).append (touches_variable writable hzero)
  · rw [closes'.scopes growing, ← same]
    exact popped

end

section

variable {τ : List RoutineType} {L : List LoopType} {R : List Location} {depth : Nat}
  {s s₁ s₂ s₃ s₄ s₅ s₆ t : UnitState} {a b c d e : Code} {x : Element} {xs : List Element}
  {task : Task} {pops actions : List Action}

/-- A loop that is left has its exits where it began. -/
theorem loop_reached {frame : Frame} {frames : List Frame} {target : LoopFrame} {k : UInt32}
    {exit : String} (found : s.frames = frame :: frames)
    (reached : s.loops.frame k frame.loopFloor exit = .ok target) (ready : Ready S τ L R depth s) :
    ∃ type Δ, L[k.toNat]? = some type ∧ type.leave = Δ ∧ type.again = Δ ∧
      stacksAbove s.scopes depth ++ R = stacksAbove s.scopes target.scopeDepth ++ Δ := by
  obtain ⟨frame', frames', found', -, floor, -⟩ := ready.shaped.body
  rw [found] at found'
  cases found'
  obtain ⟨inside, here⟩ := LoopStack.frame_ok reached
  change frame.loopFloor + L.length = s.loops.frames.length at floor
  have lt : k.toNat < L.length := by omega
  have taken : (s.loops.frames.take L.length)[k.toNat]? = some target := by
    rw [List.getElem?_take_of_lt lt]
    exact here
  obtain ⟨lt', e⟩ := List.getElem?_eq_some_iff.1 taken
  have shape := (List.forall₂_iff_get.1 ready.shaped.loops).2 k.toNat lt' lt
  rw [List.get_eq_getElem, List.get_eq_getElem, e] at shape
  refine ⟨L[k.toNat], _, List.getElem?_eq_getElem lt, shape.leave, shape.again, ?_⟩
  rw [stacksAbove_split shape.low shape.high, List.append_assoc]

/-- The pops on the way out of a loop. -/
theorem touches_unwind {frame : Frame} {frames : List Frame} {target : LoopFrame} {k : UInt32}
    {exit : String} (found : s.frames = frame :: frames)
    (reached : s.loops.frame k frame.loopFloor exit = .ok target) (ready : Ready S τ L R depth s) :
    ∃ type Δ, L[k.toNat]? = some type ∧ type.leave = Δ ∧ type.again = Δ ∧
      TouchesAll S (pendingPops s target.scopeDepth) (stacksAbove s.scopes depth ++ R) Δ := by
  obtain ⟨type, Δ, here, leave, again, places⟩ := loop_reached found reached ready
  refine ⟨type, Δ, here, leave, again, ?_⟩
  rw [places]
  exact touches_pendingPops ready.sound _ _

/-- What a return writes and pops. -/
theorem touches_return {frame : Frame} {frames : List Frame} {values : List Element}
    (found : s.frames = frame :: frames) (ready : Ready S τ L R depth s) :
    TouchesAll S (storeResult frame.result values ++ pendingPops s frame.scopeDepth)
      (stacksAbove s.scopes depth ++ R) R := by
  obtain ⟨frame', frames', found', start, -, -⟩ := ready.shaped.body
  rw [found] at found'
  cases found'
  have stored : TouchesAll S (storeResult frame.result values) (stacksAbove s.scopes depth ++ R)
      (stacksAbove s.scopes depth ++ R) := by
    unfold storeResult
    split
    · next value result _ hresult =>
      exact touches_indexed (ready.sound.results frame (found ▸ List.mem_cons_self ..) _ hresult)
        _ _ _ _
    · exact .nil
  rw [start]
  exact stored.append (touches_pendingPops ready.sound depth R)

/-- A target that is a variable has a name that a source may have. -/
theorem writable_target {target : Place} {os : List Element} {v : Variable}
    (h : run (resolveTarget target os) s = some (.ok v, t)) (accounts : Accounts S t)
    (ready : Ready S τ L R depth s)
    (named : ∀ name, target = .var name → ¬ MadeUp ["ret_addr"] name) :
    v.Writable S (stacksAbove s.scopes depth ++ R) := by
  unfold resolveTarget at h
  split at h
  · obtain rfl := run_lookup_ok h
    exact writable_lookup h ready.sound ready.shaped (named _ rfl)
  · obtain ⟨w, u, h₁, h₂⟩ := run_bind_ok.1 h
    cases h₂
    exact accounts.storage _ (run_fieldVar_location h₁)
  · obtain ⟨w, u, h₁, h₂⟩ := run_bind_ok.1 h
    cases h₂
    exact accounts.storage _ (run_staticVar_location h₁)
  · cases h

/-- Resolving a target keeps to the discipline. -/
theorem Disciplined.resolveTarget (target : Place) (os : List Element) :
    Disciplined S (Lower.resolveTarget target os) := by
  unfold Lower.resolveTarget
  split
  · exact .quiet (fun s a s' h => by rw [run_lookup_ok h]; exact .refl s)
      fun s a s' h => by rw [run_lookup_ok h]
  · exact .bind (.fieldVar _ _ _) fun _ => .pure _
  · exact .bind (.staticVar _ _) fun _ => .pure _
  · exact .quiet (fun s a s' h => by cases h) fun s a s' h => by cases h

/-- The body of what a call means is one of the session. -/
theorem run_resolveCallee_mem {className : Option String} {method : String} {callee : Callee}
    (h : run (resolveCallee className method) s = some (.ok callee, t)) :
    callee.decl.body ∈ s.session.bodies := by
  obtain ⟨_, _, ⟨⟩, h₁⟩ := run_bind_ok.1 h
  cases className with
  | none =>
    obtain ⟨decl, _, h₂, h₃⟩ := run_bind_ok.1 h₁
    rw [run_lift_ok] at h₂
    cases h₃
    exact Session.function_mem_bodies h₂.1
  | some className =>
    obtain ⟨⟨owner, decl⟩, _, h₂, h₃⟩ := run_bind_ok.1 h₁
    rw [run_lift_ok] at h₂
    cases h₃
    exact List.mem_append_right _ (ClassTable.method_mem_bodies h₂.1)

/-- The code that takes a handle. -/
theorem Balanced.acquire {config : LowerConfig} {handle : Variable} {table : IndexedVar}
    {first : Option (List Action × Element)} {next mark : List Action} {full : Element}
    {Δ : List Location} (acquires : Acquires config handle table first next full mark)
    (writable : handle.Writable S Δ) (plain : ¬ S table.location) :
    Balanced S τ L R Δ (acquireCode first next full mark) Δ := by
  have next' := Balanced.acts (τ := τ) (L := L) (R := R) (touches_variable writable acquires.next)
  have rest : Balanced S τ L R Δ (.seq (.arm full .abort) (.acts mark)) Δ := by
    refine .seq (.arm .abort) (.acts ?_)
    rw [acquires.mark]
    exact touches_indexed plain _ _ _ _
  cases first with
  | none => exact .seq next' rest
  | some first =>
    obtain ⟨first, found⟩ := first
    exact .seq (.acts (touches_variable writable acquires.first.1)) (.seq (.arm next') rest)

/-- Taking a handle keeps to it too. -/
theorem Kept.acquire {config : LowerConfig} {handle : Variable} {table : IndexedVar}
    {first : Option (List Action × Element)} {next mark : List Action} {full : Element}
    (acquires : Acquires config handle table first next full mark)
    (writable : handle.Writable S (stacksAbove s.scopes depth ++ R)) (plain : ¬ S table.location)
    (sound : t.Sound S) (same : t.scopes = s.scopes) :
    Kept S τ L R depth s (acquireCode first next full mark) t := by
  refine ⟨?_, sound⟩
  rw [same]
  exact .acquire acquires writable plain

/-- Soundness depends on scopes and frames alone. -/
theorem UnitState.Sound.same (h : s.Sound S) (scopes : t.scopes = s.scopes)
    (frames : t.frames = s.frames) : t.Sound S :=
  ⟨scopes ▸ h.scopes, frames ▸ h.results⟩

end

/-! ## The whole of lowering -/

section

variable {s t : UnitState} {c : Code} {xs : List Element} {task : Task}

/-- Every piece of the source becomes code that keeps the discipline. -/
theorem Lowers.keeps (h : Lowers task s c xs t) : Keeps S task s c t := by
  -- on the derivation: what is promised at the end of a piece is what the next one is ready for,
  -- and the
  -- accounts, which only grow, are handed back from the end to the pieces before
  induction h with
  | nil | stmts_nil | fields_nil | statics_nil | arms_nil =>
    intro τ L R depth _ _ ready _
    exact .nothing ready.sound
  | cons h₁ h₂ k₁ k₂ =>
    intro τ L R depth accounts _ ready room
    obtain ⟨_, ⟨⟩⟩ | roomy := room
    exact k₂.next accounts (.exprs _) ready roomy h₁.steady
      (k₁ τ L R depth (accounts.of_grows h₂.steady.grows) (.expr _) ready (Or.inr roomy))
  | node _ _ k =>
    intro τ L R depth accounts _ ready room
    obtain ⟨_, ⟨⟩⟩ | roomy := room
    exact k τ L R depth accounts (.exprs _) ready (Or.inr roomy)
  | var _ | this _ =>
    intro τ L R depth _ _ ready _
    exact .nothing ready.sound
  | field h₁ e k =>
    intro τ L R depth accounts _ ready room
    obtain ⟨_, ⟨⟩⟩ | roomy := room
    have kept := k τ L R depth (accounts.of_grows e.extends'.grows) (.expr _) ready (Or.inr roomy)
    exact kept.after (e.kept (.fieldVar _ _ _) accounts kept.sound (roomy.steady h₁.steady))
  | staticField e =>
    intro τ L R depth accounts _ ready room
    obtain ⟨_, ⟨⟩⟩ | roomy := room
    exact e.kept (.staticVar _ _) accounts ready.sound roomy
  | actorVar _ _ k =>
    intro τ L R depth accounts _ ready room
    obtain ⟨_, ⟨⟩⟩ | roomy := room
    exact k τ L R depth accounts (.expr _) ready (Or.inr roomy)
  | call e _ h₁ h₂ h₃ k₁ k₂ k₃ =>
    intro τ L R depth accounts _ ready room
    obtain ⟨_, ⟨⟩⟩ | roomy := room
    have accounts₂ := accounts.of_grows h₃.steady.grows
    have kept₁ := k₁ τ L R depth (accounts₂.of_grows h₂.steady.grows) (.exprs _) ready
      (Or.inr roomy)
    have ready₁ := ready.next roomy h₁.steady kept₁.sound
    have roomy₁ := roomy.steady h₁.steady
    have kept₂ := k₂ τ L R depth accounts₂ (.exprs _) ready₁ (Or.inr roomy₁)
    have tidy := ready.tidy _ (run_resolveCallee_mem e.run)
    exact kept₁.seq (k₃.next accounts ⟨tidy, fun v h => by cases h⟩ ready₁ roomy₁ h₂.steady kept₂)
  | new h₁ h₂ k₁ k₂ =>
    intro τ L R depth accounts _ ready room
    obtain ⟨_, ⟨⟩⟩ | roomy := room
    exact k₂.next accounts (.of_none rfl rfl) ready roomy h₁.steady
      (k₁ τ L R depth (accounts.of_grows h₂.steady.grows) (.exprs _) ready (Or.inr roomy))
  | @body key _ _ _ _ _ _ _ _ _ _ _ _ list e h closes k =>
    intro τ L R depth accounts fits ready _
    have accounts₂ := (Accounts.of_left accounts).of_grows closes.grows
    have accounts₁ := accounts₂.of_grows h.steady.grows
    -- in the frame of the body no stack is known yet, and none is left when its scope is closed
    have inner := ready.entered (m := some key) .empty fits.result
    have bound := e.kept (τ := τ) (R := []) (Disciplined.rules.bindCall _ _ _) accounts₁ inner.sound
      (.entered _ _ _)
    have ready₁ := inner.next (.entered _ _ _) e.extends'.steady bound.sound
    have kept := bound.seq (k _ _ _ _ accounts₂ ⟨fits.tidy, fun v h => by cases h⟩ ready₁
      (Or.inr ((Roomy.entered _ _ _).steady e.extends'.steady)))
    have grown := e.extends'.steady.trans h.steady
    have whole := Kept.inScope (s := UnitState.entered _ _) rfl (Nat.le_refl _) kept grown closes
    exact .framed (closes.scopes grown.scopes) whole.assoc
  | inline _ e h e' k =>
    intro τ L R depth accounts fits ready room
    obtain ⟨_, ⟨⟩⟩ | roomy := room
    have accounts₂ := accounts.of_grows e'.extends'.grows
    have accounts₁ := accounts₂.of_grows h.steady.grows
    have temp := e.kept (τ := τ) (R := R) (.temp _) accounts₁ ready.sound roomy
    -- the place of the result is no stack, so the returns of the body may write to it
    have plain := ((reserved_temp e.run e.clean).single accounts₁).1
    have ready₁ := ready.next roomy e.extends'.steady temp.sound
    have roomy₁ := roomy.steady e.extends'.steady
    have body := k τ L R depth accounts₂ ⟨fits.tidy, fun v h => by cases h; exact plain⟩ ready₁
      (Or.inr roomy₁)
    exact temp.before (body.seq
      (e'.kept (Disciplined.rules.materialize _) accounts body.sound (roomy₁.steady h.steady)))
  | @reenter _ receiver arguments s index _ _ _ _ list continuation _ found e =>
    intro τ L R depth accounts _ ready room
    obtain ⟨_, ⟨⟩⟩ | roomy := room
    have noted := UnitState.Steady.noteCall s index continuation
    -- an open region has its type in `τ`, which says what its body does to the stacks
    have called : Kept S τ L R depth s _ ((noteCall s index continuation).withList list) :=
      .standing (ready.reenter found receiver arguments L R) ⟨ready.sound.scopes,
        ready.sound.results⟩ rfl
    exact called.seq (e.kept (Disciplined.rules.materialize _) accounts called.sound
      ((roomy.steady noted).withList list))
  | region list list' list'' _ _ e₁ e₂ e₃ h open' closes e₄ k =>
    intro τ L R depth accounts fits ready room
    obtain ⟨_, ⟨⟩⟩ | roomy := room
    have steady := UnitState.Steady.aroundRegion e₃.extends'.steady h.steady open' closes
    have accounts₅ := (accounts.of_grows e₄.extends'.grows).withList
    have accounts₂ := accounts₅.of_grows steady.grows
    have accounts₁ := accounts₂.of_grows e₂.extends'.grows
    -- the temporaries of the result and of the address
    have temp := e₁.kept (τ := τ) (R := R) (.temp _) accounts₁ ready.sound roomy
    have plain := ((reserved_temp e₁.run e₁.clean).single accounts₁).1
    have ready₁ := ready.next roomy e₁.extends'.steady temp.sound
    have roomy₁ := roomy.steady e₁.extends'.steady
    have temp' := e₂.kept (τ := τ) (R := R) (.temp _) accounts₂ ready₁.sound roomy₁
    have plain' := (reserved_temp e₂.run e₂.clean).single accounts₂
    have ready₂ := ready₁.next roomy₁ e₂.extends'.steady temp'.sound
    have roomy₂ := roomy₁.steady e₂.extends'.steady
    obtain ⟨code, sound, same⟩ :=
      ready₂.region list list' e₃ h open' closes k accounts₅ fits.tidy plain
      plain'
    have called :=
      (show Kept S τ L R depth _ _ _ from .standing (code L R) sound same).withList list''
    exact temp.before (temp'.before (called.seq
      (e₄.kept (Disciplined.rules.materialize _) accounts called.sound
        (roomy₂.steady (steady.withList list'')))))
  | @make _ _ _ s constructor fields hidden s₁ declared handle s₂ layout s₃ table first next full
      mark s₄ c s₅ d s₆ hconstructor hfields named declares hlayout prepared acquires
        acquired stored
      h₁ h₂ k₁ k₂ =>
    intro τ L R depth accounts _ ready room
    obtain ⟨_, ⟨⟩⟩ | roomy := room
    have accounts₅ := accounts.of_grows h₂.steady.grows
    have accounts₄ := accounts₅.of_grows h₁.steady.grows
    have accounts₃ := accounts₄.of_grows acquired.extends'.grows
    have accounts₂ := accounts₃.of_grows prepared.extends'.grows
    have name : Kept S τ L R depth s (.acts []) s₁ := named.kept (.hiddenName _)
      (accounts₂.of_grows declares.extends'.grows) ready.sound roomy
    have roomy₁ := roomy.steady named.extends'.steady
    have declare : Kept S τ L R depth s₁ (.acts declared) s₂ :=
      declares.kept (Disciplined.rules.declare _ _ _) accounts₂ name.sound roomy₁
    have roomy₂ := roomy₁.steady declares.extends'.steady
    have prepare : Kept S τ L R depth s₂ (.acts []) s₃ :=
      prepared.kept (.onStorage (.prepare _)) accounts₃ declare.sound roomy₂
    -- the handle may be a stack of this activation, and is written to only while that is known
    have writable := (writable_declare declares.run declares.clean accounts₂ roomy₁.body).mono
      (prepared.extends'.scopes.stacks_subset depth)
    have scopes : s₄.scopes = s₃.scopes := by
      obtain ⟨t, -, rfl⟩ := run_onStorage_ok.1 acquired.run
      rfl
    have acquire : Kept S τ L R depth s₃ (acquireCode first next full mark) s₄ :=
      .acquire acquires (writable.mono (List.subset_append_left _ R))
        (accounts₄.storage _ (ClassData.mem_locations_of_table stored))
        (prepare.sound.same scopes acquired.extends'.frames) scopes
    have steady₄ := named.extends'.steady.trans (declares.extends'.steady.trans
      (prepared.extends'.steady.trans acquired.extends'.steady))
    have ready₄ := ready.next roomy steady₄ acquire.sound
    have roomy₄ := roomy.steady steady₄
    have initials := k₁ τ L R depth accounts₅ (.of_none rfl rfl) ready₄ (Or.inr roomy₄)
    have built :=
      k₂.next accounts ⟨ready.tidy.constructor hconstructor, fun v h => by cases h⟩ ready₄
      roomy₄ h₁.steady initials
    exact name.before (declare.seq (prepare.before (acquire.seq built)))
  | @initials this _ _ _ _ _ _ list h closes k =>
    intro τ L R depth accounts _ ready _
    have accounts₁ := (Accounts.of_left accounts).of_grows closes.grows
    have inner := ready.entered (m := none) (r := none) (.of_reference "this" this)
      fun v h => by cases h
    have kept := k _ _ _ _ accounts₁ (.of_none rfl rfl) inner (Or.inr (.entered _ _ _))
    have whole := Kept.inScope (s := UnitState.entered _ _) rfl (Nat.le_refl _) kept h.steady closes
    exact .framed (closes.scopes h.steady.scopes) whole
  | fields_cons list h₁ e h₂ k₁ k₂ =>
    intro τ L R depth accounts _ ready room
    obtain ⟨_, ⟨⟩⟩ | roomy := room
    have accounts₂ := (accounts.of_grows h₂.steady.grows).withList
    have kept₁ := k₁ τ L R depth (accounts₂.of_grows e.extends'.grows) (.exprs _) ready
      (Or.inr roomy)
    have kept₂ := kept₁.after (e.kept (.onStorage (.fieldStack _)) accounts₂ kept₁.sound
      (roomy.steady h₁.steady))
    exact k₂.stored accounts (.of_none rfl rfl) ready roomy
      (h₁.steady.trans e.extends'.steady) kept₂
      (accounts₂.storage _ (run_fieldStack_location e.run))
  | statics_cons list h₁ e h₂ k₁ k₂ =>
    intro τ L R depth accounts _ ready room
    obtain ⟨_, ⟨⟩⟩ | roomy := room
    have accounts₂ := (accounts.of_grows h₂.steady.grows).withList
    have kept₁ := k₁ τ L R depth (accounts₂.of_grows e.extends'.grows) (.expr _) ready
      (Or.inr roomy)
    have kept₂ := kept₁.after (e.kept (.staticVar _ _) accounts₂ kept₁.sound
      (roomy.steady h₁.steady))
    exact k₂.stored accounts (.of_none rfl rfl) ready roomy
      (h₁.steady.trans e.extends'.steady) kept₂
      (accounts₂.storage _ (run_staticVar_location e.run))
  | @stmt _ _ _ _ s₁ h k =>
    intro τ L R depth accounts fits ready room
    obtain ⟨_, ⟨⟩⟩ | roomy := room
    have accounts₁ : Accounts S s₁ := accounts.of_grows (.elsewhere ..)
    have kept := k τ L R depth accounts₁ ⟨fits.tidy, fun v h => by cases h⟩
      ⟨ready.tidy, ⟨ready.sound.scopes, ready.sound.results⟩,
        ready.shaped.same ((UnitState.Steady.refl _).span _) rfl⟩ (Or.inr ⟨roomy.body, roomy.loops⟩)
    exact ⟨kept.code, kept.sound.scopes, kept.sound.results⟩
  | stmts_cons h₁ h₂ k₁ k₂ =>
    intro τ L R depth accounts fits ready room
    obtain ⟨_, ⟨⟩⟩ | roomy := room
    exact k₂.next accounts (fits.of_subset (List.subset_append_right _ _) rfl) ready roomy h₁.steady
      (k₁ τ L R depth (accounts.of_grows h₂.steady.grows)
        (fits.of_subset (List.subset_append_left _ _) rfl) ready (Or.inr roomy))
  | block h closes k =>
    intro τ L R depth accounts fits ready _
    have kept := k τ L R depth (accounts.of_grows closes.grows)
      (fits.of_subset (List.Subset.refl _) rfl) ready.opened (Or.inr (ready.shaped.roomy _))
    exact kept.inScope rfl ready.shaped.inside h.steady closes
  | define h e k =>
    intro τ L R depth accounts _ ready room
    obtain ⟨_, ⟨⟩⟩ | roomy := room
    have kept := k τ L R depth (accounts.of_grows e.extends'.grows) (.exprs _) ready (Or.inr roomy)
    exact kept.seq (e.kept (Disciplined.rules.declare _ _ _) accounts kept.sound
      (roomy.steady h.steady))
  | assign list h₁ h₂ e h₃ set k₁ k₂ k₃ =>
    intro τ L R depth accounts fits ready room
    obtain ⟨_, ⟨⟩⟩ | roomy := room
    have accounts₄ := accounts.withList
    have accounts₃ := accounts₄.of_grows h₃.steady.grows
    have accounts₂ := accounts₃.of_grows e.extends'.grows
    have kept₁ := k₁ τ L R depth (accounts₂.of_grows h₂.steady.grows) (.exprs _) ready
      (Or.inr roomy)
    have ready₁ := ready.next roomy h₁.steady kept₁.sound
    have roomy₁ := roomy.steady h₁.steady
    have kept₂ := k₂ τ L R depth accounts₂ (.exprs _) ready₁ (Or.inr roomy₁)
    have ready₂ := ready₁.next roomy₁ h₂.steady kept₂.sound
    have roomy₂ := roomy₁.steady h₂.steady
    have target := kept₂.after (e.kept (.resolveTarget _ _) accounts₃ kept₂.sound roomy₂)
    -- the value is lowered behind the target, and closes no scope that the target is found in
    have writable := writable_target e.run accounts₃ ready₂ fun name h => by
      subst h
      exact fits.tidy _ (Source.StmtKind.mem_kinds _) _ rfl
    have ready₃ := ready₂.next roomy₂ e.extends'.steady target.sound
    have roomy₃ := roomy₂.steady e.extends'.steady
    have kept₃ := k₃ τ L R depth accounts₄ (.expr _) ready₃ (Or.inr roomy₃)
    have later := writable.mono
      ((e.extends'.scopes.trans h₃.steady.scopes).reach_subset depth R)
    exact kept₁.seq (target.seq (kept₃.seq ((Kept.write kept₃.sound later set).withList list)))
  | assignActor list h₁ e h₂ h₃ set k₁ k₂ k₃ =>
    intro τ L R depth accounts fits ready room
    obtain ⟨_, ⟨⟩⟩ | roomy := room
    have accounts₃ := accounts.withList
    have accounts₂ := accounts₃.of_grows h₃.steady.grows
    have kept₁ := k₁ τ L R depth (accounts₂.of_grows h₂.steady.grows) (.exprs _) ready
      (Or.inr roomy)
    have ready₁ := ready.next roomy h₁.steady kept₁.sound
    have roomy₁ := roomy.steady h₁.steady
    have writable := writable_lookup (run_actorVar_ok e.run).2.1 ready₁.sound ready₁.shaped
      (fits.tidy _ (Source.StmtKind.mem_kinds _) _ rfl)
    have kept₂ := k₂ τ L R depth accounts₂ (.expr _) ready₁ (Or.inr roomy₁)
    have ready₂ := ready₁.next roomy₁ h₂.steady kept₂.sound
    have kept₃ := k₃ τ L R depth accounts₃ (.expr _) ready₂ (Or.inr (roomy₁.steady h₂.steady))
    have later := writable.mono ((h₂.steady.scopes.trans h₃.steady.scopes).reach_subset depth R)
    exact kept₁.seq (kept₂.seq (kept₃.seq ((Kept.write kept₃.sound later set).withList list)))
  | cond list h k =>
    intro τ L R depth accounts fits ready room
    obtain ⟨_, ⟨⟩⟩ | roomy := room
    exact (k τ L R depth accounts.withList (fits.of_subset Task.kinds_cond rfl) ready
      (Or.inr roomy)).withList list
  | «while» h k =>
    intro τ L R depth accounts fits ready room
    obtain ⟨_, ⟨⟩⟩ | roomy := room
    exact k τ L R depth accounts (fits.of_subset Task.kinds_while rfl) ready (Or.inr roomy)
  | «for» h₁ h₂ closes k₁ k₂ =>
    intro τ L R depth accounts fits ready room
    have accounts₂ := accounts.of_grows closes.grows
    have roomy := ready.shaped.roomy .empty
    have kept := k₁ τ L R depth (accounts₂.of_grows h₂.steady.grows)
      (fits.of_subset Task.kinds_start rfl) ready.opened (Or.inr roomy)
    have whole :=
      k₂.next accounts₂ (fits.of_subset Task.kinds_for rfl) ready.opened roomy h₁.steady kept
    exact (whole.inScope rfl ready.shaped.inside (h₁.steady.trans h₂.steady) closes).assoc
  | forEach list list' list'' h₁ e₁ e₂ zero h₂ closes next closes' k₁ k₂ =>
    exact .forEach list list' list'' h₁ e₁ e₂ zero h₂ closes next closes' k₁ k₂
  | «break» list skip found reached _ =>
    intro τ L R depth accounts _ ready room
    obtain ⟨type, Δ, here, leave, -, touched⟩ := touches_unwind found reached ready
    refine ⟨.seq (.acts touched) (.leave ?_), ready.sound.scopes, ready.sound.results⟩
    rw [Exit.stackPlaces, here, ← leave]
    rfl
  | «continue» list skip found reached _ =>
    intro τ L R depth accounts _ ready room
    obtain ⟨type, Δ, here, -, again, touched⟩ := touches_unwind found reached ready
    refine ⟨.seq (.acts touched) (.again ?_), ready.sound.scopes, ready.sound.results⟩
    rw [Exit.stackPlaces, here, ← again]
    rfl
  | @«return» _ _ _ _ _ frame _ list skip h found k =>
    intro τ L R depth accounts _ ready room
    obtain ⟨_, ⟨⟩⟩ | roomy := room
    have kept := k τ L R depth (accounts.of_grows (UnitState.Steady.addReturn found _ _).grows)
      (.exprs _) ready (Or.inr roomy)
    have ready₁ := ready.next roomy h.steady kept.sound
    -- a return pops the stacks of the frame, and the note of it changes nothing of the frame's
    -- result
    refine ⟨.seq kept.code (.seq (.acts (touches_return found ready₁)) .ret), kept.sound.scopes,
      fun f hf v hv => ?_⟩
    rcases List.mem_cons.1 hf with rfl | hf
    · exact kept.sound.results frame (found ▸ List.mem_cons_self ..) v hv
    · exact kept.sound.results f (found ▸ List.mem_cons_of_mem _ hf) v hv
  | delete h e k =>
    intro τ L R depth accounts _ ready room
    obtain ⟨_, ⟨⟩⟩ | roomy := room
    have kept := k τ L R depth (accounts.of_grows e.extends'.grows) (.expr _) ready (Or.inr roomy)
    exact kept.seq (e.kept (.deleteHandle _ _) accounts kept.sound (roomy.steady h.steady))
  | blockKind h k =>
    intro τ L R depth accounts fits ready room
    exact k τ L R depth accounts (fits.of_subset (List.subset_cons_self _ _) rfl) ready
      (Or.inl ⟨_, rfl⟩)
  | exprKind h k =>
    intro τ L R depth accounts _ ready room
    obtain ⟨_, ⟨⟩⟩ | roomy := room
    exact k τ L R depth accounts (.expr _) ready (Or.inr roomy)
  | arms_otherwise h k =>
    intro τ L R depth accounts fits ready room
    exact k τ L R depth accounts (fits.of_subset Task.kinds_otherwise rfl) ready (Or.inl ⟨_, rfl⟩)
  | @arms_last _ _ _ _ _ _ _ _ s₃ list list' h₁ closes h₂ k₁ k₂ =>
    intro τ L R depth accounts fits ready room
    have accounts₃ := accounts.withList
    have accounts₂ := accounts₃.of_grows h₂.steady.grows
    obtain ⟨condition, touched, same, steady, sound₂⟩ := k₁.condition h₁ closes accounts₂ ready
    obtain ⟨body, sound₃⟩ := k₂.atBlock h₂ accounts₃
      (fits.tidy.subset Task.kinds_arm) (ready.same steady same sound₂)
    refine ⟨.seq condition ?_, sound₃.scopes, sound₃.results⟩
    change Balanced S τ L R _ _ (stacksAbove s₃.scopes depth ++ R)
    rw [h₂.scopes_eq trivial, touched.nil_eq, ← same]
    exact .arm body
  | @arms_cons _ body rest otherwise _ _ _ _ _ _ _ s₃ _ _ list list' h₁ closes h₂ h₃ k₁ k₂ k₃ =>
    intro τ L R depth accounts fits ready room
    obtain ⟨_, ⟨⟩⟩ | roomy := room
    have accounts₃ := (accounts.of_grows h₃.steady.grows).withList
    have accounts₂ := accounts₃.of_grows h₂.steady.grows
    obtain ⟨condition, touched, same, steady, sound₂⟩ := k₁.condition h₁ closes accounts₂ ready
    obtain ⟨body, sound₃⟩ := k₂.atBlock h₂ accounts₃ (fits.tidy.subset Task.kinds_arm)
      (ready.same steady same sound₂)
    -- both ways leave the scopes of the arm closed, so both stand at the same stacks
    have same₃ := (h₂.scopes_eq trivial).trans same
    have steady₃ := steady.trans h₂.steady
    have others := k₃ τ L R depth accounts (fits.of_subset Task.kinds_arms rfl)
      ((ready.same steady₃ same₃ sound₃).withList list')
      (Or.inr ((roomy.steady steady₃).withList list'))
    have same₄ := (h₃.scopes_eq trivial).trans same₃
    have code := others.code
    refine ⟨.seq condition ?_, others.sound⟩
    change Balanced S τ L R (stacksAbove s₃.scopes depth ++ R) _ _ at code
    rw [same₃, same₄] at code
    rw [same] at body
    rw [same₄]
    exact .choice (.seq (.acts touched) body) (.seq (.acts touched) code)
  | loop list list' list'' list''' h₁ closes h₂ h₃ k₁ k₂ k₃ =>
    exact .loop list list' list'' list''' h₁ closes h₂ h₃ k₁ k₂ k₃

end

end SkipCode
