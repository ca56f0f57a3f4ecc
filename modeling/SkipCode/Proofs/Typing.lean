import SkipCode.Proofs.Discipline
import SkipCode.Proofs.Parts
import SkipCode.Proofs.StmtLayout

/-!
# Lowered code keeps the stack discipline

The stacks at a place of the code are read off the scopes that are open there: each has pushed what
its `exits` say. So the pops at the end of a scope, on the path round a body and on the way out of a
loop or a body agree by construction, and every derivation is `Balanced` (`Lowers.balanced`).

* `Accounts`: which places are stacks, as the finished unit tells them by its symbols;
* `UnitState.Sound`: what is open in a state refers to places of the right kind;
* `Shaped`: how the types of the code around a place are read off a state.
-/

namespace SkipCode

open Lower
open Source (AssignOp Branch Expr Place Stmt StmtKind)

/-! ## Places -/

def IndexedVar.location (v : IndexedVar) : Location := ⟨v.pool, v.slot⟩

def RecursiveVar.location (v : RecursiveVar) : Location := v.stack.location

def Symbol.location (sym : Symbol) : Location := ⟨sym.pool, sym.slot⟩

/-- The places of the storage of instances. -/
def ClassData.locations (d : ClassData) : List Location :=
  (d.table.toList ++ d.fieldStacks ++ d.statics.map (·.2)).map IndexedVar.location

/-! ## Names of lowering's own making -/

/-- Two underscores, one of some words, and a number. -/
def MadeUp (words : List String) (name : String) : Prop :=
  ∃ word ∈ words, ∃ n : Nat, name = s!"__{word}{n}"

/-- With more words there are more such names. -/
theorem MadeUp.mono {words words' : List String} {name : String} (h : MadeUp words name)
    (sub : words ⊆ words') : MadeUp words' name := by
  obtain ⟨word, mem, n, e⟩ := h
  exact ⟨word, sub mem, n, e⟩

/-- The number is written in decimal digits behind the word. -/
theorem toList_numbered (word : String) (n : Nat) :
    s!"__{word}{n}".toList = "__".toList ++ word.toList ++ Nat.toDigits 10 n := by
  simp [toString, Nat.toList_repr]

/-- The number can be read off the name. -/
theorem exists_numbered_iff {word name : String} : (∃ n : Nat, name = s!"__{word}{n}") ↔
    name.toList = "__".toList ++ word.toList ++
      Nat.toDigits 10 (Nat.ofDigitChars 10 (name.toList.drop (2 + word.toList.length)) 0) := by
  constructor
  · rintro ⟨n, rfl⟩
    have digits : (s!"__{word}{n}".toList.drop (2 + word.toList.length)) = Nat.toDigits 10 n := by
      have length : ("__".toList ++ word.toList).length = 2 + word.toList.length :=
        List.length_append
      rw [toList_numbered]
      exact List.drop_left' length
    rw [digits, Nat.ofDigitChars_toDigits (by decide) (by decide)]
    exact toList_numbered word n
  · intro e
    exact ⟨_, String.toList_inj.1 (e.trans (toList_numbered word _).symm)⟩

instance (words : List String) (name : String) : Decidable (MadeUp words name) :=
  decidable_of_iff (∃ word ∈ words, name.toList = "__".toList ++ word.toList ++
      Nat.toDigits 10 (Nat.ofDigitChars 10 (name.toList.drop (2 + word.toList.length)) 0))
    (by simp only [MadeUp, exists_numbered_iff])

/-- What lowering binds variables for that the source has not declared. -/
def variableWords : List String := ["new", "delete", "index", "result", "ret_addr"]

/-- What it keeps in slots without a name in any scope. -/
def temporaryWords : List String := ["arg", "this", "ret", "addr"]

/-- The names under which lowering binds variables that the source has not declared. -/
def Generated (name : String) : Prop := MadeUp variableWords name

/-- All the names that lowering makes up. -/
def Hidden (name : String) : Prop := MadeUp (variableWords ++ temporaryWords) name

instance (name : String) : Decidable (Hidden name) :=
  inferInstanceAs (Decidable (MadeUp (variableWords ++ temporaryWords) name))

/-- A variable of lowering's own has a made-up name. -/
theorem Generated.hidden {name : String} (generated : Generated name) : Hidden name :=
  generated.mono (List.subset_append_left _ _)

/-- Any number behind a word for a variable makes such a name. -/
theorem hidden_numbered {word : String} (known : word ∈ variableWords) (n : Nat) :
    Hidden s!"__{word}{n}" :=
  Generated.hidden ⟨word, known, n, rfl⟩

/-! ## Stacks -/

variable {S : Location → Prop}

/-- A unit tells by its symbols which places are stacks. No two symbols share a place, and none is
in the storage of instances. -/
structure Accounts (S : Location → Prop) (s : UnitState) : Prop where
  symbols : ∀ sym ∈ s.symbols, S sym.location ↔ sym.stacked = true
  distinct : (s.symbols.map Symbol.location).Nodup
  storage : ∀ l ∈ s.session.classData.locations, ¬ S l

/-- The places of the storage stay places of it. -/
theorem ClassData.Grows.locations {a b : ClassData} (h : a.Grows b) :
    ∀ l ∈ a.locations, l ∈ b.locations := by
  intro l hl
  obtain ⟨v, hv, rfl⟩ := List.mem_map.1 hl
  refine List.mem_map.2 ⟨v, ?_, rfl⟩
  rcases List.mem_append.1 hv with hv | hv
  · rcases List.mem_append.1 hv with hv | hv
    · refine List.mem_append_left _ (List.mem_append_left _ ?_)
      rw [Option.mem_toList] at hv ⊢
      exact h.table v hv
    · exact List.mem_append_left _ (List.mem_append_right _ (h.fieldStacks.subset hv))
  · exact List.mem_append_right _ ((h.statics.map _).subset hv)

/-- What is known of the places in the end is known earlier. -/
theorem Accounts.of_grows {s t : UnitState} (h : Accounts S t) (grows : s.Grows t) :
    Accounts S s := by
  refine ⟨fun sym hs => h.symbols sym (grows.symbols.subset hs), ?_,
    fun l hl => h.storage l (grows.session.classData.locations l hl)⟩
  exact h.distinct.sublist (grows.symbols.sublist.map _)

/-! ## The stacks of scopes -/

/-- The stacks that a scope has pushed, the latest first. -/
def Scope.stackPlaces (scope : Scope) : List Location := scope.exits.map RecursiveVar.location

/-- What the scopes from `depth` up have pushed; scopes are counted from the outermost. -/
def stacksAbove (scopes : List Scope) (depth : Nat) : List Location :=
  (scopes.take (scopes.length - depth)).flatMap Scope.stackPlaces

/-- The outermost scopes, `depth` of them. -/
def outerScopes (scopes : List Scope) (depth : Nat) : List Scope :=
  scopes.drop (scopes.length - depth)

section

variable {scope scope' : Scope} {scopes rest : List Scope} {depth low : Nat}

/-- A scope more has its stacks on top. -/
theorem stacksAbove_cons (h : depth ≤ rest.length) :
    stacksAbove (scope :: rest) depth = scope.stackPlaces ++ stacksAbove rest depth := by
  rw [stacksAbove, List.length_cons, Nat.sub_add_comm h, List.take_succ_cons, List.flatMap_cons]
  rfl

/-- There are none above the innermost scope. -/
@[simp] theorem stacksAbove_length (scopes : List Scope) :
    stacksAbove scopes scopes.length = [] := by
  simp [stacksAbove]

/-- Below a scope there are as many as its depth says. -/
theorem length_outerScopes (h : depth ≤ scopes.length) :
    (outerScopes scopes depth).length = depth := by
  rw [outerScopes, List.length_drop]
  omega

/-- A scope more is not below the others. -/
theorem outerScopes_cons (h : depth ≤ rest.length) :
    outerScopes (scope :: rest) depth = outerScopes rest depth := by
  rw [outerScopes, List.length_cons, Nat.sub_add_comm h, List.drop_succ_cons]
  rfl

/-- All scopes are below the innermost place. -/
@[simp] theorem outerScopes_length (scopes : List Scope) :
    outerScopes scopes scopes.length = scopes := by
  simp [outerScopes]

/-- What was pushed since a body began is what was pushed since a place inside it, on top of what
was pushed until there. -/
theorem stacksAbove_split (h : low ≤ depth) (inside : depth ≤ scopes.length) :
    stacksAbove scopes low =
      stacksAbove scopes depth ++ stacksAbove (outerScopes scopes depth) low := by
  rw [stacksAbove, stacksAbove, stacksAbove, length_outerScopes inside, ← List.flatMap_append,
    outerScopes]
  congr 1
  rw [show scopes.length - low = (scopes.length - depth) + (depth - low) by omega, List.take_add]

end

/-! ## Sound states -/

/-- A stack that is in the slot of its variable. -/
def RecursiveVar.Sound (S : Location → Prop) (v : RecursiveVar) : Prop :=
  v.stack.path = [] ∧ S v.location

/-- What a scope declares is of the right kind; its stacks are among those it pushed. -/
structure Scope.Sound (S : Location → Prop) (scope : Scope) : Prop where
  exits : ∀ v ∈ scope.exits, v.Sound S
  indexed : ∀ name v, (name, .indexed v) ∈ scope.bindings → ¬ S v.location
  recursive : ∀ name v, (name, .recursive v) ∈ scope.bindings → v ∈ scope.exits

structure UnitState.Sound (S : Location → Prop) (s : UnitState) : Prop where
  scopes : ∀ scope ∈ s.scopes, scope.Sound S
  results : ∀ frame ∈ s.frames, ∀ v, frame.result = some v → ¬ S v.location

/-- A region and the type of its routine. -/
structure RegionTyped (S : Location → Prop) (region : Region) (type : RoutineType) : Prop where
  params : type.params = (region.this.toList ++ region.params.reverse).map RecursiveVar.location
  ret : type.ret = region.returnAddress.location
  stackPlaces : ∀ v ∈ region.returnAddress :: (region.this.toList ++ region.params), v.Sound S
  temps : ∀ v ∈ region.argumentTemps ++ region.thisTemp.toList, ¬ S v.location
  arguments : region.params.length ≤ region.argumentTemps.length
  this : region.this.isSome = region.thisTemp.isSome

/-- What a body finds below its own scopes: nothing that it sees, or the parameters of its region
and their scope, which binds the return address under its made-up name. -/
def BodyShape (R : List Location) (scopes : List Scope) (frame : Frame) : Prop :=
  frame.lookupFloor = frame.scopeDepth ∧ R = [] ∨
    frame.lookupFloor + 1 = frame.scopeDepth ∧
      ∃ scope rest name ret others, outerScopes scopes frame.scopeDepth = scope :: rest ∧
        scope.bindings = (name, .recursive ret) :: others ∧ MadeUp ["ret_addr"] name ∧
        ∀ n v, (n, v) ∈ others → ∃ w, v = .recursive w ∧ w.location ∈ R

/-- A loop and the type of the places where its exits lead. -/
structure LoopShape (R : List Location) (scopes : List Scope) (depth : Nat) (loop : LoopFrame)
    (type : LoopType) : Prop where
  low : depth ≤ loop.scopeDepth
  high : loop.scopeDepth ≤ scopes.length
  leave : type.leave = stacksAbove (outerScopes scopes loop.scopeDepth) depth ++ R
  again : type.again = stacksAbove (outerScopes scopes loop.scopeDepth) depth ++ R

/-- The types of the code around a place: of the open regions, of the loops of the innermost body,
and of its end. `depth` is where the scopes of the body begin. -/
structure Shaped (S : Location → Prop) (τ : List RoutineType) (L : List LoopType)
    (R : List Location) (depth : Nat) (s : UnitState) : Prop where
  inside : depth ≤ s.scopes.length
  body : ∃ frame frames, s.frames = frame :: frames ∧ frame.scopeDepth = depth ∧
    frame.loopFloor + L.length = s.loops.depth ∧ BodyShape R s.scopes frame
  loops : List.Forall₂ (LoopShape R s.scopes depth) (s.loops.frames.take L.length) L
  regions : List.Forall₂ (RegionTyped S) s.regions τ

/-- A scope is open that is younger than the body and its loops. -/
structure Roomy (L : List LoopType) (depth : Nat) (s : UnitState) : Prop where
  body : depth < s.scopes.length
  loops : ∀ loop ∈ s.loops.frames.take L.length, loop.scopeDepth < s.scopes.length

/-! ## How the types go on -/

section

variable {τ : List RoutineType} {L : List LoopType} {R : List Location} {depth : Nat}
  {s t : UnitState}

/-- What is below a place stays when scopes above it grow. -/
theorem outerScopes_grow {a b : List Scope} (h : ScopesGrow a b) (lt : depth < a.length) :
    outerScopes b depth = outerScopes a depth := by
  cases h with
  | nil => rfl
  | cons _ =>
    have le : depth ≤ _ := Nat.lt_succ_iff.1 lt
    rw [outerScopes_cons le, outerScopes_cons le]

/-- A region keeps its type when calls are noted in it. -/
theorem RegionTyped.grow {a b : Region} {type : RoutineType} (h : RegionTyped S a type)
    (grows : a.Grows b) : RegionTyped S b type := by
  rw [grows.same]
  exact ⟨h.params, h.ret, h.stackPlaces, h.temps, h.arguments, h.this⟩

/-- What is related in two steps is related by what follows from both. -/
theorem forall₂_comp {α β : Type} {Q : α → α → Prop} {P P' : α → β → Prop} {a b : List α}
    {c : List β} (h : List.Forall₂ P a c) (g : List.Forall₂ Q a b)
    (imp : ∀ x ∈ a, ∀ y z, P x z → Q x y → P' y z) : List.Forall₂ P' b c := by
  induction h generalizing b with
  | nil =>
    cases g
    exact .nil
  | cons hx _ ih =>
    cases g with
    | cons gx gs =>
      exact .cons (imp _ (List.mem_cons_self ..) _ _ hx gx)
        (ih gs fun x hx => imp x (List.mem_cons_of_mem _ hx))

/-- Types stay what they are as long as the scopes stay that they were read off. -/
theorem Shaped.keep (shaped : Shaped S τ L R depth s) (steady : s.Steady t)
    (body : outerScopes t.scopes depth = outerScopes s.scopes depth)
    (loops : ∀ loop ∈ s.loops.frames.take L.length,
      outerScopes t.scopes loop.scopeDepth = outerScopes s.scopes loop.scopeDepth) :
    Shaped S τ L R depth t := by
  -- the frames, loops and regions are the same ones, and count the scopes from the same places
  have len := steady.scopes.length_eq
  obtain ⟨frame, frames, found, start, floor, shape⟩ := shaped.body
  refine ⟨len ▸ shaped.inside, ?_, ?_, ?_⟩
  · have grows := steady.frames
    rw [found] at grows
    obtain ⟨frame', frames', h, -, e⟩ := List.forall₂_cons_left_iff.1 grows
    rw [Frame.Grows] at h
    refine ⟨frame', frames', e, by rw [h, start], ?_, ?_⟩
    · rw [h]
      exact floor.trans steady.loops.length_eq
    · rw [h]
      rcases shape with ⟨e, none⟩ | ⟨e, scope, rest, name, ret, others, outer, binds⟩
      · exact Or.inl ⟨e, none⟩
      · refine Or.inr ⟨e, scope, rest, name, ret, others, ?_, binds⟩
        rw [← outer]
        simp only [start]
        exact body
  · refine forall₂_comp shaped.loops (List.forall₂_take L.length steady.loops) ?_
    intro loop mem loop' type shape grows
    refine ⟨?_, ?_, ?_, ?_⟩
    · rw [grows.scopeDepth]
      exact shape.low
    · rw [grows.scopeDepth, len]
      exact shape.high
    · rw [grows.scopeDepth, loops loop mem]
      exact shape.leave
    · rw [grows.scopeDepth, loops loop mem]
      exact shape.again
  · exact forall₂_comp shaped.regions steady.regions fun _ _ _ _ h grows => h.grow grows

/-- Inside a scope of a body the types go on to hold. -/
theorem Shaped.steady (shaped : Shaped S τ L R depth s) (roomy : Roomy L depth s)
    (steady : s.Steady t) : Shaped S τ L R depth t :=
  shaped.keep steady (outerScopes_grow steady.scopes roomy.body) fun loop mem =>
    outerScopes_grow steady.scopes (roomy.loops loop mem)

/-- Where the scopes are the same they go on to hold anywhere. -/
theorem Shaped.same (shaped : Shaped S τ L R depth s) (steady : s.Steady t)
    (same : t.scopes = s.scopes) : Shaped S τ L R depth t := by
  refine shaped.keep steady ?_ fun loop mem => ?_ <;> rw [same]

/-- A place with room above it keeps that. -/
theorem Roomy.steady (roomy : Roomy L depth s) (steady : s.Steady t) : Roomy L depth t := by
  have len := steady.scopes.length_eq
  refine ⟨by rw [len]; exact roomy.body, fun loop mem => ?_⟩
  have grows := List.forall₂_take L.length steady.loops
  obtain ⟨i, hi, rfl⟩ := List.getElem_of_mem mem
  have hi' : i < (s.loops.frames.take L.length).length := by
    rw [grows.length_eq]
    exact hi
  have := (List.forall₂_iff_get.1 grows).2 i hi' hi
  rw [List.get_eq_getElem, List.get_eq_getElem] at this
  rw [this.scopeDepth, len]
  exact roomy.loops _ (List.getElem_mem hi')

/-- Another scope is opened. -/
theorem Shaped.opened (shaped : Shaped S τ L R depth s) (scope : Scope) :
    Shaped S τ L R depth { s with scopes := scope :: s.scopes } := by
  obtain ⟨frame, frames, found, start, floor, shape⟩ := shaped.body
  refine ⟨Nat.le_succ_of_le shaped.inside, ⟨frame, frames, found, start, floor, ?_⟩, ?_,
    shaped.regions⟩
  · rcases shape with ⟨e, none⟩ | ⟨e, outer, rest⟩
    · exact Or.inl ⟨e, none⟩
    · rw [BodyShape, outerScopes_cons (by rw [start]; exact shaped.inside)]
      exact Or.inr ⟨e, outer, rest⟩
  · refine shaped.loops.imp fun loop type h => ⟨h.low, Nat.le_succ_of_le h.high, ?_, ?_⟩
    · rw [outerScopes_cons h.high]
      exact h.leave
    · rw [outerScopes_cons h.high]
      exact h.again

/-- A scope that is opened makes room. -/
theorem Shaped.roomy (shaped : Shaped S τ L R depth s) (scope : Scope) :
    Roomy L depth { s with scopes := scope :: s.scopes } := by
  refine ⟨Nat.lt_succ_of_le shaped.inside, fun loop mem => ?_⟩
  obtain ⟨i, hi, rfl⟩ := List.getElem_of_mem mem
  have hi' : i < L.length := by
    rw [← shaped.loops.length_eq]
    exact hi
  have := (List.forall₂_iff_get.1 shaped.loops).2 i hi hi'
  exact Nat.lt_succ_of_le this.high

/-- A body is entered that sees nothing of its caller. -/
theorem Shaped.entered (shaped : Shaped S τ L R depth s) (scope : Scope) (method : Option String)
    (result : Option IndexedVar) :
    Shaped S τ [] [] s.scopes.length
      (({ s with scopes := scope :: s.scopes } : UnitState).entered (s.expanded method result)) :=
  ⟨Nat.le_succ _, ⟨_, _, rfl, rfl, rfl, Or.inl ⟨rfl, rfl⟩⟩, .nil, shaped.regions⟩

/-- A loop is opened. -/
theorem Shaped.looping (shaped : Shaped S τ L R depth s) (list : ActionList)
    (ended : List Location) :
    Shaped S τ (⟨ended, stacksAbove s.scopes depth ++ R, stacksAbove s.scopes depth ++ R⟩ :: L) R
      depth (s.looping list) := by
  obtain ⟨frame, frames, found, start, floor, shape⟩ := shaped.body
  refine ⟨shaped.inside, ⟨frame, frames, found, start, ?_, shape⟩, ?_, shaped.regions⟩
  · change frame.loopFloor + (L.length + 1) = s.loops.depth + 1
    omega
  · refine .cons ⟨shaped.inside, Nat.le_refl _, ?_, ?_⟩ shaped.loops
    · change _ = stacksAbove (outerScopes s.scopes s.scopes.length) depth ++ R
      rw [outerScopes_length]
    · change _ = stacksAbove (outerScopes s.scopes s.scopes.length) depth ++ R
      rw [outerScopes_length]

end

/-! ## Writes of variables -/

/-- More stacks below do not matter. -/
theorem Touches.onto {a : Action} {Δ Δ' : List Location} (h : Touches S a Δ Δ')
    (R : List Location) : Touches S a (Δ ++ R) (Δ' ++ R) := by
  cases h with
  | plain no => exact .plain no
  | push hl => exact .push hl
  | pop hl => exact .pop hl
  | setTop mem => exact .setTop (List.mem_append_left _ mem)

/-- What lies below the stacks that are touched does not matter. -/
theorem TouchesAll.onto {actions : List Action} {Δ Δ' : List Location}
    (h : TouchesAll S actions Δ Δ') (R : List Location) :
    TouchesAll S actions (Δ ++ R) (Δ' ++ R) := by
  induction h with
  | nil => exact .nil
  | cons one _ ih => exact .cons (one.onto R) ih

/-- The store of a variable is in its pool. -/
theorem IndexedVar.store_pool (v : IndexedVar) (actor : Option Element) :
    (v.store actor).pool = v.pool := by
  unfold IndexedVar.store
  cases v.pool <;> rfl

/-- A plain write touches no stack. -/
theorem touches_indexed {v : IndexedVar} (no : ¬ S v.location) (value : Element)
    (actor : Option Element) (extra : List Element) (Δ : List Location) :
    TouchesAll S (v.set value actor extra) Δ Δ := by
  unfold IndexedVar.set
  split <;>
  · refine .cons (.plain ?_) .nil
    rw [IndexedVar.store_pool]
    exact no

/-- A push on a stack is one action. -/
theorem RecursiveVar.Sound.push_eq {v : RecursiveVar} (sound : v.Sound S) (x : Element) :
    v.pushActions x none = [v.location.push x] := by
  obtain ⟨⟨name, pool, slot, path⟩, count⟩ := v
  obtain rfl : path = [] := sound.1
  rfl

/-- So is a pop. -/
theorem RecursiveVar.Sound.pop_eq {v : RecursiveVar} (sound : v.Sound S) :
    v.popActions none = [v.location.pop] := by
  obtain ⟨⟨name, pool, slot, path⟩, count⟩ := v
  obtain rfl : path = [] := sound.1
  rfl

/-- A write to a stack is one to its top. -/
theorem RecursiveVar.Sound.set_eq {v : RecursiveVar} (sound : v.Sound S) (x : Element)
    (actor : Option Element) (extra : List Element) :
    ∃ y, v.set x actor extra = [v.location.setTop actor y] := by
  obtain ⟨⟨name, pool, slot, path⟩, count⟩ := v
  obtain rfl : path = [] := sound.1
  exact ⟨_, rfl⟩

/-- What a stack is read as is its top. -/
theorem RecursiveVar.Sound.get_eq {v : RecursiveVar} (sound : v.Sound S)
    (actor : Option Element) : v.get actor = .lastOf (v.location.root actor) := by
  obtain ⟨⟨name, pool, slot, path⟩, count⟩ := v
  obtain rfl : path = [] := sound.1
  rfl

/-- The stacks of a scope are popped one by one. -/
theorem pops_eq {exits : List RecursiveVar} (sound : ∀ v ∈ exits, v.Sound S) :
    (exits.flatMap fun v => v.popActions none) =
      (exits.map RecursiveVar.location).map Location.pop := by
  induction exits with
  | nil => rfl
  | cons v rest ih =>
    rw [List.flatMap_cons, (sound v (List.mem_cons_self ..)).pop_eq,
      ih fun v hv => sound v (List.mem_cons_of_mem _ hv)]
    rfl

/-- That takes them off what is there. -/
theorem touches_pops {exits : List RecursiveVar} (sound : ∀ v ∈ exits, v.Sound S)
    (Δ : List Location) :
    TouchesAll S (exits.flatMap fun v => v.popActions none)
      (exits.map RecursiveVar.location ++ Δ) Δ := by
  rw [pops_eq sound]
  refine touchesAll_pops (fun l hl => ?_) Δ
  obtain ⟨v, hv, rfl⟩ := List.mem_map.1 hl
  exact (sound v hv).2

/-- The pops on the way out of the scopes from `depth` up. -/
theorem pendingPops_eq {s : UnitState} (sound : s.Sound S) (depth : Nat) :
    pendingPops s depth = (stacksAbove s.scopes depth).map Location.pop := by
  have e : pendingPops s depth = ((s.scopesFrom depth).flatMap Scope.exits).flatMap
      fun v => v.popActions none := by
    rw [List.flatMap_assoc]
    rfl
  have e' : stacksAbove s.scopes depth =
      ((s.scopesFrom depth).flatMap Scope.exits).map RecursiveVar.location := by
    rw [List.map_flatMap]
    rfl
  rw [e, e']
  refine pops_eq (S := S) fun v hv => ?_
  obtain ⟨scope, hscope, hv⟩ := List.mem_flatMap.1 hv
  exact (sound.scopes scope (List.mem_of_mem_take hscope)).exits v hv

/-- On the way out of a body all stacks above the place are taken off. -/
theorem touches_pendingPops {s : UnitState} (sound : s.Sound S) (depth : Nat)
    (Δ : List Location) :
    TouchesAll S (pendingPops s depth) (stacksAbove s.scopes depth ++ Δ) Δ := by
  rw [pendingPops_eq sound]
  refine touchesAll_pops (fun l hl => ?_) Δ
  obtain ⟨scope, hscope, hl⟩ := List.mem_flatMap.1 hl
  obtain ⟨v, hv, rfl⟩ := List.mem_map.1 hl
  exact ((sound.scopes scope (List.mem_of_mem_take hscope)).exits v hv).2

/-! ## Plain steps -/

/-- A plain step that pushes what it notes in the innermost scope and touches no other stack. -/
structure Disciplined {α : Type} (S : Location → Prop) (m : Lower α) : Prop where
  plain : Plain m
  typed : ∀ s a s' depth, run m s = some (.ok a, s') → s'.deferred = [] → Accounts S s' →
    depth < s.scopes.length → s.Sound S →
    ∃ actions, Extends s actions s' ∧
      TouchesAll S actions (stacksAbove s.scopes depth) (stacksAbove s'.scopes depth) ∧ s'.Sound S

/-- What a slot is taken for keeps a state sound. -/
theorem Lower.Takes.sound {s s' : UnitState} {name : String} {stacked : Bool} {slot : UInt32}
    {bindings : List (String × Variable)} {exits : List RecursiveVar} {actions : List Action}
    {hidden : Nat} (h : Takes s name stacked slot bindings exits actions hidden s')
    (sound : s.Sound S) (pushed : ∀ v ∈ exits, v.Sound S)
    (indexed : ∀ name v, (name, .indexed v) ∈ bindings → ¬ S v.location)
    (recursive : ∀ name v, (name, .recursive v) ∈ bindings → v ∈ exits) : s'.Sound S := by
  obtain ⟨p, scope, rest, -, e, rfl⟩ := h.taken
  refine ⟨fun scope' mem => ?_, sound.results⟩
  have old (x : Scope) (hx : x ∈ scope :: rest) : x.Sound S := sound.scopes x (e ▸ hx)
  rcases List.mem_cons.1 mem with rfl | mem
  · have head := old scope (List.mem_cons_self ..)
    refine ⟨fun v hv => ?_, fun n v hv => ?_, fun n v hv => ?_⟩
    · exact (List.mem_append.1 hv).elim (pushed v) (head.exits v)
    · exact (List.mem_append.1 hv).elim (indexed n v) (head.indexed n v)
    · exact (List.mem_append.1 hv).elim (fun hv => List.mem_append_left _ (recursive n v hv))
        fun hv => List.mem_append_right _ (head.recursive n v hv)
  · exact old scope' (List.mem_cons_of_mem _ mem)

/-- It puts its stacks on top. -/
theorem Lower.Takes.stackPlaces {s s' : UnitState} {name : String} {stacked : Bool} {slot : UInt32}
    {bindings : List (String × Variable)} {exits : List RecursiveVar} {actions : List Action}
    {hidden depth : Nat} (h : Takes s name stacked slot bindings exits actions hidden s')
    (inside : depth < s.scopes.length) :
    stacksAbove s'.scopes depth =
      exits.map RecursiveVar.location ++ stacksAbove s.scopes depth := by
  obtain ⟨p, scope, rest, -, e, rfl⟩ := h.taken
  rw [e] at inside ⊢
  have le : depth ≤ rest.length := Nat.lt_succ_iff.1 inside
  rw [stacksAbove_cons le, stacksAbove_cons le, Scope.stackPlaces, Scope.stackPlaces,
    List.map_append,
    List.append_assoc]

/-- It is among the symbols. -/
theorem Lower.Takes.symbol_mem {s s' : UnitState} {name : String} {stacked : Bool} {slot : UInt32}
    {bindings : List (String × Variable)} {exits : List RecursiveVar} {actions : List Action}
    {hidden : Nat} (h : Takes s name stacked slot bindings exits actions hidden s') :
    symbolOf s name slot stacked ∈ s'.symbols := by
  obtain ⟨p, scope, rest, -, -, rfl⟩ := h.taken
  exact List.mem_cons_self ..

/-- The place of a slot that was taken is a stack when it was taken for one. -/
theorem Lower.Takes.kind {s s' : UnitState} {name : String} {stacked : Bool} {slot : UInt32}
    {bindings : List (String × Variable)} {exits : List RecursiveVar} {actions : List Action}
    {hidden : Nat} (h : Takes s name stacked slot bindings exits actions hidden s')
    (accounts : Accounts S s') : S ⟨s.pool, slot⟩ ↔ stacked = true :=
  accounts.symbols _ h.symbol_mem

namespace Disciplined

variable {α β : Type}

theorem pure (a : α) : Disciplined S (Pure.pure a : Lower α) := by
  refine ⟨.pure a, fun s b s' depth h _ _ _ sound => ?_⟩
  cases h
  exact ⟨[], .refl s, .nil, sound⟩

/-- Disciplined steps one behind the other are disciplined. -/
theorem bind {m : Lower α} {f : α → Lower β} (hm : Disciplined S m)
    (hf : ∀ a, Disciplined S (f a)) : Disciplined S (m >>= f) := by
  refine ⟨hm.plain.bind fun a => (hf a).plain, fun s b s' depth h clean accounts inside sound => ?_⟩
  obtain ⟨a, u, h₁, h₂⟩ := run_bind_ok.1 h
  obtain ⟨_, e₂⟩ := (hf a).plain u b s' h₂
  obtain ⟨first, e₁, t₁, sound₁⟩ := hm.typed s a u depth h₁ (e₂.deferred clean)
    (accounts.of_grows e₂.grows) inside sound
  obtain ⟨second, e₂, t₂, sound₂⟩ := (hf a).typed u b s' depth h₂ clean accounts
    (by rw [e₁.scopes.length_eq]; exact inside) sound₁
  exact ⟨first ++ second, e₁.trans e₂, t₁.append t₂, sound₂⟩

/-- A step that changes neither the scopes nor the list. -/
theorem quiet {m : Lower α} (silent : Silent m)
    (same : ∀ s a s', run m s = some (.ok a, s') → s'.scopes = s.scopes) : Disciplined S m := by
  refine ⟨fun s a s' h => ⟨[], silent s a s' h⟩, fun s a s' depth h _ _ _ sound => ?_⟩
  have e := silent s a s' h
  have scopes := same s a s' h
  refine ⟨[], e, ?_, ?_⟩
  · rw [scopes]
    exact .nil
  · refine ⟨?_, ?_⟩
    · rw [scopes]
      exact sound.scopes
    · rw [e.frames]
      exact sound.results

theorem get : Disciplined S (MonadState.get : Lower UnitState) :=
  quiet .get fun s a s' h => by
    cases h
    rfl

theorem hiddenName (what : String) : Disciplined S (Lower.hiddenName what) :=
  quiet (.hiddenName what) fun s a s' h => by
    rw [run_hiddenName] at h
    cases h
    rfl

/-- A stack that is declared pushes its first value, and is then on top. -/
theorem declareStack (name : String) (initial : Option Element) :
    Disciplined S (Lower.declareStack name initial) := by
  refine ⟨.declareStack name initial, fun s v s' depth h clean accounts inside sound => ?_⟩
  obtain ⟨slot, rfl, takes⟩ := run_declareStack_ok h clean
  have stack : RecursiveVar.Sound S ⟨.plain name s.pool slot, 1⟩ :=
    ⟨rfl, (takes.kind accounts).2 rfl⟩
  refine ⟨_, takes.extends (settled_push _ _ _) (Nat.le_refl _), ?_, takes.sound sound ?_ ?_ ?_⟩
  · rw [takes.stackPlaces inside]
    exact .cons (.push stack.2) .nil
  · intro v hv
    rw [List.mem_singleton.1 hv]
    exact stack
  · intro n v hv
    cases List.mem_singleton.1 hv
  · intro n v hv
    cases List.mem_singleton.1 hv
    exact List.mem_singleton_self _

/-- A plain variable is on no stack. -/
theorem declarePlain (name : String) (initial : Option Element) :
    Disciplined S (Lower.declarePlain name initial) := by
  refine ⟨.declarePlain name initial, fun s v s' depth h clean accounts inside sound => ?_⟩
  obtain ⟨slot, rfl, takes⟩ := run_declarePlain_ok h clean
  have no : ¬ S (IndexedVar.plain name s.pool slot).location := by
    intro yes
    cases (takes.kind accounts).1 yes
  refine ⟨_, takes.extends (.flatMap (fun _ => settled_set _ _ _ _) _) (Nat.le_refl _), ?_,
    takes.sound sound ?_ ?_ ?_⟩
  · rw [takes.stackPlaces inside]
    cases initial with
    | none => exact .nil
    | some x => simpa using touches_indexed no x none [] (stacksAbove s.scopes depth)
  · intro v hv
    cases hv
  · intro n v hv
    cases List.mem_singleton.1 hv
    exact no
  · intro n v hv
    cases List.mem_singleton.1 hv

/-- What is bound by reference is written nowhere. -/
theorem bindReference (name : String) (e : Element) :
    Disciplined S (Lower.bind name (.reference e)) := by
  refine ⟨.bindName _ _, fun s v s' depth h _ _ inside sound => ?_⟩
  obtain ⟨scope, rest, hs, rfl⟩ := run_modifyScope_ok.1 h
  have le : depth ≤ rest.length := by
    rw [hs] at inside
    exact Nat.lt_succ_iff.1 inside
  have old (x : Scope) (hx : x ∈ scope :: rest) : x.Sound S := sound.scopes x (hs ▸ hx)
  obtain ⟨actions, extends'⟩ := Plain.bindName name (.reference e) s v _ h
  -- a binding writes no code
  obtain rfl : actions = [] := by
    have := extends'.list
    simpa using this
  refine ⟨[], extends', ?_, ?_, sound.results⟩
  · simp only [hs]
    rw [stacksAbove_cons le, stacksAbove_cons le]
    exact .nil
  · intro scope' mem
    rcases List.mem_cons.1 mem with rfl | mem
    · have head := old scope (List.mem_cons_self ..)
      refine ⟨head.exits, fun n v hv => ?_, fun n v hv => ?_⟩
      · rcases List.mem_cons.1 hv with hv | hv
        · cases hv
        · exact head.indexed n v hv
      · rcases List.mem_cons.1 hv with hv | hv
        · cases hv
        · exact head.recursive n v hv
    · exact old scope' (List.mem_cons_of_mem _ mem)

/-- A temporary is on no stack. -/
theorem temp (what : String) : Disciplined S (Lower.temp what) := by
  refine ⟨.temp what, fun s v s' depth h clean accounts inside sound => ?_⟩
  obtain ⟨slot, rfl, takes⟩ := run_temp_ok h clean
  refine ⟨_, takes.extends .nil (Nat.le_succ _), ?_, takes.sound sound ?_ ?_ ?_⟩
  · rw [takes.stackPlaces inside]
    exact .nil
  · intro v hv
    cases hv
  · intro n v hv
    cases hv
  · intro n v hv
    cases hv

/-- With these rules all that declares is disciplined. -/
theorem rules : DeclareRules (Disciplined S) :=
  ⟨⟨pure, bind⟩, get, hiddenName, temp, bindReference, declareStack, declarePlain⟩

/-- The storage has none of the stacks of a unit. -/
theorem onStorage {m : ClassStorage.Step α} (keeps : ClassStorage.Keeps m) :
    Disciplined S (Lower.onStorage m) :=
  quiet (.onStorage keeps) fun s a s' h => by
    obtain ⟨t, -, rfl⟩ := run_onStorage_ok.1 h
    rfl

end Disciplined

end SkipCode
