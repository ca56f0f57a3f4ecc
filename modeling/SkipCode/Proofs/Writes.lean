import SkipCode.Proofs.Access
import SkipCode.Proofs.Balance
import SkipCode.Proofs.Slots

/-!
# Where lowered code writes

A body that is expanded sees none of the variables of its caller. So the code of an expression
writes to the slots that are handed out while it is lowered, to the storage of instances, and to
what the calls back into an open region write. A statement also writes to the variables that it
assigns, so of the places that its body sees only those count whose names are assigned somewhere in
it.

* `Exec.keeps`: a tree that writes to places of one kind leaves all other places alone;
* `Stays`: a plain step writes to, and declares, places of one kind only;
* `Lowers.stays`: so does all that an expression becomes.
-/

namespace SkipCode

open Lower
open Engine (Host Memory StoreKey)
open Source (AssignOp Branch Expr Place Stmt StmtKind)

variable {N : String → Prop} {P : Location → Prop}

/-! ## Trees -/

/-- Writes, all of which go to places of a kind. -/
def ActsIn (P : Location → Prop) (actions : List Action) : Prop :=
  ∀ st slot index value, Action.set st slot index value ∈ actions → P ⟨st.pool, slot⟩

namespace ActsIn

variable {first second : List Action} {γ : Type}

@[simp] theorem nil : ActsIn P [] := nofun

/-- Code that is put together writes where its pieces do. -/
theorem append (h₁ : ActsIn P first) (h₂ : ActsIn P second) : ActsIn P (first ++ second) :=
  fun st slot index value mem => (List.mem_append.1 mem).elim (h₁ st slot index value)
    (h₂ st slot index value)

/-- So does code that is flattened out of pieces. -/
theorem flatMap {f : γ → List Action} {l : List γ} (h : ∀ x ∈ l, ActsIn P (f x)) :
    ActsIn P (l.flatMap f) := by
  intro st slot index value mem
  obtain ⟨x, hx, mem⟩ := List.mem_flatMap.1 mem
  exact h x hx st slot index value mem

/-- Writes to some places are writes to places of the kind that these are of. -/
theorem of_within {actions : List Action} {places : List Location}
    (within : ∀ a ∈ actions, a.Within places) (inside : ∀ l ∈ places, P l) : ActsIn P actions := by
  intro st slot index value mem
  obtain ⟨st', slot', index', value', e, place⟩ := within _ mem
  cases e
  exact inside _ place

end ActsIn

/-- A tree that writes to places of a kind. -/
def Code.WritesIn (P : Location → Prop) : Code → Prop
  | .acts actions => ActsIn P actions
  | .seq a b => a.WritesIn P ∧ b.WritesIn P
  | .arm _ body => body.WritesIn P
  | .choice _ body other => body.WritesIn P ∧ other.WritesIn P
  | .loop pass step tail => pass.WritesIn P ∧ step.WritesIn P ∧ ActsIn P tail
  | .frame body => body.WritesIn P
  | .region entry body finish _ => ActsIn P entry ∧ body.WritesIn P ∧ ActsIn P finish
  | .reenter _ _ entry => ActsIn P entry
  | .abort | .test _ | .leave _ | .again _ | .ret => True

/-- A tree that writes to places of a kind, and to a result on the way of a return. -/
def Code.ReturnsIn (P : Location → Prop) (result : Option IndexedVar) : Code → Prop
  | .acts actions => ActsIn P actions
  | .seq a b => (a.ReturnsIn P result ∧ b.ReturnsIn P result) ∨
      ∃ values pops, a = .acts (storeResult result values ++ pops) ∧ b = .ret ∧ ActsIn P pops
  | .arm _ body => body.ReturnsIn P result
  | .choice _ body other => body.ReturnsIn P result ∧ other.ReturnsIn P result
  | .loop pass step tail => pass.ReturnsIn P result ∧ step.ReturnsIn P result ∧ ActsIn P tail
  | .frame body => body.WritesIn P
  | .region entry body finish _ => ActsIn P entry ∧ body.WritesIn P ∧ ActsIn P finish
  | .reenter _ _ entry => ActsIn P entry
  | .ret => False
  | .abort | .test _ | .leave _ | .again _ => True

/-- What calls back into open regions run writes to places of a kind. -/
def RoutinesIn (P : Location → Prop) (ρ : List Routine) : Prop :=
  ∀ routine ∈ ρ, routine.body.WritesIn P ∧ ActsIn P routine.finish

section

variable {h : Host} {m m' : Memory} {key : StoreKey} {slot : UInt32}

/-- What the actions do not write to stays as it was. -/
theorem acts_keep {actions : List Action} (inside : ActsIn P actions) (other : ¬ P ⟨key.pool, slot⟩)
    (done : h.acts m actions = some m') : m'.get key slot = m.get key slot := by
  induction actions generalizing m with
  | nil =>
    cases done
    rfl
  | cons a rest ih =>
    obtain ⟨m₁, one, others⟩ := Option.bind_eq_some_iff.1 done
    rw [ih (fun st slot index value mem => inside st slot index value
      (List.mem_cons_of_mem _ mem)) others]
    cases a with
    | set st s index value =>
      obtain ⟨found, at', only⟩ := Host.write_at one
      refine only key slot ?_
      rintro ⟨rfl, rfl⟩
      rw [Engine.storeKey_pool at'] at other
      exact other (inside st _ index value List.mem_cons_self)
    | skipIf _ _ => cases one
    | skip _ => cases one
    | abort => cases one

/-- What a tree does not write to stays as it is, in the stores of all actors. -/
theorem Exec.keeps {ρ : List Routine} {c : Code} {x : Exit} (exec : Exec h ρ c m x m')
    (inside : c.WritesIn P) (routines : RoutinesIn P ρ) (other : ¬ P ⟨key.pool, slot⟩) :
    m'.get key slot = m.get key slot := by
  induction exec with
  | acts done => exact acts_keep inside other done
  | seq _ _ ih₁ ih₂ => exact (ih₂ inside.2 routines).trans (ih₁ inside.1 routines)
  | seq_exit _ _ ih => exact ih inside.1 routines
  | arm_skip _ => rfl
  | arm_body _ _ ih => exact ih inside routines
  | choice_other _ _ ih => exact ih inside.2 routines
  | choice_body _ _ ih => exact ih inside.1 routines
  | loop_over _ done ih => exact (acts_keep inside.2.2 other done).trans (ih inside.1 routines)
  | loop_leave _ ih => exact ih inside.1 routines
  | loop_beyond _ _ ih => exact ih inside.1 routines
  | loop_step _ _ _ _ ih₁ ih₂ => exact (ih₂ inside.2.1 routines).trans (ih₁ inside.1 routines)
  | loop_round _ _ _ _ ih₁ ih₂ ih₃ =>
    exact (ih₃ inside routines).trans
      ((ih₂ inside.2.1 routines).trans (ih₁ inside.1 routines))
  | test_over _ | test_next _ | leave | again | ret => rfl
  | frame _ _ ih => exact ih inside routines
  | region entered _ _ done _ ih =>
    -- inside the region there is one routine more that calls can go back to
    obtain ⟨entry, body, finish⟩ := inside
    exact (acts_keep finish other done).trans
      ((ih body (List.forall_mem_cons.2 ⟨⟨body, finish⟩, routines⟩)).trans
        (acts_keep entry other entered))
  | reenter found entered _ _ done _ ih =>
    -- the call runs the body of a region that is open, with the regions that were open around that
    -- one
    obtain ⟨body, finish⟩ := routines _ (List.mem_of_getElem? found)
    exact (acts_keep finish other done).trans
      ((ih body fun r hr => routines r (List.mem_of_mem_drop hr)).trans
        (acts_keep inside other entered))

/-- So does the value of an element that mentions nothing else. -/
theorem Exec.eval_kept {ρ : List Routine} {c : Code} {x : Exit} (exec : Exec h ρ c m x m')
    (inside : c.WritesIn P) (routines : RoutinesIn P ρ) {e : Element}
    (apart : e.Confined fun cell => ¬ P cell.location) :
    Engine.eval (h.context m') e = Engine.eval (h.context m) e := by
  refine Engine.eval_agrees (c := h.context m) (fun cell key other found => ?_) e apart
  refine exec.keeps inside routines ?_
  rw [Engine.storeKey_pool found]
  exact other

end

/-! ## Variables -/

/-- What a variable refers to is a place of a kind. -/
def Variable.In (P : Location → Prop) : Variable → Prop
  | .indexed v => P v.location
  | .recursive v => P v.location
  | .reference _ => True

/-- A plain write is to the place of its variable. -/
theorem IndexedVar.set_in {v : IndexedVar} (inside : P v.location) (value : Element)
    (actor : Option Element) (extra : List Element) : ActsIn P (v.set value actor extra) :=
  .of_within (IndexedVar.set_within (List.mem_singleton_self _) value actor extra)
    fun _ hl => List.mem_singleton.1 hl ▸ inside

/-- A result is written to its own place. -/
theorem ActsIn.storeResult {result : Option IndexedVar}
    (inside : ∀ v, result = some v → P v.location) (values : List Element) :
    ActsIn P (storeResult result values) := by
  unfold Lower.storeResult
  split
  · next value v _ => exact IndexedVar.set_in (inside v rfl) _ _ _
  · exact .nil

/-- Code returns to a result when its parts do. -/
theorem Code.ReturnsIn.seq {result : Option IndexedVar} {a b : Code} (h₁ : a.ReturnsIn P result)
    (h₂ : b.ReturnsIn P result) : (Code.seq a b).ReturnsIn P result := Or.inl ⟨h₁, h₂⟩

/-- Where the result is such a place too, all writes are of that kind. -/
theorem Code.ReturnsIn.writesIn {result : Option IndexedVar} {c : Code} (h : c.ReturnsIn P result)
    (inside : ∀ v, result = some v → P v.location) : c.WritesIn P := by
  induction c with
  | seq a b ih₁ ih₂ =>
    rcases h with ⟨h₁, h₂⟩ | ⟨values, pops, rfl, rfl, rest⟩
    · exact ⟨ih₁ h₁, ih₂ h₂⟩
    · exact ⟨.append (.storeResult inside values) rest, trivial⟩
  | arm _ _ ih => exact ih h
  | choice _ _ _ ih₁ ih₂ => exact ⟨ih₁ h.1, ih₂ h.2⟩
  | loop _ _ _ ih₁ ih₂ => exact ⟨ih₁ h.1, ih₂ h.2.1, h.2.2⟩
  | ret => exact h.elim
  | _ => exact h

/-- What is written for a variable of any kind is at its place. -/
theorem Variable.In.set {v : Variable} (inside : v.In P) {name : String} {value : Element}
    {actor : Option Element} {extra : List Element} {actions : List Action}
    (h : v.setFor name value actor extra = .ok actions) : ActsIn P actions := by
  cases v with
  | indexed v =>
    cases h
    exact IndexedVar.set_in inside _ _ _
  | recursive v =>
    cases h
    exact IndexedVar.set_in inside _ _ _
  | reference e => cases h

/-- What a scope declares under names of a kind are places of a kind. -/
structure Scope.In (N : String → Prop) (P : Location → Prop) (scope : Scope) : Prop where
  bindings : ∀ b ∈ scope.bindings, N b.1 → b.2.In P
  exits : ∀ v ∈ scope.exits, P v.location

theorem Scope.In.empty : Scope.empty.In N P := ⟨nofun, nofun⟩

theorem Scope.In.of_reference (name : String) (e : Element) :
    (⟨[(name, .reference e)], [], []⟩ : Scope).In N P :=
  ⟨fun _ hb _ => List.mem_singleton.1 hb ▸ trivial, nofun⟩

/-- The stacks of a scope are popped at their places. -/
theorem Scope.In.pops {scope : Scope} (inside : scope.In N P) : ActsIn P (scopePops scope) :=
  .flatMap fun v hv => IndexedVar.set_in (inside.exits v hv) _ _ _

/-- What calls back into a region write to are places of a kind. -/
structure Region.In (P : Location → Prop) (region : Region) : Prop where
  stackPlaces : ∀ v ∈ region.returnAddress :: (region.this.toList ++ region.params), P v.location
  temps : ∀ v ∈ region.argumentTemps ++ region.thisTemp.toList, P v.location

/-- A call from inside a region writes to its temporaries and its stacks. -/
theorem Region.In.entry {region : Region} (inside : region.In P) (receiver : Option Element)
    (arguments : List Element) : ActsIn P (callEntry region receiver arguments) := by
  obtain ⟨stackPlaces, temps⟩ := inside
  have param (v : RecursiveVar) (hv : v ∈ region.params) : P v.location :=
    stackPlaces v (List.mem_cons_of_mem _ (List.mem_append_right _ hv))
  refine .append (.append (.append (.append ?_ ?_) ?_) ?_) ?_
  · exact .flatMap fun p hp =>
      IndexedVar.set_in (temps p.1 (List.mem_append_left _ (List.of_mem_zip hp).1)) _ _ _
  · cases found : region.thisTemp with
    | none => exact .nil
    | some temp =>
      cases receiver with
      | none => exact .nil
      | some receiver => exact IndexedVar.set_in (temps temp (by simp [found])) _ _ _
  · exact .flatMap fun p hp => IndexedVar.set_in (param p.1 (List.of_mem_zip hp).1) _ _ _
  · split
    · next this temp found _ => exact IndexedVar.set_in (stackPlaces this (by simp [found])) _ _ _
    · exact .nil
  · exact IndexedVar.set_in (stackPlaces _ List.mem_cons_self) _ _ _

/-! ## States -/

/-- The slots that were noted since the symbols were `base` are of a kind, and so is the storage of
instances. -/
structure UnitState.Grants (P : Location → Prop) (base : List Symbol) (t : UnitState) : Prop where
  symbols : ∀ new, t.symbols = new ++ base → ∀ sym ∈ new, P sym.location
  storage : ∀ l ∈ t.session.classData.locations, P l

/-- The innermost scope declares places of a kind under names of a kind. -/
def UnitState.Top (N : String → Prop) (P : Location → Prop) (s : UnitState) : Prop :=
  ∀ scope ∈ s.scopes.head?, scope.In N P

/-- Where an expression is lowered behind `base`: calls back into open regions write to places of a
kind. -/
structure UnitState.Behind (P : Location → Prop) (base : List Symbol) (s : UnitState) : Prop where
  later : base <:+ s.symbols
  regions : ∀ region ∈ s.regions, region.In P

/-- All that a statement sees under names of a kind in the body of a frame are places of a kind. -/
structure Frame.Owns (N : String → Prop) (P : Location → Prop) (R : Option IndexedVar)
    (s : UnitState) (frame : Frame) : Prop where
  inside : frame.lookupFloor < s.scopes.length
  floor : frame.lookupFloor ≤ frame.scopeDepth
  result : frame.result = R
  scopes : ∀ scope ∈ s.scopesFrom frame.lookupFloor, scope.In N P
  loops : ∀ loop ∈ s.loops.frames.take (s.loops.depth - frame.loopFloor),
    frame.lookupFloor ≤ loop.scopeDepth

def UnitState.Own (N : String → Prop) (P : Location → Prop) (R : Option IndexedVar)
    (s : UnitState) :
    Prop :=
  ∃ frame frames, s.frames = frame :: frames ∧ frame.Owns N P R s

section

variable {base : List Symbol} {R : Option IndexedVar} {s t u : UnitState} {scope : Scope}
  {scopes : List Scope}

/-- What may be written in the end may be written earlier. -/
theorem UnitState.Grants.of_grows (h : t.Grants P base) (grows : s.Grows t) : s.Grants P base := by
  refine ⟨fun new e sym hs => ?_, fun l hl => h.storage l (grows.session.classData.locations l hl)⟩
  obtain ⟨more, e'⟩ := grows.symbols
  exact h.symbols (more ++ new) (by rw [← e', e, List.append_assoc]) sym
    (List.mem_append_right _ hs)

/-- No slot is handed out twice and the storage has none of the unit's, so new places are of any
kind that only places of before are not of. -/
theorem UnitState.Orderly.grants {past : List Symbol} (orderly : t.Orderly past)
    (clean : t.deferred = []) (later : base <:+ t.symbols)
    (old : ∀ l, ¬ P l → l ∈ base.map Symbol.location) : t.Grants P base := by
  refine ⟨fun new e sym hs => by_contra fun other => ?_, fun l hl => by_contra fun other => ?_⟩
  · have distinct := orderly.distinct clean
    rw [e, List.map_append, List.nodup_append] at distinct
    exact distinct.2.2 _ (List.mem_map_of_mem hs) _ (old _ other) rfl
  · obtain ⟨new, e⟩ := later
    refine orderly.storage l hl ?_
    rw [← e, List.append_assoc, List.map_append, List.map_append]
    exact List.mem_append_right _ (List.mem_append_left _ (old l other))

/-- The slots that were noted between two states behind `base`. -/
theorem UnitState.Grants.between {new : List Symbol} (h : t.Grants P base)
    (later : base <:+ s.symbols) (e : t.symbols = new ++ s.symbols) :
    ∀ sym ∈ new, P sym.location := by
  obtain ⟨old, e'⟩ := later
  intro sym hs
  exact h.symbols (new ++ old) (by rw [e, ← e', List.append_assoc]) sym (List.mem_append_left _ hs)

/-- A slot that was taken behind `base`. -/
theorem UnitState.Grants.taken {name : String} {stacked : Bool} {slot : UInt32}
    {bindings : List (String × Variable)} {exits : List RecursiveVar} {actions : List Action}
    {hidden : Nat} (h : t.Grants P base) (later : base <:+ s.symbols)
    (takes : Takes s name stacked slot bindings exits actions hidden t) : P ⟨s.pool, slot⟩ := by
  obtain ⟨p, scope, rest, -, -, rfl⟩ := takes.taken
  exact h.between later (List.singleton_append (l := s.symbols)).symm _ (List.mem_singleton_self _)

/-- What a unit had before stays before it. -/
theorem UnitState.Behind.next (h : s.Behind P base) (steady : s.Steady t) : t.Behind P base := by
  refine ⟨h.later.trans steady.grows.symbols, fun region mem => ?_⟩
  obtain ⟨i, hi, rfl⟩ := List.getElem_of_mem mem
  obtain ⟨length, grows⟩ := List.forall₂_iff_get.1 steady.regions
  have same := (grows i (length ▸ hi) hi).same
  have before := h.regions _ (List.getElem_mem (length ▸ hi))
  rw [List.get_eq_getElem, List.get_eq_getElem] at same
  rw [same]
  exact ⟨before.stackPlaces, before.temps⟩

/-- The innermost scope has what it had. -/
theorem UnitState.Top.of_scopes (h : s.Top N P) (same : t.scopes = s.scopes) : t.Top N P := by
  rw [UnitState.Top, same]
  exact h

/-- A scope that is on top has its places there. -/
theorem UnitState.top_cons (inside : scope.In N P) (e : s.scopes = scope :: scopes) :
    s.Top N P := by
  intro other mem
  rw [e] at mem
  cases mem
  exact inside

theorem UnitState.Top.head (h : s.Top N P) (e : s.scopes = scope :: scopes) : scope.In N P :=
  h scope (by rw [e]; rfl)

/-- What closes a scope writes to the places of the scope. -/
theorem Lower.Closes.acts_in {pops : List Action} (closes : Closes t pops u) (top : t.Top N P) :
    ActsIn P pops := by
  obtain ⟨scope, rest, σ, e, rfl, -, -⟩ := closes.closed
  exact (top.head e).pops

/-- The scopes from a floor up, by the innermost one. -/
theorem UnitState.scopesFrom_cons {floor : Nat} (inside : floor ≤ scopes.length)
    (e : s.scopes = scope :: scopes) :
    s.scopesFrom floor = scope :: scopes.take (scopes.length - floor) := by
  rw [UnitState.scopesFrom, e, List.length_cons, Nat.sub_add_comm inside, List.take_succ_cons]

namespace UnitState.Own

/-- The innermost scope is one of the own ones. -/
theorem top (own : s.Own N P R) : s.Top N P := by
  obtain ⟨frame, frames, -, owns⟩ := own
  intro scope mem
  obtain ⟨rest, e⟩ : ∃ rest, s.scopes = scope :: rest := by
    cases hs : s.scopes with
    | nil => simp [hs] at mem
    | cons first rest =>
      rw [hs] at mem
      cases mem
      exact ⟨rest, rfl⟩
  have inside := owns.inside
  rw [e, List.length_cons, Nat.lt_succ_iff] at inside
  exact owns.scopes scope (scopesFrom_cons inside e ▸ List.mem_cons_self)

/-- A statement leaves the scopes of its body as they are, but for the innermost one. -/
theorem next (own : s.Own N P R) (steady : s.Steady t) (top : t.Top N P) : t.Own N P R := by
  obtain ⟨frame, frames, found, owns⟩ := own
  have grows := steady.frames
  rw [found] at grows
  obtain ⟨frame', frames', same, -, found'⟩ := List.forall₂_cons_left_iff.1 grows
  rw [Frame.Grows] at same
  obtain ⟨floor, depth, result, loopFloor⟩ : frame'.lookupFloor = frame.lookupFloor ∧
      frame'.scopeDepth = frame.scopeDepth ∧ frame'.result = frame.result ∧
        frame'.loopFloor = frame.loopFloor := by
    rw [same]
    exact ⟨rfl, rfl, rfl, rfl⟩
  refine ⟨frame', frames', found', ?_, ?_, ?_, ?_, ?_⟩
  · rw [floor, steady.scopes.length_eq]
    exact owns.inside
  · rw [floor, depth]
    exact owns.floor
  · exact result.trans owns.result
  · rw [floor]
    obtain ⟨scope, rest, e⟩ := List.exists_cons_of_length_pos (Nat.zero_lt_of_lt owns.inside)
    have inside := owns.inside
    rw [e, List.length_cons, Nat.lt_succ_iff] at inside
    obtain ⟨scope', e'⟩ : ∃ scope', t.scopes = scope' :: rest := by
      have grown := steady.scopes
      rw [e] at grown
      cases hs : t.scopes with
      | nil =>
        rw [hs] at grown
        cases grown
      | cons first others =>
        rw [hs] at grown
        cases grown
        exact ⟨first, rfl⟩
    -- all scopes but the innermost one are those of before
    rw [scopesFrom_cons inside e']
    intro other mem
    rcases List.mem_cons.1 mem with rfl | mem
    · exact top.head e'
    · exact owns.scopes other (scopesFrom_cons inside e ▸ List.mem_cons_of_mem _ mem)
  · have length := steady.loops.length_eq
    rw [floor, loopFloor, LoopStack.depth, ← length]
    intro loop mem
    obtain ⟨i, hi, rfl⟩ := List.getElem_of_mem mem
    rw [List.length_take] at hi
    have grown := (List.forall₂_iff_get.1 steady.loops).2 i (by omega) (by omega)
    rw [List.get_eq_getElem, List.get_eq_getElem] at grown
    rw [List.getElem_take, grown.scopeDepth]
    exact owns.loops _ (List.mem_take_iff_getElem.2 ⟨i, by rw [LoopStack.depth]; omega, rfl⟩)

/-- Between states with the same scopes what is own stays own. -/
theorem same (own : s.Own N P R) (steady : s.Steady t) (same : t.scopes = s.scopes) : t.Own N P R :=
  own.next steady (own.top.of_scopes same)

/-- The regions do not matter. -/
theorem within (own : s.Own N P R) (region : Region) : (s.within region).Own N P R := by
  obtain ⟨frame, frames, found, owns⟩ := own
  exact ⟨frame, frames, found, owns.inside, owns.floor, owns.result, owns.scopes, owns.loops⟩

/-- Inside another scope. -/
theorem surrounded (own : s.Own N P R) (inside : scope.In N P) :
    ({ s with scopes := scope :: s.scopes } : UnitState).Own N P R := by
  obtain ⟨frame, frames, found, owns⟩ := own
  refine ⟨frame, frames, found, Nat.lt_succ_of_lt owns.inside, owns.floor, owns.result,
    fun other mem => ?_, owns.loops⟩
  rw [scopesFrom_cons (Nat.le_of_lt owns.inside) rfl] at mem
  rcases List.mem_cons.1 mem with rfl | mem
  · exact inside
  · exact owns.scopes other mem

/-- Inside a loop. -/
theorem looping (own : s.Own N P R) (list : ActionList) : (s.looping list).Own N P R := by
  obtain ⟨frame, frames, found, owns⟩ := own
  refine ⟨frame, frames, found, owns.inside, owns.floor, owns.result, owns.scopes,
    fun loop mem => ?_⟩
  change loop ∈ (_ :: s.loops.frames).take (s.loops.frames.length + 1 - frame.loopFloor) at mem
  cases taken : s.loops.frames.length + 1 - frame.loopFloor with
  | zero => simp [taken] at mem
  | succ n =>
    rw [taken, List.take_succ_cons] at mem
    rcases List.mem_cons.1 mem with rfl | mem
    · -- the new loop begins inside the scopes of the body
      exact Nat.le_of_lt owns.inside
    · refine owns.loops loop ?_
      rwa [LoopStack.depth, show s.loops.frames.length - frame.loopFloor = n by omega]

/-- What a name stands for. -/
theorem lookup (own : s.Own N P R) {name : String} {v : Variable} (named : N name)
    (h : run (lookup name) s = some (.ok v, s)) : v.In P := by
  obtain ⟨frame, frames, found, owns⟩ := own
  obtain ⟨_, _, ⟨⟩, h₁⟩ := run_bind_ok.1 h
  dsimp only at h₁
  rw [found] at h₁
  dsimp only at h₁
  split at h₁
  · next w hw =>
    cases h₁
    obtain ⟨scope, mem, bound⟩ := List.exists_of_findSome?_eq_some hw
    obtain ⟨before, after, e, -⟩ := List.lookup_eq_some_iff.1 bound
    exact (owns.scopes scope mem).bindings (name, v) (by simp [e]) named
  · cases h₁

end UnitState.Own

/-- The pops on the way out of a body or of a loop in it. -/
theorem Frame.Owns.pops {frame : Frame} (owns : frame.Owns N P R s) {depth : Nat}
    (inside : frame.lookupFloor ≤ depth) : ActsIn P (pendingPops s depth) := by
  refine .flatMap fun scope mem => .flatMap fun v hv => IndexedVar.set_in ?_ _ _ _
  refine (owns.scopes scope (List.mem_of_mem_take (i := s.scopes.length - depth) ?_)).exits v hv
  rw [UnitState.scopesFrom, List.take_take, Nat.min_eq_left (by omega)]
  exact mem

/-- On the way out of a loop own stacks are popped. -/
theorem Frame.Owns.pops_loop {frame : Frame} (owns : frame.Owns N P R s) {k : UInt32}
    {exit : String} {target : LoopFrame}
    (reached : s.loops.frame k frame.loopFloor exit = .ok target) :
    ActsIn P (pendingPops s target.scopeDepth) := by
  obtain ⟨inside, here⟩ := LoopStack.frame_ok reached
  refine owns.pops (owns.loops target ?_)
  refine List.mem_of_getElem? (i := k.toNat) ?_
  rw [List.getElem?_take_of_lt (by rw [LoopStack.depth]; omega)]
  exact here

end

/-! ## Plain steps -/

/-- A plain step behind `base` that writes to places of a kind, and declares such places. -/
structure Stays {α : Type} (P : Location → Prop) (base : List Symbol) (m : Lower α) : Prop where
  plain : Plain m
  inside : ∀ s a s', run m s = some (.ok a, s') → s'.deferred = [] → s'.Grants P base →
    base <:+ s.symbols → ∃ actions, Extends s actions s' ∧ ActsIn P actions ∧ ∀ N, s.Top N P →
      s'.Top N P

section

variable {base : List Symbol} {s s' : UnitState} {name : String} {stacked : Bool} {slot : UInt32}
  {bindings : List (String × Variable)} {exits : List RecursiveVar} {actions : List Action}
  {hidden : Nat}

/-- What is noted in the innermost scope with a slot. -/
theorem Lower.Takes.top (h : Takes s name stacked slot bindings exits actions hidden s')
    (top : s.Top N P) (bound : ∀ b ∈ bindings, b.2.In P) (pushed : ∀ v ∈ exits, P v.location) :
    s'.Top N P := by
  obtain ⟨p, scope, rest, -, e, rfl⟩ := h.taken
  have before := top.head e
  refine UnitState.top_cons ⟨fun b hb => ?_, fun v hv => ?_⟩ rfl
  · exact (List.mem_append.1 hb).elim (fun hb _ => bound b hb) (before.bindings b)
  · exact (List.mem_append.1 hv).elim (pushed v) (before.exits v)

end

namespace Stays

variable {α β : Type} {base : List Symbol}

theorem pure (a : α) : Stays P base (Pure.pure a : Lower α) := by
  refine ⟨.pure a, fun s b s' h _ _ _ => ?_⟩
  cases h
  exact ⟨[], .refl s, .nil, fun _ => id⟩

/-- Steps that stay at their places do so together. -/
theorem bind {m : Lower α} {f : α → Lower β} (hm : Stays P base m) (hf : ∀ a, Stays P base (f a)) :
    Stays P base (m >>= f) := by
  refine ⟨hm.plain.bind fun a => (hf a).plain, fun s b s' h clean grants later => ?_⟩
  obtain ⟨a, u, h₁, h₂⟩ := run_bind_ok.1 h
  obtain ⟨_, e₂⟩ := (hf a).plain u b s' h₂
  obtain ⟨first, e₁, in₁, top₁⟩ :=
    hm.inside s a u h₁ (e₂.deferred clean) (grants.of_grows e₂.grows) later
  obtain ⟨second, e₂, in₂, top₂⟩ :=
    (hf a).inside u b s' h₂ clean grants (later.trans e₁.grows.symbols)
  exact ⟨first ++ second, e₁.trans e₂, in₁.append in₂, fun N => top₂ N ∘ top₁ N⟩

/-- A step that changes neither the scopes nor the list. -/
theorem quiet {m : Lower α} (silent : Silent m)
    (same : ∀ s a s', run m s = some (.ok a, s') → s'.scopes = s.scopes) : Stays P base m :=
  ⟨fun s a s' h => ⟨[], silent s a s' h⟩, fun s a s' h _ _ _ =>
    ⟨[], silent s a s' h, .nil, fun _ top => top.of_scopes (same s a s' h)⟩⟩

theorem get : Stays P base (MonadState.get : Lower UnitState) :=
  quiet .get fun s a s' h => by
    cases h
    rfl

theorem lift (x : Except LowerError α) : Stays P base (liftM x : Lower α) :=
  quiet (.lift x) fun s a s' h => by
    rw [run_lift] at h
    cases h
    rfl

theorem hiddenName (what : String) : Stays P base (Lower.hiddenName what) :=
  quiet (.hiddenName what) fun s a s' h => by
    rw [run_hiddenName] at h
    cases h
    rfl

/-- A stack that is declared is a new place. -/
theorem declareStack (name : String) (initial : Option Element) :
    Stays P base (Lower.declareStack name initial) := by
  refine ⟨.declareStack name initial, fun s v s' h clean grants later => ?_⟩
  obtain ⟨slot, rfl, takes⟩ := run_declareStack_ok h clean
  have place := grants.taken later takes
  refine ⟨_, takes.extends (settled_push _ _ _) (Nat.le_refl _), IndexedVar.set_in place _ _ _,
    fun _ top => takes.top top (fun b hb => ?_) fun v hv => ?_⟩
  · cases List.mem_singleton.1 hb
    exact place
  · cases List.mem_singleton.1 hv
    exact place

/-- So is a plain variable. -/
theorem declarePlain (name : String) (initial : Option Element) :
    Stays P base (Lower.declarePlain name initial) := by
  refine ⟨.declarePlain name initial, fun s v s' h clean grants later => ?_⟩
  obtain ⟨slot, rfl, takes⟩ := run_declarePlain_ok h clean
  have place := grants.taken later takes
  refine ⟨_, takes.extends (.flatMap (fun _ => settled_set _ _ _ _) _) (Nat.le_refl _),
    .flatMap fun _ _ => IndexedVar.set_in place _ _ _,
      fun _ top => takes.top top (fun b hb => ?_) nofun⟩
  cases List.mem_singleton.1 hb
  exact place

/-- What is bound by reference takes no place. -/
theorem bindReference (name : String) (e : Element) :
    Stays P base (Lower.bind name (.reference e)) := by
  refine ⟨.bindName _ _, fun s a s' h _ _ _ => ?_⟩
  obtain ⟨scope, rest, hs, rfl⟩ := run_modifyScope_ok.1 h
  obtain ⟨actions, extends'⟩ := Plain.bindName name (.reference e) s a _ h
  obtain rfl : actions = [] := by
    have := extends'.list
    simpa using this
  refine ⟨[], extends', .nil, fun N top => ?_⟩
  obtain ⟨bindings, exits⟩ := top.head hs
  have bound : Scope.In N P { scope with bindings := (name, .reference e) :: scope.bindings } :=
    ⟨List.forall_mem_cons.2 ⟨fun _ => trivial, bindings⟩, exits⟩
  exact UnitState.top_cons bound rfl

/-- A temporary is a new place. -/
theorem temp (what : String) : Stays P base (Lower.temp what) := by
  refine ⟨.temp what, fun s v s' h clean grants later => ?_⟩
  obtain ⟨slot, rfl, takes⟩ := run_temp_ok h clean
  exact ⟨_, takes.extends .nil (Nat.le_succ _), .nil, fun _ top => takes.top top nofun nofun⟩

/-- With these rules all that declares stays at new places. -/
theorem rules : DeclareRules (Stays P base) :=
  ⟨⟨pure, bind⟩, get, hiddenName, temp, bindReference, declareStack, declarePlain⟩

/-- The storage has its own places. -/
theorem onStorage {m : ClassStorage.Step α} (keeps : ClassStorage.Keeps m) :
    Stays P base (Lower.onStorage m) :=
  quiet (.onStorage keeps) fun s a s' h => by
    obtain ⟨t, -, rfl⟩ := run_onStorage_ok.1 h
    rfl

/-- A step on the storage that writes to it. -/
theorem writeStorage {m : ClassStorage.Step α} (adds : ClassStorage.Adds m)
    (within : ClassStorage.WritesWithin m) : Stays P base (Lower.onStorage m) := by
  refine ⟨.onStorage adds, fun s a s' h _ grants _ => ?_⟩
  obtain ⟨actions, extends'⟩ := Plain.onStorage adds s a s' h
  obtain ⟨t, ht, rfl⟩ := run_onStorage_ok.1 h
  -- both descriptions of the step are about the same actions
  obtain ⟨-, written, e, inside⟩ := within _ _ _ ht
  obtain rfl := List.append_cancel_left (extends'.list.symm.trans e)
  exact ⟨actions, extends', .of_within inside grants.storage, fun _ top => top.of_scopes rfl⟩

/-- The place of a field is in the storage. -/
theorem fieldVar (className field : String) (handle : Element) :
    Stays P base (Lower.fieldVar className field handle) :=
  .bind .get fun _ => .bind (.lift _) fun _ => .bind (.lift _) fun _ =>
    .bind (.onStorage (.prepare _)) fun _ => .bind (.onStorage (.fieldStack _)) fun _ => .pure _

theorem staticVar (className field : String) : Stays P base (Lower.staticVar className field) :=
  .bind .get fun _ => .bind (.lift _) fun _ => .onStorage (.staticField _ _)

theorem indexName (index : Option String) : Stays P base (Lower.indexName index) := by
  cases index with
  | some name => exact .pure name
  | none => exact .hiddenName _

/-- The handle of an instance that is given up is a new place. -/
theorem deleteHandle (handle : Element) (className : String) :
    Stays P base (Lower.deleteHandle handle className) :=
  .bind (.hiddenName _) fun _ => .bind (rules.declare _ _ _) fun _ => .bind .get fun _ =>
    .writeStorage (.release _ _ _) (.release _ _ _)

/-- A target is a variable of the body, or in the storage. -/
theorem resolveTarget (target : Place) (os : List Element) :
    Stays P base (Lower.resolveTarget target os) := by
  unfold Lower.resolveTarget
  split
  · exact .quiet (fun s a s' h => by rw [run_lookup_ok h]; exact .refl s)
      fun s a s' h => by rw [run_lookup_ok h]
  · exact .bind (.fieldVar _ _ _) fun _ => .pure _
  · exact .bind (.staticVar _ _) fun _ => .pure _
  · exact .quiet (fun s a s' h => by cases h) fun s a s' h => by cases h

end Stays

/-! ## The ways of lowering -/

/-- What a piece of code writes to, but for the result that it returns, and what it declares, are
places of a kind. -/
structure Held (P : Location → Prop) (R : Option IndexedVar) (s : UnitState) (c : Code)
    (t : UnitState) :
    Prop where
  code : c.ReturnsIn P R
  top : ∀ N, s.Top N P → t.Top N P

/-- Statements that assign variables of names of a kind only. -/
def Assigns (N : String → Prop) (kinds : List StmtKind) : Prop :=
  ∀ k ∈ kinds, ∀ name, k.assigned? = some name → N name

/-- Fewer statements assign less. -/
theorem Assigns.subset {a b : List StmtKind} (h : Assigns N b) (sub : a ⊆ b) : Assigns N a :=
  fun k hk => h k (sub hk)

namespace Task

/-- The pieces of the source that see the variables of the body around them. -/
def InBody : Task → Prop
  | stmt _ | kind _ | stmts _ | block _ | arms .. | loop .. => True
  | _ => False

/-- What a piece of the source assigns of the body around it, or leaves its result in if it is a
body, are places of a kind. -/
structure Placed (P : Location → Prop) (R : Option IndexedVar) (task : Task) (s : UnitState) :
    Prop where
  inside : ∀ v, task.result? = some v → P v.location
  own : task.InBody → ∃ N, Assigns N task.kinds ∧ s.Own N P R

end Task

/-- A piece of the source becomes code that writes to places of a kind, but for the result of the
body around it. -/
def Holds (P : Location → Prop) (base : List Symbol) (task : Task) (s : UnitState) (c : Code)
    (t : UnitState) : Prop :=
  ∀ R, t.Grants P base → s.Behind P base → task.Placed P R s → Held P R s c t

section

variable {base : List Symbol} {s t u : UnitState} {a b : Code} {actions pops : List Action}
  {x : Element} {v : Variable} {task : Task} {R : Option IndexedVar}

/-- A piece that is no statement has nowhere to return to. -/
theorem Task.Placed.outside (result : task.result? = none) (outside : ¬ task.InBody) :
    task.Placed P R s :=
  ⟨fun v h => (by rw [result] at h; cases h), fun inside => absurd inside outside⟩

/-- A statement writes to what is own where it stands. -/
theorem Task.Placed.within (result : task.result? = none) (assigns : Assigns N task.kinds)
    (own : s.Own N P R) : task.Placed P R s :=
  ⟨fun v h => (by rw [result] at h; cases h), fun _ => ⟨N, assigns, own⟩⟩

theorem Task.Placed.exprs (es : List Expr) : (Task.exprs es).Placed P R s := .outside rfl id

theorem Task.Placed.expr (e : Expr) : (Task.expr e).Placed P R s := .outside rfl id

theorem Held.nothing : Held P R s (.acts []) s := ⟨.nil, fun _ => id⟩

/-- Pieces that are held one behind the other are held together. -/
theorem Held.seq (h₁ : Held P R s a t) (h₂ : Held P R t b u) : Held P R s (.seq a b) u :=
  ⟨h₁.code.seq h₂.code, fun N => h₂.top N ∘ h₁.top N⟩

/-- A step without actions behind other code. -/
theorem Held.after (h₁ : Held P R s a t) (h₂ : Held P R t (.acts []) u) : Held P R s a u :=
  ⟨h₁.code, fun N => h₂.top N ∘ h₁.top N⟩

/-- A step without actions before other code. -/
theorem Held.before (h₁ : Held P R s (.acts []) t) (h₂ : Held P R t b u) : Held P R s b u :=
  ⟨h₂.code, fun N => h₂.top N ∘ h₁.top N⟩

/-- Code between states with the same scopes. -/
theorem Held.between (inside : a.ReturnsIn P R) (same : t.scopes = s.scopes) : Held P R s a t :=
  ⟨inside, fun _ top => top.of_scopes same⟩

/-- The list has no part in what is held. -/
theorem Held.withList (h : Held P R s a t) (list : ActionList) : Held P R s a (t.withList list) :=
  ⟨h.code, fun N top => (h.top N top).of_scopes rfl⟩

/-- Code that is emitted by a step which stays at its places is held. -/
theorem Lower.Emits.held {α : Type} {m : Lower α} {r : α} (R : Option IndexedVar)
    (emits : Emits m s actions r t) (stays : Stays P base m) (grants : t.Grants P base)
    (behind : s.Behind P base) :
    Held P R s (.acts actions) t := by
  obtain ⟨actions', e, inside, top⟩ := stays.inside s r t emits.run emits.clean grants behind.later
  obtain rfl := List.append_cancel_left (emits.extends'.list.symm.trans e.list)
  exact ⟨inside, top⟩

/-- A write behind other code. -/
theorem Held.write {name : String} {value : Element} {actor : Option Element} {extra : List Element}
    (inside : v.In P) (h : v.setFor name value actor extra = .ok actions) (list : ActionList) :
    Held P R s (.acts actions) (s.withList list) :=
  .between (inside.set h) rfl

/-- A write to a place. -/
theorem Held.store {w : IndexedVar} {value : Element} {actor : Option Element}
    {extra : List Element} (inside : P w.location) (list : ActionList) :
    Held P R s (.acts (w.set value actor extra)) (s.withList list) :=
  .between (IndexedVar.set_in inside _ _ _) rfl

/-- What a scope of its own surrounds. -/
theorem Held.inScope {scope : Scope} (inside : scope.In N P)
    (inner : Held P R { s with scopes := scope :: s.scopes } a t)
    (steady : ({ s with scopes := scope :: s.scopes } : UnitState).Steady t)
    (closes : Closes t pops u) : Held P R s (.seq a (.acts pops)) u :=
  .between (inner.code.seq (closes.acts_in (inner.top N (UnitState.top_cons inside rfl))))
    (closes.scopes steady.scopes)

theorem UnitState.Grants.withList {list : ActionList} (h : (t.withList list).Grants P base) :
    t.Grants P base :=
  h.of_grows (.withList t list)

theorem UnitState.Grants.of_left {list : ActionList} (h : (t.left list).Grants P base) :
    t.Grants P base :=
  h.of_grows (.elsewhere ..)

/-- Inside a body whose only scope is its own. -/
theorem UnitState.Own.entered {frame : Frame} {scope : Scope} {scopes : List Scope}
    (e : s.scopes = scope :: scopes) (inside : scope.In N P)
    (floor : frame.lookupFloor = scopes.length) (depth : frame.lookupFloor ≤ frame.scopeDepth)
    (loops : frame.loopFloor = s.loops.depth) (left : frame.result = result) :
    (s.entered frame).Own N P result := by
  refine ⟨frame, s.frames, rfl, ?_, depth, left, fun other mem => ?_, fun loop mem => ?_⟩
  · change frame.lookupFloor < s.scopes.length
    rw [floor, e]
    exact Nat.lt_succ_self _
  · rw [scopesFrom_cons (s := s.entered frame) (Nat.le_of_eq floor) e, floor, Nat.sub_self,
      List.take_zero, List.mem_singleton] at mem
    exact mem ▸ inside
  · change loop ∈ s.loops.frames.take (s.loops.depth - frame.loopFloor) at mem
    rw [loops, Nat.sub_self] at mem
    cases mem

/-- What a declaration gives. -/
theorem UnitState.Grants.declared {name : String} {initial : Option Element} {stacked : Bool}
    (grants : t.Grants P base) (later : base <:+ s.symbols)
    (e : Emits (declare name initial stacked) s actions v t) : v.In P := by
  rcases run_declare_ok e.run with ⟨-, w, rfl, h⟩ | ⟨-, w, rfl, h⟩
  · obtain ⟨slot, rfl, takes⟩ := run_declareStack_ok h e.clean
    exact grants.taken later takes
  · obtain ⟨slot, rfl, takes⟩ := run_declarePlain_ok h e.clean
    exact grants.taken later takes

/-- A temporary is at a place that may be written. -/
theorem UnitState.Grants.temp {what : String} {w : IndexedVar} (grants : t.Grants P base)
    (later : base <:+ s.symbols) (e : Emits (temp what) s [] w t) : P w.location := by
  obtain ⟨slot, rfl, takes⟩ := run_temp_ok e.run e.clean
  exact grants.taken later takes

/-- A target stands for a place that the body sees, or for one in the storage. -/
theorem UnitState.Own.target {target : Place} {os : List Element} (own : s.Own N P R)
    (named : ∀ name, target = .var name → N name) (grants : t.Grants P base)
    (h : run (resolveTarget target os) s = some (.ok v, t)) : v.In P := by
  unfold resolveTarget at h
  split at h
  · obtain rfl := run_lookup_ok h
    exact own.lookup (named _ rfl) h
  · obtain ⟨w, u, h₁, h₂⟩ := run_bind_ok.1 h
    cases h₂
    exact grants.storage _ (run_fieldVar_location h₁)
  · obtain ⟨w, u, h₁, h₂⟩ := run_bind_ok.1 h
    cases h₂
    exact grants.storage _ (run_staticVar_location h₁)
  · cases h

/-- The region that is opened at a place. -/
theorem Lower.Opens.region_in {key : String} {params : List String} {receiver : Option Element}
    {arguments : List Element} {result : IndexedVar} {region : Region}
    (opens : Opens key params receiver arguments result s region t) (grants : t.Grants P base)
    (later : base <:+ s.symbols) : region.In P := by
  obtain ⟨name, u, -, pushed, reserved⟩ := opens.stackPlaces
  obtain ⟨new, e, places, -⟩ := pushed.symbols
  obtain ⟨new', e', places', -⟩ := reserved.symbols
  have grants₁ := grants.of_grows reserved.extends'.grows
  -- first the stacks are declared and then the temporaries, all of them behind the base
  refine ⟨fun v hv => ?_, fun v hv => ?_⟩
  · have mem : v.location ∈ new.map Symbol.location := by
      rw [places, List.mem_reverse]
      refine List.mem_map_of_mem ?_
      simp only [List.mem_cons, List.mem_append] at hv ⊢
      tauto
    obtain ⟨sym, hs, e₁⟩ := List.mem_map.1 mem
    exact e₁ ▸ grants₁.between later e sym hs
  · have mem : v.location ∈ new'.map Symbol.location := by
      rw [places', List.mem_reverse]
      exact List.mem_map_of_mem hv
    obtain ⟨sym, hs, e₁⟩ := List.mem_map.1 mem
    exact e₁ ▸ grants.between (later.trans pushed.extends'.grows.symbols) e' sym hs

/-- The code that takes a handle. -/
theorem Held.acquire {R : Option IndexedVar} {config : LowerConfig} {handle : Variable}
    {table : IndexedVar} {first : Option (List Action × Element)} {next mark : List Action}
    {full : Element} (acquires : Acquires config handle table first next full mark)
    (inside : handle.In P) (storage : P table.location) (same : t.scopes = s.scopes) :
    Held P R s (acquireCode first next full mark) t := by
  refine .between ?_ same
  have mark' : ActsIn P mark := by
    rw [acquires.mark]
    exact IndexedVar.set_in storage _ _ _
  have next' := inside.set acquires.next
  cases first with
  | none => exact .seq next' (.seq trivial mark')
  | some first =>
    obtain ⟨first, found⟩ := first
    exact .seq (inside.set acquires.first.1) (.seq next' (.seq trivial mark'))

end

/-! ## The whole of lowering -/

section

variable {base : List Symbol} {s s₁ s₂ s₃ s₄ s₅ s₆ t : UnitState} {c d e : Code} {x : Element}
  {xs : List Element} {task : Task} {pops : List Action}

theorem UnitState.Behind.withList (behind : s.Behind P base) (list : ActionList) :
    (s.withList list).Behind P base := ⟨behind.later, behind.regions⟩

/-- A scope that is opened leaves what is before it. -/
theorem UnitState.Behind.opened (behind : s.Behind P base) : s.opened.Behind P base :=
  ⟨behind.later, behind.regions⟩

/-- The body of a region at a place where the temporaries of the region are declared already: it
writes to the result by its returns only, and what is around it does not. -/
theorem Holds.region {key : String} {params : List String} {body : List Stmt}
    {receiver : Option Element} {arguments : List Element} {result address : IndexedVar}
    {region closing : Region} {regions : List Region} {entry : List Action}
    (list list' : ActionList)
    (opens : Emits (openRegion key params receiver arguments result) s.opened entry region s₃)
    (inner : Lowers (.block body) ((s₃.entered (s.activation key result)).within region) c [] s₄)
    (closes : Closes ({ s₄.left list with regions }.withList list') pops s₅)
    (holds : Holds P base (.block body) ((s₃.entered (s.activation key result)).within region) c s₄)
    (grants : s₅.Grants P base) (behind : s.Behind P base) (address' : P address.location) :
    ActsIn P entry ∧ c.ReturnsIn P (some result) ∧
      ActsIn P (address.set (closing.returnAddress.get none) none [] ++ pops) ∧
        s₅.scopes = s.scopes := by
  have steady := inner.steady
  have same : s₄.scopes = s₃.scopes := inner.scopes_eq trivial
  have grants₄ : s₄.Grants P base := (grants.of_grows closes.grows).of_grows (.elsewhere ..)
  have grants₃ : s₃.Grants P base := (grants₄.of_grows steady.grows).of_grows (.elsewhere ..)
  -- the entry writes to what it declares, the body to that and to places of its own, the end to the
  -- address
  have entered := opens.held none (Stays.rules.openRegion _ _ _ _ _) grants₃ behind.opened
  have behind₃ := behind.opened.next opens.extends'.steady
  have region' := (opens_of_run opens.run opens.clean).region_in grants₃ behind.later
  obtain ⟨scope, scopes₃⟩ : ∃ scope, s₃.scopes = scope :: s.scopes := by
    obtain ⟨scope, rest, e⟩ := List.exists_cons_of_length_pos (l := s₃.scopes)
      (by rw [opens.extends'.scopes.length_eq]; exact Nat.succ_pos _)
    have tail : s₃.scopes.tail = s.scopes := opens.extends'.scopes.tail_eq
    rw [e] at tail
    exact ⟨scope, tail ▸ e⟩
  have top := entered.top (fun _ => True) (UnitState.top_cons .empty rfl)
  have own : (s₃.entered (s.activation key result)).Own (fun _ => True) P (some result) := by
    refine .entered scopes₃ (top.head scopes₃) rfl (Nat.le_succ _) ?_ rfl
    change s.loops.depth = s₃.loops.depth
    rw [opens.extends'.loops]
    rfl
  have held :=
    holds (some result) grants₄ ⟨behind₃.later, List.forall_mem_cons.2 ⟨region', behind₃.regions⟩⟩
    (.within rfl (fun _ _ _ _ => trivial) (own.within region))
  have top₄ : s₄.Top (fun _ => True) P := top.of_scopes same
  have finish := (IndexedVar.set_in address' (closing.returnAddress.get none) none []).append
    (closes.acts_in (top₄.of_scopes rfl))
  have grown : ScopesGrow (Scope.empty :: s.scopes) s₄.scopes := same ▸ opens.extends'.scopes
  exact ⟨entered.code, held.code, finish, closes.scopes grown⟩

/-- So the region writes to places of a kind if the result is one. -/
theorem Held.region {R : Option IndexedVar} {key : String} {params : List String} {body : List Stmt}
    {receiver : Option Element} {arguments : List Element} {result address : IndexedVar}
    {region closing : Region} {regions : List Region} {entry : List Action}
    (list list' : ActionList)
    (opens : Emits (openRegion key params receiver arguments result) s.opened entry region s₃)
    (inner : Lowers (.block body) ((s₃.entered (s.activation key result)).within region) c [] s₄)
    (closes : Closes ({ s₄.left list with regions }.withList list') pops s₅)
    (holds : Holds P base (.block body) ((s₃.entered (s.activation key result)).within region) c s₄)
    (grants : s₅.Grants P base) (behind : s.Behind P base) (result' : P result.location)
    (address' : P address.location) :
    Held P R s (.region entry c
      (address.set (closing.returnAddress.get none) none [] ++ pops) (address.get none)) s₅ := by
  obtain ⟨entered, body, finish, same⟩ :=
    Holds.region list list' opens inner closes holds grants behind address'
  exact .between ⟨entered, body.writesIn fun v h => (by cases h; exact result'), finish⟩ same

/-- A condition in a scope of its own. -/
theorem Holds.condition {R : Option IndexedVar} {condition : Expr} {list : ActionList}
    (holds : Holds P base (.expr condition) s.opened c s₁)
    (lowers : Lowers (.expr condition) s.opened c [x] s₁)
    (closes : Closes (s₁.withList list) pops s₂) (grants : s₂.Grants P base)
    (behind : s.Behind P base) (own : s.Own N P R) :
    c.ReturnsIn P R ∧ ActsIn P pops ∧ s₂.Behind P base ∧ s₂.Own N P R ∧ s.Steady s₂ ∧
      s₂.scopes = s.scopes := by
  have inner := holds R (grants.of_grows closes.grows).withList behind.opened (.expr _)
  have same := closes.scopes lowers.steady.scopes
  have steady : s.Steady s₂ := .inScope (lowers.steady.withList list) closes
  exact ⟨inner.code, closes.acts_in ((inner.withList list).top N (UnitState.top_cons .empty rfl)),
    behind.next steady, own.same steady same, steady, same⟩

/-- A block in a body. -/
theorem Holds.block {R : Option IndexedVar} {body : List Stmt}
    (holds : Holds P base (.block body) s c t) (grants : t.Grants P base) (behind : s.Behind P base)
    (assigns : Assigns N (Source.kindsOf body)) (own : s.Own N P R) : c.ReturnsIn P R :=
  (holds R grants behind (.within rfl assigns own)).code

/-- A loop with a condition. -/
theorem Holds.loop {condition : Expr} {body step : List Stmt}
    (list list' list'' list''' : ActionList)
    (h₁ : Lowers (.expr condition) (s.looping list).opened c [x] s₁)
    (closes : Closes (s₁.withList list') pops s₂) (h₂ : Lowers (.block body) s₂ d [] s₃)
    (h₃ : Lowers (.block step) (s₃.looped list'') e [] s₄)
    (k₁ : Holds P base (.expr condition) (s.looping list).opened c s₁)
    (k₂ : Holds P base (.block body) s₂ d s₃)
    (k₃ : Holds P base (.block step) (s₃.looped list'') e s₄) :
    Holds P base (.loop condition body step) s
      (.loop (.seq c (.seq (.test x.negate) (.seq (.acts pops) d))) e pops)
      (s₄.withList list''') := by
  intro R grants behind placed
  obtain ⟨N, assigns, own⟩ := placed.own trivial
  have grants₃ : s₃.Grants P base :=
    (grants.withList.of_grows h₃.steady.grows).of_grows (.elsewhere ..)
  obtain ⟨condition, touched, behind₂, own₂, steady, same⟩ := k₁.condition h₁ closes
    (grants₃.of_grows h₂.steady.grows) ⟨behind.later, behind.regions⟩ (own.looping list)
  have steady₃ : s.Steady (s₃.looped list'') := .inLoop (steady.trans h₂.steady) list''
  -- behind the body the scopes are those from before the loop
  have same₃ : s₃.scopes = s.scopes := (h₂.scopes_eq trivial).trans same
  have pass := k₂.block grants₃ behind₂ (assigns.subset (List.subset_append_left _ _)) own₂
  have step := k₃.block grants.withList (behind.next steady₃)
    (assigns.subset (List.subset_append_right _ _)) (own.same steady₃ same₃)
  exact .between ⟨.seq condition (.seq trivial (.seq touched pass)), step, touched⟩
    ((h₃.scopes_eq trivial).trans same₃)

/-- A loop over an array. -/
theorem Holds.forEach {element : String} {index : Option String} {array : Expr} {body : List Stmt}
    {name : String} {v : Variable} {declared zero next pops' : List Action}
    (list list' list'' : ActionList)
    (h₁ : Lowers (.expr array) s c [x] s₁) (named : Emits (indexName index) s₁.opened [] name s₂)
    (declares : Emits (declare name none false) s₂ declared v s₃)
    (hzero : v.set "foreach index" (.ofNat 0) [] = .ok zero)
    (h₂ : Lowers (.stmts body)
      { (s₃.looping list).withList list' with
        scopes := ⟨[(element, .reference (.itemAt x v.get))], [], []⟩ :: s₃.scopes } d [] s₄)
    (closes : Closes s₄ pops s₅)
    (hnext : v.set "foreach index" (v.get.add (.ofNat 1)) [] = .ok next)
    (closes' : Closes (s₅.looped list'') pops' s₆) (k₁ : Holds P base (.expr array) s c s₁)
    (k₂ : Holds P base (.stmts body)
      { (s₃.looping list).withList list' with
        scopes := ⟨[(element, .reference (.itemAt x v.get))], [], []⟩ :: s₃.scopes } d s₄) :
    Holds P base (.kind (.forEach element index array body)) s
      (.seq c (.seq (.acts (declared ++ zero))
        (.seq (.loop (.seq (.test (.compare v.get .greaterEqual (.countOf x)))
          (.seq d (.acts pops))) (.acts next) []) (.acts pops')))) s₆ := by
  intro R grants behind placed
  obtain ⟨N, assigns, own⟩ := placed.own trivial
  have grants₅ : s₅.Grants P base := (grants.of_grows closes'.grows).of_grows (.elsewhere ..)
  have grants₄ : s₄.Grants P base := grants₅.of_grows closes.grows
  have grants₃ : s₃.Grants P base := (grants₄.of_grows h₂.steady.grows).of_grows (.elsewhere ..)
  have grants₂ := grants₃.of_grows declares.extends'.grows
  have grants₁ : s₁.Grants P base :=
    (grants₂.of_grows named.extends'.grows).of_grows (.withScopes s₁ _)
  -- the array, and the index in the scope of the loop
  have array := k₁ R grants₁ behind (.expr _)
  have own₁ := (own.next h₁.steady (array.top N own.top)).surrounded .empty
  have behind₁ := (behind.next h₁.steady).opened
  have behind₂ := behind₁.next named.extends'.steady
  have behind₃ := behind₂.next declares.extends'.steady
  have name := named.held R (.indexName index) grants₂ behind₁
  have position := declares.held R (Stays.rules.declare _ _ _) grants₃ behind₂
  have inside := grants₃.declared behind₂.later declares
  have own₃ := own₁.next (named.extends'.steady.trans declares.extends'.steady)
    (position.top N (name.top N own₁.top))
  -- the passes
  have looping := (own₃.looping list).same ((UnitState.Steady.refl _).withList list') rfl
  have body := k₂ R grants₄ ⟨behind₃.later, behind₃.regions⟩
    (.within rfl (assigns.subset (List.subset_cons_self _ _))
      (looping.surrounded (.of_reference element _)))
  have pass :=
    Held.inScope (N := N) (s := (s₃.looping list).withList list') (.of_reference element _) body
    h₂.steady closes
  have same : s₅.scopes = s₃.scopes := closes.scopes h₂.steady.scopes
  have growing : ScopesGrow (.empty :: s₁.scopes) (s₅.looped list'').scopes := by
    change ScopesGrow s₁.opened.scopes s₅.scopes
    rw [same]
    exact named.extends'.scopes.trans declares.extends'.scopes
  have popped := closes'.acts_in (own₃.top.of_scopes same)
  have code := array.code
  have start : ActsIn P (declared ++ zero) := position.code.append (inside.set hzero)
  refine ⟨code.seq (.seq start (.seq ⟨.seq trivial pass.code, inside.set hnext, .nil⟩ popped)),
    fun N top => ?_⟩
  exact (array.top N top).of_scopes (closes'.scopes growing)

/-- Every piece of the source becomes code that writes to slots that are handed out on the way, to
the storage of instances, or to what the calls back into an open region write. -/
theorem Lowers.stays (h : Lowers task s c xs t) : Holds P base task s c t := by
  induction h with
  | nil | stmts_nil | fields_nil | statics_nil | arms_nil => exact fun _ _ _ _ => .nothing
  | cons h₁ h₂ k₁ k₂ =>
    intro R grants behind _
    exact (k₁ R (grants.of_grows h₂.steady.grows) behind (.expr _)).seq
      (k₂ R grants (behind.next h₁.steady) (.exprs _))
  | node _ _ k => exact fun R grants behind _ => k R grants behind (.exprs _)
  | var _ | this _ => exact fun _ _ _ _ => .nothing
  | field h₁ e k =>
    intro R grants behind _
    exact (k R (grants.of_grows e.extends'.grows) behind (.expr _)).after
      (e.held R (.fieldVar _ _ _) grants (behind.next h₁.steady))
  | staticField e => exact fun R grants behind _ => e.held R (.staticVar _ _) grants behind
  | actorVar _ _ k => exact fun R grants behind _ => k R grants behind (.expr _)
  | call e _ h₁ h₂ h₃ k₁ k₂ k₃ =>
    intro R grants behind _
    have grants₂ := grants.of_grows h₃.steady.grows
    have behind₁ := behind.next h₁.steady
    exact (k₁ R (grants₂.of_grows h₂.steady.grows) behind (.exprs _)).seq
      ((k₂ R grants₂ behind₁ (.exprs _)).seq (k₃ R grants (behind₁.next h₂.steady)
        (.outside rfl id)))
  | new h₁ h₂ k₁ k₂ =>
    intro R grants behind _
    exact (k₁ R (grants.of_grows h₂.steady.grows) behind (.exprs _)).seq
      (k₂ R grants (behind.next h₁.steady) (.outside rfl id))
  | @body key _ _ _ _ result s _ _ _ _ _ _ list e h closes k =>
    intro R grants behind placed
    have grants₂ := grants.of_left.of_grows closes.grows
    have grants₁ := grants₂.of_grows h.steady.grows
    have entered : (s.opened.entered (s.expanded (some key) result)).Behind P base :=
      ⟨behind.later, behind.regions⟩
    have bound := e.held none (Stays.rules.bindCall _ _ _) grants₁ entered
    -- the body sees a scope of its own, and none of its caller's
    have own : (s.opened.entered (s.expanded (some key) result)).Own (fun _ => True) P result :=
      .entered rfl .empty rfl (Nat.le_refl _) rfl rfl
    have own₁ := own.next e.extends'.steady (bound.top _ own.top)
    have body :=
      k result grants₂ (entered.next e.extends'.steady) (.within rfl (fun _ _ _ _ => trivial) own₁)
    have pops := closes.acts_in (body.top _ own₁.top)
    exact .between ⟨bound.code, body.code.writesIn placed.inside, pops⟩
      (closes.scopes (e.extends'.steady.trans h.steady).scopes)
  | inline _ e h e' k =>
    intro R grants behind _
    have grants₂ := grants.of_grows e'.extends'.grows
    have grants₁ := grants₂.of_grows h.steady.grows
    have behind₁ := behind.next e.extends'.steady
    have result := grants₁.temp behind.later e
    have body := k R grants₂ behind₁ ⟨fun v h => by cases h; exact result, False.elim⟩
    exact (e.held R (.temp _) grants₁ behind).before
      (body.seq (e'.held R (Stays.rules.materialize _) grants (behind₁.next h.steady)))
  | @reenter _ receiver arguments s index region _ _ _ list continuation _ found e =>
    intro R grants behind _
    -- what the call runs belongs to the region, so here only its entry writes
    have inside := behind.regions region (List.mem_of_getElem? (findRegion?_at found))
    have noted := behind.next (.noteCall s index continuation)
    have called :
      Held P R s (.reenter index region.callSites.length (callEntry region receiver arguments))
        ((noteCall s index continuation).withList list) :=
      .between (inside.entry receiver arguments) rfl
    exact called.seq (e.held R (Stays.rules.materialize _) grants (noted.withList list))
  | region list list' list'' _ _ e₁ e₂ e₃ h open' closes e₄ k =>
    intro R grants behind _
    have steady :=
      (UnitState.Steady.aroundRegion e₃.extends'.steady h.steady open' closes).withList list''
    have grants₅ := grants.of_grows e₄.extends'.grows
    have grants₂ := grants₅.of_grows steady.grows
    have grants₁ := grants₂.of_grows e₂.extends'.grows
    have behind₁ := behind.next e₁.extends'.steady
    have behind₂ := behind₁.next e₂.extends'.steady
    refine (e₁.held R (.temp _) grants₁ behind).before ((e₂.held R (.temp _) grants₂ behind₁).before
      (.seq (.withList ?_ list'') (e₄.held R (Stays.rules.materialize _) grants
        (behind₂.next steady))))
    exact .region list list' e₃ h closes k grants₅.withList behind₂ (grants₁.temp behind.later e₁)
      (grants₂.temp behind₁.later e₂)
  | @make _ _ _ _ _ _ _ _ _ _ _ _ s₃ _ _ _ _ _ s₄ _ _ _ _ _ _ named declares _ prepared acquires
      acquired stored h₁ h₂ k₁ k₂ =>
    intro R grants behind _
    have grants₅ := grants.of_grows h₂.steady.grows
    have grants₄ := grants₅.of_grows h₁.steady.grows
    have grants₃ := grants₄.of_grows acquired.extends'.grows
    have grants₂ := grants₃.of_grows prepared.extends'.grows
    have behind₁ := behind.next named.extends'.steady
    have behind₂ := behind₁.next declares.extends'.steady
    have behind₄ := (behind₂.next prepared.extends'.steady).next acquired.extends'.steady
    have name := named.held R (.hiddenName _) (grants₂.of_grows declares.extends'.grows) behind
    have handle := declares.held R (Stays.rules.declare _ _ _) grants₂ behind₁
    have prepare := prepared.held R (.onStorage (.prepare _)) grants₃ behind₂
    have same : s₄.scopes = s₃.scopes := by
      obtain ⟨_, -, rfl⟩ := run_onStorage_ok.1 acquired.run
      rfl
    have acquire := Held.acquire (R := R) acquires (grants₂.declared behind₁.later declares)
      (grants₄.storage _ (ClassData.mem_locations_of_table stored)) same
    have initials := k₁ R grants₅ behind₄ (.outside rfl id)
    have built := k₂ R grants (behind₄.next h₁.steady) ⟨fun v h => (by cases h), False.elim⟩
    exact name.before (handle.seq (prepare.before (acquire.seq (initials.seq built))))
  | @initials this _ _ _ _ _ _ list h closes k =>
    intro R grants behind _
    have inner := k none (grants.of_left.of_grows closes.grows) ⟨behind.later, behind.regions⟩
      (.outside rfl id)
    have top := inner.top (fun _ => True) (UnitState.top_cons (.of_reference "this" this) rfl)
    exact .between ⟨inner.code.writesIn nofun, closes.acts_in top⟩ (closes.scopes h.steady.scopes)
  | fields_cons list h₁ e h₂ k₁ k₂ =>
    intro R grants behind _
    have grants₂ := (grants.of_grows h₂.steady.grows).withList
    have behind₁ := behind.next h₁.steady
    have initial := (k₁ R (grants₂.of_grows e.extends'.grows) behind (.exprs _)).after
      (e.held R (.onStorage (.fieldStack _)) grants₂ behind₁)
    have stack := grants₂.storage _ (run_fieldStack_location e.run)
    exact initial.seq ((Held.store stack list).seq
      (k₂ R grants ((behind₁.next e.extends'.steady).withList list) (.outside rfl id)))
  | statics_cons list h₁ e h₂ k₁ k₂ =>
    intro R grants behind _
    have grants₂ := (grants.of_grows h₂.steady.grows).withList
    have behind₁ := behind.next h₁.steady
    have initial := (k₁ R (grants₂.of_grows e.extends'.grows) behind (.expr _)).after
      (e.held R (.staticVar _ _) grants₂ behind₁)
    have place := grants₂.storage _ (run_staticVar_location e.run)
    exact initial.seq ((Held.store place list).seq
      (k₂ R grants ((behind₁.next e.extends'.steady).withList list) (.outside rfl id)))
  | @stmt _ span s _ s₁ h k =>
    intro R grants behind placed
    have grants₁ : s₁.Grants P base := grants.of_grows (.elsewhere ..)
    obtain ⟨N, assigns, own⟩ := placed.own trivial
    have held := k R grants₁ ⟨behind.later, behind.regions⟩
      (.within rfl assigns (own.same ((UnitState.Steady.refl s).span span) rfl))
    exact ⟨held.code, held.top⟩
  | stmts_cons h₁ h₂ k₁ k₂ =>
    intro R grants behind placed
    obtain ⟨N, assigns, own⟩ := placed.own trivial
    have first := k₁ R (grants.of_grows h₂.steady.grows) behind
      (.within rfl (assigns.subset (List.subset_append_left _ _)) own)
    exact first.seq (k₂ R grants (behind.next h₁.steady)
      (.within rfl (assigns.subset (List.subset_append_right _ _))
        (own.next h₁.steady (first.top N own.top))))
  | block h closes k =>
    intro R grants behind placed
    obtain ⟨N, assigns, own⟩ := placed.own trivial
    have inner := k R (grants.of_grows closes.grows) behind.opened
      (.within rfl assigns (own.surrounded .empty))
    exact .inScope (N := N) .empty inner h.steady closes
  | define h e k =>
    intro R grants behind _
    exact (k R (grants.of_grows e.extends'.grows) behind (.exprs _)).seq
      (e.held R (Stays.rules.declare _ _ _) grants (behind.next h.steady))
  | @assign target _ _ _ _ _ _ _ _ _ _ _ _ _ _ _ _ list h₁ h₂ e h₃ set k₁ k₂ k₃ =>
    intro R grants behind placed
    obtain ⟨N, assigns, own⟩ := placed.own trivial
    have grants₃ := grants.withList.of_grows h₃.steady.grows
    have grants₂ := grants₃.of_grows e.extends'.grows
    have behind₁ := behind.next h₁.steady
    have behind₂ := behind₁.next h₂.steady
    have index := k₁ R (grants₂.of_grows h₂.steady.grows) behind (.exprs _)
    have object := k₂ R grants₂ behind₁ (.exprs _)
    have own₁ := own.next h₁.steady (index.top N own.top)
    have own₂ := own₁.next h₂.steady (object.top N own₁.top)
    have named (name) (h : target = .var name) : N name := by
      subst h
      exact assigns _ (Source.StmtKind.mem_kinds _) _ rfl
    have target := object.after (e.held R (.resolveTarget _ _) grants₃ behind₂)
    have value := k₃ R grants.withList (behind₂.next e.extends'.steady) (.expr _)
    exact index.seq (target.seq (value.seq (.write (own₂.target named grants₃ e.run) set list)))
  | assignActor list h₁ e h₂ h₃ set k₁ k₂ k₃ =>
    intro R grants behind placed
    obtain ⟨N, assigns, own⟩ := placed.own trivial
    have grants₂ := grants.withList.of_grows h₃.steady.grows
    have behind₁ := behind.next h₁.steady
    have index := k₁ R (grants₂.of_grows h₂.steady.grows) behind (.exprs _)
    have actor := k₂ R grants₂ behind₁ (.expr _)
    have value := k₃ R grants.withList (behind₁.next h₂.steady) (.expr _)
    have own₁ := own.next h₁.steady (index.top N own.top)
    have named := assigns _ (Source.StmtKind.mem_kinds _) _ rfl
    exact index.seq
      (actor.seq (value.seq (.write (own₁.lookup named (run_actorVar_ok e.run).2.1) set list)))
  | cond list h k =>
    intro R grants behind placed
    obtain ⟨N, assigns, own⟩ := placed.own trivial
    exact (k R grants.withList behind (.within rfl
      (assigns.subset Task.kinds_cond) own)).withList list
  | «while» h k =>
    intro R grants behind placed
    obtain ⟨N, assigns, own⟩ := placed.own trivial
    exact k R grants behind (.within rfl (assigns.subset Task.kinds_while) own)
  | «for» h₁ h₂ closes k₁ k₂ =>
    intro R grants behind placed
    have grants₂ := grants.of_grows closes.grows
    obtain ⟨N, assigns, own⟩ := placed.own trivial
    have own := own.surrounded .empty
    have first := k₁ R (grants₂.of_grows h₂.steady.grows) behind.opened
      (.within rfl (assigns.subset Task.kinds_start) own)
    have loop := k₂ R grants₂ (behind.opened.next h₁.steady)
      (.within rfl (assigns.subset Task.kinds_for) (own.next h₁.steady (first.top N own.top)))
    have popped := closes.acts_in (loop.top N (first.top N own.top))
    exact .between (first.code.seq (loop.code.seq popped))
      (closes.scopes (h₁.steady.trans h₂.steady).scopes)
  | forEach list list' list'' h₁ e₁ e₂ zero h₂ closes next closes' k₁ k₂ =>
    exact .forEach list list' list'' h₁ e₁ e₂ zero h₂ closes next closes' k₁ k₂
  | «break» list skip found reached _ =>
    intro R _ _ placed
    obtain ⟨N, assigns, frame, frames, found', owns⟩ := placed.own trivial
    cases found.symm.trans found'
    exact .between (.seq (owns.pops_loop reached) trivial) rfl
  | «continue» list skip found reached _ =>
    intro R _ _ placed
    obtain ⟨N, assigns, frame, frames, found', owns⟩ := placed.own trivial
    cases found.symm.trans found'
    exact .between (.seq (owns.pops_loop reached) trivial) rfl
  | «return» list skip h found k =>
    intro R grants behind placed
    obtain ⟨N, assigns, own⟩ := placed.own trivial
    have value :=
      k R (grants.of_grows (UnitState.Steady.addReturn found _ _).grows) behind (.exprs _)
    -- the value goes where the body leaves its result, and the scopes up to its own are popped
    obtain ⟨frame, frames, found', owns⟩ := own.next h.steady (value.top N own.top)
    cases found.symm.trans found'
    rw [owns.result]
    exact ⟨value.code.seq (Or.inr ⟨_, _, rfl, rfl, owns.pops owns.floor⟩), value.top⟩
  | delete h e k =>
    intro R grants behind _
    exact (k R (grants.of_grows e.extends'.grows) behind (.expr _)).seq
      (e.held R (.deleteHandle _ _) grants (behind.next h.steady))
  | blockKind h k =>
    intro R grants behind placed
    obtain ⟨N, assigns, own⟩ := placed.own trivial
    exact k R grants behind (.within rfl (assigns.subset (List.subset_cons_self _ _)) own)
  | arms_otherwise h k =>
    intro R grants behind placed
    obtain ⟨N, assigns, own⟩ := placed.own trivial
    exact k R grants behind (.within rfl (assigns.subset Task.kinds_otherwise) own)
  | exprKind h k => exact fun R grants behind _ => k R grants behind (.expr _)
  | arms_last list list' h₁ closes h₂ k₁ k₂ =>
    intro R grants behind placed
    obtain ⟨N, assigns, own⟩ := placed.own trivial
    have grants₃ := grants.withList
    obtain ⟨condition, -, behind₂, own₂, -, same⟩ := k₁.condition h₁ closes
      (grants₃.of_grows h₂.steady.grows) behind own
    have body := k₂.block grants₃ behind₂ (assigns.subset Task.kinds_arm) own₂
    exact .between (condition.seq body) ((h₂.scopes_eq trivial).trans same)
  | arms_cons list list' h₁ closes h₂ h₃ k₁ k₂ k₃ =>
    intro R grants behind placed
    obtain ⟨N, assigns, own⟩ := placed.own trivial
    have grants₃ := (grants.of_grows h₃.steady.grows).withList
    obtain ⟨condition, touched, behind₂, own₂, steady, same⟩ := k₁.condition h₁ closes
      (grants₃.of_grows h₂.steady.grows) behind own
    have same₃ := (h₂.scopes_eq trivial).trans same
    have steady₃ := (steady.trans h₂.steady).withList list'
    have body := k₂.block grants₃ behind₂ (assigns.subset Task.kinds_arm) own₂
    have others := k₃ R grants (behind.next steady₃)
      (.within rfl (assigns.subset Task.kinds_arms) (own.same steady₃ same₃))
    exact .between (condition.seq ⟨.seq touched body, .seq touched others.code⟩)
      ((h₃.scopes_eq trivial).trans same₃)
  | loop list list' list'' list''' h₁ closes h₂ h₃ k₁ k₂ k₃ =>
    exact .loop list list' list'' list''' h₁ closes h₂ h₃ k₁ k₂ k₃

end

end SkipCode
