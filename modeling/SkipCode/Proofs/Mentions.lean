import SkipCode.Proofs.Footprint
import SkipCode.Proofs.Layouts
import SkipCode.Proofs.Slots

/-!
# What the state of a unit mentions

Everything that lowering writes comes from three sources: slots that were handed out and noted, the
storage of instances, and the elements and variables that the state already holds.

* `Expr.Admitted`: the sources name no actor, unless the property of cells admits them all;
* `Known`: all places that a unit knows have the property;
* `UnitState.Confined`: all that its state mentions has the property;
* `ClassStorage.Confines`: what a step on the storage of instances mentions has it too.
-/

namespace SkipCode

open Lower
open Source (Expr Place Stmt StmtKind)

variable {Q : Cell → Prop}

/-! ## Sources -/

/-- An expression that reads the variable of an actor. -/
def Source.Expr.namesActor : Expr → Bool
  | .actorVar .. => true
  | _ => false

def Source.Place.namesActor : Place → Bool
  | .actorVar .. => true
  | _ => false

/-- The target that a statement assigns. -/
def Source.StmtKind.target? : StmtKind → Option Place
  | .assign target _ _ _ => some target
  | _ => none

/-- An expression names no actor, unless the property admits them all. -/
def Source.Expr.Admitted (Q : Cell → Prop) (e : Expr) : Prop :=
  ∀ part ∈ e.parts, part.namesActor = true → Foreign Q

/-- The same of a statement, apart from the statements in it. -/
structure Source.StmtKind.Admitted (Q : Cell → Prop) (k : StmtKind) : Prop where
  exprs : ∀ e ∈ k.exprs, e.Admitted Q
  target : ∀ place, k.target? = some place → place.namesActor = true → Foreign Q

/-- The same of all statements of a body. -/
def Admitted (Q : Cell → Prop) (kinds : List StmtKind) : Prop := ∀ k ∈ kinds, k.Admitted Q

/-- Fewer statements name fewer actors. -/
theorem Admitted.subset {a b : List StmtKind} (h : Admitted Q b) (sub : a ⊆ b) : Admitted Q a :=
  fun k hk => h k (sub hk)

/-- Where a property admits all actors, every source is admitted. -/
theorem Source.Expr.admitted_of_foreign (h : Foreign Q) (e : Expr) : e.Admitted Q := fun _ _ _ => h

/-- A property of cells that all actors have admits any source. -/
theorem admitted_of_foreign (h : Foreign Q) (kinds : List StmtKind) : Admitted Q kinds :=
  fun _ _ => ⟨fun e _ => e.admitted_of_foreign h, fun _ _ _ => h⟩

/-- The initial values of the fields of a program. -/
def ClassTable.initials (t : ClassTable) : List Expr :=
  t.decls.flatMap fun d => d.fields.filterMap (·.initial)

/-- What a field starts with is among the initial expressions of its table. -/
theorem ClassTable.fieldInitials_mem {t : ClassTable} {className : String}
    {fields : List (Nat × Option Expr)} (h : Lower.fieldInitials t className = .ok fields)
    {stack : Nat} {e : Expr} (mem : (stack, some e) ∈ fields) : e ∈ t.initials := by
  obtain ⟨slots, -, h⟩ := except_bind_ok.1 h
  have all := except_mapM_ok.1 h
  obtain ⟨i, hi, same⟩ := List.getElem_of_mem mem
  obtain ⟨f, found, made⟩ := except_bind_ok.1 (all.get (all.length_eq ▸ hi) hi)
  rw [List.get_eq_getElem, List.get_eq_getElem, same] at made
  have initial : f.initial = some e := congrArg Prod.snd (Except.ok.inj made)
  obtain ⟨d, declared, found⟩ := except_bind_ok.1 found
  unfold ClassTable.decl at declared
  split at declared
  · next hd =>
    cases declared
    split at found
    · next own =>
      cases found
      have field := (List.mem_filter.1 (List.mem_of_find?_eq_some own)).1
      exact List.mem_flatMap.2 ⟨d, List.mem_of_find?_eq_some hd,
        List.mem_filterMap.2 ⟨f, field, initial⟩⟩
    · cases found
  · cases declared

/-- So is what a static field starts with. -/
theorem ClassTable.staticInitials_mem {t : ClassTable} {className field : String} {e : Expr}
    (mem : (className, field, e) ∈ t.decls.flatMap Source.ClassDecl.staticInitials) :
    e ∈ t.initials := by
  obtain ⟨d, hd, mem⟩ := List.mem_flatMap.1 mem
  obtain ⟨f, hf, made⟩ := List.mem_filterMap.1 mem
  obtain ⟨initial, he, made⟩ := Option.map_eq_some_iff.1 made
  cases made
  exact List.mem_flatMap.2 ⟨d, hd, List.mem_filterMap.2 ⟨f, (List.mem_filter.1 hf).1, he⟩⟩

/-! ## States -/

/-- Giving slots back leaves the storage of instances as it is. -/
theorem Session.classData_freed {owned : List (Pool × UInt32)} {a b : Session}
    (h : owned.foldlM Session.free a = .ok b) : b.classData = a.classData := by
  induction owned generalizing a with
  | nil =>
    cases h
    rfl
  | cons p rest ih =>
    rw [List.foldlM_cons] at h
    obtain ⟨σ, freed, h⟩ := except_bind_ok.1 h
    obtain ⟨q, -, freed⟩ := except_bind_ok.1 freed
    cases freed
    rw [ih h, Session.classData_setSlotPool]

/-- The places that a unit knows: those of its symbols and those of the storage of instances. -/
def UnitState.places (s : UnitState) : List Location :=
  s.symbols.map Symbol.location ++ s.session.classData.locations

/-- All places that a unit knows have the property. -/
def Known (Q : Cell → Prop) (s : UnitState) : Prop := ∀ l ∈ s.places, Q l.cell

/-- What all places have is had by fewer. -/
theorem Known.of_places {s t : UnitState} (h : Known Q t) (sub : s.places ⊆ t.places) : Known Q s :=
  fun l hl => h l (sub hl)

structure Scope.Confined (Q : Cell → Prop) (scope : Scope) : Prop where
  bindings : ∀ b ∈ scope.bindings, b.2.Confined Q
  exits : ∀ v ∈ scope.exits, v.stack.Confined Q

structure Region.Confined (Q : Cell → Prop) (r : Region) : Prop where
  params : ∀ v ∈ r.params, v.stack.Confined Q
  this : ∀ v, r.this = some v → v.stack.Confined Q
  returnAddress : r.returnAddress.stack.Confined Q
  argumentTemps : ∀ v ∈ r.argumentTemps, v.Confined Q
  thisTemp : ∀ v, r.thisTemp = some v → v.Confined Q
  result : r.result.Confined Q

/-- All that a state mentions has the property, and its sources name no actor that it does not
admit. -/
structure UnitState.Confined (Q : Cell → Prop) (s : UnitState) : Prop where
  list : ActsConfined Q s.list.toList
  scopes : ∀ scope ∈ s.scopes, scope.Confined Q
  results : ∀ frame ∈ s.frames, ∀ v, frame.result = some v → v.Confined Q
  regions : ∀ region ∈ s.regions, region.Confined Q
  /-- What is in the storage is whole slots. -/
  storage : ∀ v ∈ s.session.classData.vars, v.path = []
  bodies : ∀ body ∈ s.session.bodies, Admitted Q (Source.kindsOf body)
  initials : ∀ e ∈ s.session.classes.initials, e.Admitted Q

theorem Scope.confined_empty : Scope.empty.Confined Q := ⟨nofun, nofun⟩

/-- A stack is popped from its own cell. -/
theorem RecursiveVar.confined_pops {exits : List RecursiveVar}
    (h : ∀ v ∈ exits, v.stack.Confined Q) :
    ActsConfined Q (exits.flatMap fun v => v.popActions none) :=
  .flatMap fun v hv => confined_pop (h v hv)

namespace UnitState.Confined

variable {s : UnitState}

/-- The list may be exchanged for another confined one. -/
theorem withList (h : s.Confined Q) {list : ActionList} (hl : ActsConfined Q list.toList) :
    ({ s with list := list } : UnitState).Confined Q :=
  { h with list := hl }

/-- So may the scopes. -/
theorem withScopes (h : s.Confined Q) {scopes : List Scope}
    (hs : ∀ scope ∈ scopes, scope.Confined Q) :
    ({ s with scopes := scopes } : UnitState).Confined Q :=
  { h with scopes := hs }

/-- Confined code may be added. -/
theorem extend (h : s.Confined Q) {actions : List Action} (ha : ActsConfined Q actions) :
    ({ s with list := s.list.extend actions } : UnitState).Confined Q :=
  h.withList (by rw [ActionList.toList_extend]; exact h.list.append ha)

/-- What is popped on the way out is confined, as the scopes are. -/
theorem pendingPops (h : s.Confined Q) (depth : Nat) : ActsConfined Q (pendingPops s depth) :=
  .flatMap fun scope hs => RecursiveVar.confined_pops
    (h.scopes scope (List.mem_of_mem_take hs)).exits

/-- The session may grow, as the storage is known in the end. -/
theorem withSession (h : s.Confined Q) {σ : Session} (grows : s.session.Grows σ)
    (whole : ∀ v ∈ σ.classData.vars, v.path = []) :
    ({ s with session := σ } : UnitState).Confined Q :=
  { h with
    storage := whole
    bodies := by
      show ∀ body ∈ σ.bodies, _
      rw [grows.bodies]
      exact h.bodies
    initials := by
      show ∀ e ∈ σ.classes.initials, _
      rw [grows.classes]
      exact h.initials }

end UnitState.Confined

/-! ## Lists -/

/-- Resolving a skip mentions nothing more. -/
theorem ActsConfined.resolve {list list' : ActionList} {position : Nat} {count : Int32}
    (h : ActsConfined Q list.toList) (done : list.resolve position count = .ok list') :
    ActsConfined Q list'.toList := by
  unfold ActionList.resolve at done
  split at done
  · cases done
  · next action found =>
    have known : action.Confined Q := by
      rw [ActionList.get?_eq_toList] at found
      exact h _ (List.mem_of_getElem? found)
    split at done
    · cases done
    · cases done
    · cases done
      intro a mem
      simp only [ActionList.toList, Array.toList_setIfInBounds] at mem
      rcases List.mem_or_eq_of_mem_set mem with mem | rfl
      · exact h a mem
      · exact known.withCount count

/-- Nor does resolving several. -/
theorem ActsConfined.resolveAllHere {positions : List Nat} {list list' : ActionList}
    (h : ActsConfined Q list.toList)
    (done : positions.foldlM ActionList.resolveHere list = .ok list') :
    ActsConfined Q list'.toList := by
  induction positions generalizing list with
  | nil =>
    cases done
    exact h
  | cons p rest ih =>
    rw [List.foldlM_cons] at done
    obtain ⟨l, hl, done⟩ := except_bind_ok.1 done
    exact ih (h.resolve hl) done

theorem ActsConfined.push {list : ActionList} (h : ActsConfined Q list.toList) {a : Action}
    (ha : a.Confined Q) : ActsConfined Q (list.push a).toList := by
  rw [ActionList.toList_push]
  exact h.append (actsConfined_cons.2 ⟨ha, .nil⟩)

/-- A waiting skip mentions what its condition does. -/
theorem ActsConfined.pushSkip {list : ActionList} (h : ActsConfined Q list.toList)
    {condition : Option Element} (hc : ∀ e, condition = some e → e.Confined Q) :
    ActsConfined Q (list.pushSkip condition).toList := by
  cases condition with
  | none => exact h.push Action.confined_skip
  | some e => exact h.push (Action.confined_skipIf.2 (hc e rfl))

theorem ActsConfined.pushSkipTo {list : ActionList} (h : ActsConfined Q list.toList)
    (target : Nat) :
    ActsConfined Q (list.pushSkipTo target).toList := h.push Action.confined_skip

/-- Confined code may be added to the list. -/
theorem ActsConfined.extend {list : ActionList} (h : ActsConfined Q list.toList)
    {actions : List Action} (ha : ActsConfined Q actions) :
    ActsConfined Q (list.extend actions).toList := by
  rw [ActionList.toList_extend]
  exact h.append ha

/-! ## Steps on the storage of instances -/

namespace ClassStorage

variable {α β γ : Type} {pre pre' : Prop} {P : α → Prop} {R : β → Prop}

/-- What the storage and the list mention has the property, once its places have. -/
structure Confined (Q : Cell → Prop) (s : ClassStorage) : Prop where
  list : ActsConfined Q s.list.toList
  whole : ∀ v ∈ s.data.vars, v.path = []

/-- A step that keeps the storage confined; its answer has a property as well. -/
structure Confines (Q : Cell → Prop) (pre : Prop) (m : Step α) (post : α → Prop) : Prop where
  grows : ∀ s a t, Attempt.run m s = (.ok a, t) → s.data.Grows t.data
  confined : pre → ∀ s a t, Attempt.run m s = (.ok a, t) → (∀ l ∈ t.data.locations, Q l.cell) →
    s.Confined Q → t.Confined Q ∧ post a

namespace Confines

theorem pure {a : α} (h : pre → P a) : Confines Q pre (Pure.pure a : Step α) P := by
  constructor
  · intro s b t e
    cases e
    exact .refl _
  · intro hpre s b t e _ hs
    cases e
    exact ⟨hs, h hpre⟩

theorem lift (x : Except LowerError α) : Confines Q pre (liftM x : Step α) (x = .ok ·) := by
  constructor <;>
  · intros
    simp only [Attempt.run_lift, Prod.mk.injEq] at *
    grind [ClassData.Grows.refl]

/-- Steps on the storage that are confined are so one behind the other. -/
theorem bind {m : Step α} {f : α → Step β} (hm : Confines Q pre m P)
    (hf : ∀ a, Confines Q (pre ∧ P a) (f a) R) : Confines Q pre (m >>= f) R := by
  constructor
  · intro s b t e
    obtain ⟨a, u, h₁, h₂⟩ := Attempt.run_bind_ok.1 e
    exact (hm.grows s a u h₁).trans ((hf a).grows u b t h₂)
  · intro hpre s b t e known hs
    obtain ⟨a, u, h₁, h₂⟩ := Attempt.run_bind_ok.1 e
    have sub := ((hf a).grows u b t h₂).locations
    obtain ⟨hu, ha⟩ := hm.confined hpre s a u h₁ (fun l hl => known l (sub l hl)) hs
    exact (hf a).confined ⟨hpre, ha⟩ u b t h₂ known hu

/-- More may be known before a step. -/
theorem weaken {m : Step α} (h : pre' → pre) (hm : Confines Q pre m P) : Confines Q pre' m P :=
  ⟨hm.grows, fun hpre => hm.confined (h hpre)⟩

/-- Confined code may be emitted. -/
theorem emit {actions : List Action} (h : pre → ActsConfined Q actions) :
    Confines Q pre (ClassStorage.emit actions) fun _ => True := by
  constructor
  · intro s a t e
    cases e
    exact .refl _
  · intro hpre s a t e _ hs
    cases e
    exact ⟨⟨hs.list.extend (h hpre), hs.whole⟩, trivial⟩

/-- A loop of confined steps is confined. -/
theorem forIn {f : γ → PUnit → Step (ForInStep PUnit)}
    (hf : ∀ a b, Confines Q pre (f a b) fun _ => True) (l : List γ) :
    Confines Q pre (ForIn.forIn l PUnit.unit f) fun _ => True := by
  induction l with
  | nil => exact pure fun _ => trivial
  | cons a rest ih =>
    rw [List.forIn_cons]
    refine (hf a _).bind fun step => ?_
    cases step with
    | done b => exact pure fun _ => trivial
    | yield b => exact ih.weaken fun h => h.1

/-- A variable of the storage that is found or made. -/
theorem made {m : Step IndexedVar} (keeps : Keeps m)
    (found : ∀ s v t, Attempt.run m s = (.ok v, t) → v ∈ t.data.vars ∧
      ∀ w ∈ t.data.vars, w ∈ s.data.vars ∨ w.path = []) :
    Confines Q pre m (IndexedVar.Confined Q) := by
  refine ⟨fun s v t e => (keeps s v t e).1, fun _ s v t e known hs => ?_⟩
  obtain ⟨mem, old⟩ := found s v t e
  have whole : ∀ w ∈ t.data.vars, w.path = [] := fun w hw => (old w hw).elim (hs.whole w) id
  refine ⟨⟨(keeps s v t e).2 ▸ hs.list, whole⟩, known _ (List.mem_map_of_mem mem), ?_⟩
  rw [whole v mem]
  exact .nil

/-- A slot that is taken and noted. -/
theorem run_note {owner : String} {f : IndexedVar → ClassData → ClassData} {s t : ClassStorage}
    {v : IndexedVar} (h : Attempt.run (do
      let v ← ClassStorage.allocate owner
      ClassStorage.modifyData (f v)
      return v) s = (.ok v, t)) : v.path = [] ∧ t.data = f v s.data := by
  simp only [ClassStorage.allocate, Attempt.run_bind_ok, Attempt.run_get, Attempt.run_lift,
    Attempt.run_set, Attempt.run_pure, Prod.mk.injEq] at h
  obtain ⟨_, _, ⟨_, _, ⟨⟨⟩, rfl⟩, p, _, ⟨-, rfl⟩, _, _, ⟨-, rfl⟩, ⟨⟩, rfl⟩, _, _, h, ⟨⟩, rfl⟩ := h
  cases h
  exact ⟨rfl, rfl⟩

/-- The table of handles is in the storage. -/
theorem handleTable : Confines Q pre handleTable (IndexedVar.Confined Q) := by
  refine made .handleTable fun s v t h => ⟨by simp [ClassData.vars, run_handleTable_ok h], ?_⟩
  obtain ⟨_, _, ⟨⟩, h⟩ := Attempt.run_bind_ok.1 h
  split at h
  · cases h
    exact fun w hw => Or.inl hw
  · obtain ⟨whole, data⟩ := run_note (f := fun v d => { d with table := some v }) h
    intro w hw
    simp only [data, ClassData.vars, Option.toList_some, List.mem_append,
      List.mem_singleton] at hw ⊢
    rcases hw with (rfl | hw) | hw
    · exact Or.inr whole
    · exact Or.inl (Or.inl (Or.inr hw))
    · exact Or.inl (Or.inr hw)

/-- So is the stack of a field. -/
theorem fieldStack (index : Nat) : Confines Q pre (fieldStack index) (IndexedVar.Confined Q) := by
  refine made (.fieldStack index) fun s v t h => ⟨by simp [ClassData.vars, fieldStack_mem h], ?_⟩
  obtain ⟨_, _, ⟨⟩, h⟩ := Attempt.run_bind_ok.1 h
  dsimp only at h
  split at h
  · cases h
    exact fun w hw => Or.inl hw
  · split at h
    · obtain ⟨_, _, h, -⟩ := Attempt.run_bind_ok.1 h
      cases h
    · obtain ⟨whole, data⟩ :=
        run_note (f := fun v d => { d with fieldStacks := d.fieldStacks ++ [v] }) h
      intro w hw
      simp only [data, ClassData.vars, List.mem_append, List.mem_singleton] at hw ⊢
      rcases hw with (hw | hw | rfl) | hw
      · exact Or.inl (Or.inl (Or.inl hw))
      · exact Or.inl (Or.inl (Or.inr hw))
      · exact Or.inr whole
      · exact Or.inl (Or.inr hw)

/-- So is the slot of a static field. -/
theorem staticField (className field : String) :
    Confines Q pre (staticField className field) (IndexedVar.Confined Q) := by
  refine made (.staticField className field) fun s v t h =>
    ⟨List.mem_append_right _ (staticField_mem h), ?_⟩
  obtain ⟨_, _, ⟨⟩, h⟩ := Attempt.run_bind_ok.1 h
  split at h
  · cases h
    exact fun w hw => Or.inl hw
  · obtain ⟨whole, data⟩ := run_note
      (f := fun v d => { d with statics := d.statics ++ [(className ++ "." ++ field, v)] }) h
    intro w hw
    simp only [data, ClassData.vars, List.map_append, List.mem_append, List.map_cons, List.map_nil,
      List.mem_singleton] at hw ⊢
    rcases hw with hw | hw | rfl
    · exact Or.inl (Or.inl hw)
    · exact Or.inl (Or.inr hw)
    · exact Or.inr whole

theorem forM {f : γ → Step PUnit} (hf : ∀ a, Confines Q pre (f a) fun _ => True) (l : List γ) :
    Confines Q pre (l.forM f) fun _ => True := by
  induction l with
  | nil => exact pure fun _ => trivial
  | cons a rest ih => exact (hf a).bind fun _ => ih.weaken fun h => h.1

theorem prepare (layout : ClassLayout) : Confines Q pre (prepare layout) fun _ => True :=
  .forM (fun index => .bind (.fieldStack index) fun _ => .pure fun _ => trivial) _

/-- A variable of the storage that is written. -/
theorem store {m : Step IndexedVar} (hm : Confines Q pre m (IndexedVar.Confined Q))
    {value : Element} {extra : List Element} (hv : pre → value.Confined Q)
    (he : pre → AllConfined Q extra) :
    Confines Q pre (do ClassStorage.emit ((← m).set value none extra)) fun _ => True :=
  .bind hm fun _ => .emit fun h => h.2.set_none (hv h.1) (he h.1)

/-- Taking a handle mentions the table and the variable for the handle. -/
theorem acquireHandle (config : LowerConfig) {handle : Variable} (hh : pre → handle.Confined Q) :
    Confines Q pre (acquireHandle config handle) fun _ => True := by
  refine .bind .handleTable fun table => .bind (.lift _) fun next => ?_
  dsimp only
  -- what is written is made of the table and of the handle
  have count : pre ∧ table.Confined Q → (Element.countOf (table.get none)).Confined Q :=
    fun h => Element.confined_countOf.2 h.2.get_none
  have rest {pre' : Prop} (hpre : pre' → pre) (hnext : pre' → ActsConfined Q next) :
      Confines Q pre' (do
        ClassStorage.emit next
        ClassStorage.emit [.skipIf (.compare handle.get .less (.ofNat config.classCapacity.toNat))
          (some 1), .abort]
        ClassStorage.emit ((← ClassStorage.handleTable).set (.ofNat 1) none [handle.get])) fun _ =>
          True := by
    have get : pre' → handle.get.Confined Q := fun h => (hh (hpre h)).get
    refine .bind (.emit hnext) fun _ => .bind (.emit fun h => ?_) fun _ =>
      .store .handleTable (fun _ => Element.confined_ofNat 1) fun h => ?_
    · exact actsConfined_cons.2 ⟨Action.confined_skipIf.2 (Element.confined_compare.2
        ⟨get h.1, Element.confined_ofNat _⟩), actsConfined_cons.2 ⟨Action.confined_abort, .nil⟩⟩
    · exact allConfined_cons.2 ⟨get h.1.1, .nil⟩
  split
  · refine .bind (.lift _) fun first => .bind (.emit fun h => ?_) fun _ =>
      .bind (.emit fun h => ?_) fun _ => rest (fun h => h.1.1.1.1.1) fun h => ?_
    · exact (hh h.1.1.1).set (Element.confined_indexOf.2 ⟨h.1.1.2.get_none,
        Element.confined_ofNat 0⟩)
        .nil h.2
    · exact actsConfined_cons.2 ⟨Action.confined_skipIf.2 (Element.confined_compare.2
        ⟨(hh h.1.1.1.1).get, Element.confined_number _⟩), .nil⟩
    · exact (hh h.1.1.1.1.1).set (count h.1.1.1.1) .nil h.1.1.1.2
  · exact rest (fun h => h.1.1) fun h => (hh h.1.1).set (count h.1) .nil h.2

/-- Giving up an instance mentions its handle, the stacks of its fields and the table. -/
theorem release (classes : ClassTable) (className : String) {handle : Element}
    (hh : pre → handle.Confined Q) :
    Confines Q pre (release classes className handle) fun _ => True := by
  have at' {pre' : Prop} (hpre : pre' → pre) : pre' → AllConfined Q [handle] :=
    fun h => allConfined_cons.2 ⟨hh (hpre h), .nil⟩
  refine .bind (.lift _) fun layout => .bind (.prepare _) fun _ => .bind (.lift _) fun fields =>
    .bind (.forIn (fun field _ => ?_) _) fun _ => .store .handleTable
      (fun _ => Element.confined_ofNat 0) (at' fun h => h.1.1.1.1)
  exact .bind (.fieldStack _) fun _ => .bind
    (.emit fun h => h.2.set_none Element.confined_neutral (at' (fun h => h.1.1.1) h.1))
    fun _ => .pure fun _ => trivial

end Confines

end ClassStorage

end SkipCode
