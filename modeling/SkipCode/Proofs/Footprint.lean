import SkipCode.Proofs.Typing

/-!
# What code mentions

A *cell* is a slot as the text of an element or an action names it: its store, which may be that of
an actor still to be computed, and the slot. `Element.cells` and `Action.cells` are all cells that
evaluating an element or executing an action can read or write.

* `Element.Confined`, `Action.Confined`: all cells that are mentioned have a property;
* `IndexedVar.Confined.set`, `Variable.Confined.getFor`: what writes and reads a variable mentions
  its slot and what its path, its value and its actor mention.
-/

namespace SkipCode

/-- A slot as it is mentioned. -/
structure Cell where
  store : Store
  slot : UInt32

/-- The place of a cell, whoever the actor is. -/
def Cell.location (c : Cell) : Location := ⟨c.store.pool, c.slot⟩

mutual

/-- The cells that an element reads. -/
def Element.cells : Element → List Cell
  | .number _ => []
  | .bool _ => []
  | .eventPlayer => []
  | .array items => Element.cellsOf items
  | .variable store slot => ⟨store, slot⟩ :: store.cells
  | .countOf array => array.cells
  | .lastOf array => array.cells
  | .not inner => inner.cells
  | .itemAt array index => array.cells ++ index.cells
  | .append array value => array.cells ++ value.cells
  | .indexOf array value => array.cells ++ value.cells
  | .slice array start count => array.cells ++ (start.cells ++ count.cells)
  | .arithmetic _ lhs rhs => lhs.cells ++ rhs.cells
  | .compare lhs _ rhs => lhs.cells ++ rhs.cells
  | .and lhs rhs => lhs.cells ++ rhs.cells
  | .or lhs rhs => lhs.cells ++ rhs.cells

def Element.cellsOf : List Element → List Cell
  | [] => []
  | item :: rest => item.cells ++ Element.cellsOf rest

/-- The cells that finding an actor reads. -/
def Store.cells : Store → List Cell
  | .global => []
  | .actor who => who.cells

end

/-- The cells that an action reads or writes. -/
def Action.cells : Action → List Cell
  | .set store slot index value =>
    ⟨store, slot⟩ :: (store.cells ++ ((index.map Element.cells).getD [] ++ value.cells))
  | .skipIf condition _ => condition.cells
  | .skip _ => []
  | .abort => []

/-- The cells that running a list can read or write. -/
def ActionList.cells (l : ActionList) : List Cell := l.toList.flatMap Action.cells

/-- The cell of a location in the store of the actor that runs the unit. -/
def Location.cell (l : Location) : Cell := ⟨l.store none, l.slot⟩

/-- A location is that of its own cell. -/
@[simp] theorem Location.location_cell (l : Location) : l.cell.location = l := l.store_pool none

/-! ## Properties of what is mentioned -/

variable {Q : Cell → Prop}

def Element.Confined (Q : Cell → Prop) (e : Element) : Prop := ∀ c ∈ e.cells, Q c

def Store.Confined (Q : Cell → Prop) (st : Store) : Prop := ∀ c ∈ st.cells, Q c

def Action.Confined (Q : Cell → Prop) (a : Action) : Prop := ∀ c ∈ a.cells, Q c

/-- Elements all of which have the property. -/
def AllConfined (Q : Cell → Prop) (es : List Element) : Prop := ∀ e ∈ es, e.Confined Q

/-- Actions all of which have the property. -/
def ActsConfined (Q : Cell → Prop) (actions : List Action) : Prop := ∀ a ∈ actions, a.Confined Q

/-- Wherever a slot of the running actor may be mentioned it may be mentioned for any actor. -/
def Foreign (Q : Cell → Prop) : Prop :=
  ∀ who slot, who.Confined Q → Q ⟨.actor .eventPlayer, slot⟩ → Q ⟨.actor who, slot⟩

@[simp] theorem AllConfined.nil : AllConfined Q [] := nofun

@[simp] theorem allConfined_cons {e : Element} {es : List Element} :
    AllConfined Q (e :: es) ↔ e.Confined Q ∧ AllConfined Q es := List.forall_mem_cons

/-- What two rows of elements mention is what each does. -/
theorem AllConfined.append {es fs : List Element} (h : AllConfined Q es) (h' : AllConfined Q fs) :
    AllConfined Q (es ++ fs) := List.forall_mem_append.2 ⟨h, h'⟩

@[simp] theorem ActsConfined.nil : ActsConfined Q [] := nofun

@[simp] theorem actsConfined_cons {a : Action} {actions : List Action} :
    ActsConfined Q (a :: actions) ↔ a.Confined Q ∧ ActsConfined Q actions := List.forall_mem_cons

/-- Lists that are confined are confined one behind the other. -/
theorem ActsConfined.append {first second : List Action} (h : ActsConfined Q first)
    (h' : ActsConfined Q second) :
    ActsConfined Q (first ++ second) := List.forall_mem_append.2 ⟨h, h'⟩

/-- Code that is put together mentions what its pieces do. -/
theorem ActsConfined.flatMap {γ : Type} {f : γ → List Action} {l : List γ}
    (h : ∀ x ∈ l, ActsConfined Q (f x)) : ActsConfined Q (l.flatMap f) := by
  intro a ha
  obtain ⟨x, hx, ha⟩ := List.mem_flatMap.1 ha
  exact h x hx a ha

namespace Element

@[simp] theorem confined_number (x : Binary64) : (number x).Confined Q := nofun

@[simp] theorem confined_ofNat (n : Nat) : (ofNat n).Confined Q := nofun

@[simp] theorem confined_neutral : neutral.Confined Q := nofun

@[simp] theorem confined_bool (b : Bool) : (bool b).Confined Q := nofun

@[simp] theorem confined_eventPlayer : eventPlayer.Confined Q := nofun

/-- The cells of a row are those of its elements, in order. -/
theorem cellsOf_eq (items : List Element) : cellsOf items = items.flatMap cells := by
  induction items with
  | nil => rfl
  | cons item rest ih => rw [cellsOf, ih, List.flatMap_cons]

/-- An array mentions what its items mention. -/
@[simp] theorem confined_array {items : List Element} :
    (array items).Confined Q ↔ AllConfined Q items := by
  simp only [Confined, cells, cellsOf_eq, List.mem_flatMap, AllConfined]
  exact ⟨fun h e he c hc => h c ⟨e, he, hc⟩, fun h c ⟨e, he, hc⟩ => h e he c hc⟩

/-- A variable mentions its own cell, and what finds the actor. -/
@[simp] theorem confined_variable {st : Store} {slot : UInt32} :
    (Element.variable st slot).Confined Q ↔ Q ⟨st, slot⟩ ∧ st.Confined Q := by
  simp only [Confined, Store.Confined, cells, List.forall_mem_cons]

@[simp] theorem confined_countOf {array : Element} :
    (countOf array).Confined Q ↔ array.Confined Q := Iff.rfl

@[simp] theorem confined_lastOf {array : Element} :
    (lastOf array).Confined Q ↔ array.Confined Q := Iff.rfl

@[simp] theorem confined_not {inner : Element} :
    (not inner).Confined Q ↔ inner.Confined Q := Iff.rfl

@[simp] theorem confined_itemAt {array index : Element} :
    (itemAt array index).Confined Q ↔ array.Confined Q ∧ index.Confined Q := List.forall_mem_append

@[simp] theorem confined_append {array value : Element} :
    (append array value).Confined Q ↔ array.Confined Q ∧ value.Confined Q := List.forall_mem_append

@[simp] theorem confined_indexOf {array value : Element} :
    (indexOf array value).Confined Q ↔ array.Confined Q ∧ value.Confined Q := List.forall_mem_append

@[simp] theorem confined_slice {array start count : Element} :
    (slice array start count).Confined Q ↔ array.Confined Q ∧ start.Confined Q ∧
      count.Confined Q := by
  simp only [Confined, cells, List.forall_mem_append]

@[simp] theorem confined_arithmetic {op : ArithmeticOp} {lhs rhs : Element} :
    (arithmetic op lhs rhs).Confined Q ↔ lhs.Confined Q ∧ rhs.Confined Q := List.forall_mem_append

@[simp] theorem confined_compare {op : Comparison} {lhs rhs : Element} :
    (compare lhs op rhs).Confined Q ↔ lhs.Confined Q ∧ rhs.Confined Q := List.forall_mem_append

@[simp] theorem confined_and {lhs rhs : Element} :
    (and lhs rhs).Confined Q ↔ lhs.Confined Q ∧ rhs.Confined Q := List.forall_mem_append

@[simp] theorem confined_or {lhs rhs : Element} :
    (or lhs rhs).Confined Q ↔ lhs.Confined Q ∧ rhs.Confined Q := List.forall_mem_append

/-! ## Elements that are built -/

@[simp] theorem confined_add {lhs rhs : Element} :
    (add lhs rhs).Confined Q ↔ lhs.Confined Q ∧ rhs.Confined Q := confined_arithmetic

@[simp] theorem confined_subtract {lhs rhs : Element} :
    (subtract lhs rhs).Confined Q ↔ lhs.Confined Q ∧ rhs.Confined Q := confined_arithmetic

/-- Negation changes the form, not what is mentioned. -/
theorem Confined.negate {e : Element} (h : e.Confined Q) : e.negate.Confined Q := by
  cases e with
  | bool b => exact confined_bool _
  | _ => exact h

/-- An operator mentions what its operands mention. -/
@[simp] theorem confined_binary {op : Source.BinaryOp} {lhs rhs : Element} :
    (binary op lhs rhs).Confined Q ↔ lhs.Confined Q ∧ rhs.Confined Q := by
  cases op <;> simp [binary]

/-- So does an array with another item in one place. -/
@[simp] theorem confined_splice {array index value : Element} :
    (splice array index value).Confined Q ↔ array.Confined Q ∧ index.Confined Q ∧
      value.Confined Q := by
  simp only [splice, confined_append, confined_slice, confined_ofNat, confined_array,
    allConfined_cons,
    AllConfined.nil, confined_add]
  tauto

end Element

namespace Action

@[simp] theorem confined_skip {count : Option Int32} : (skip count).Confined Q := nofun

@[simp] theorem confined_abort : abort.Confined Q := nofun

@[simp] theorem confined_skipIf {condition : Element} {count : Option Int32} :
    (skipIf condition count).Confined Q ↔ condition.Confined Q := Iff.rfl

/-- A write mentions the cell that is written, what finds it, and what the value is made of. -/
theorem confined_set {st : Store} {slot : UInt32} {index : Option Element} {value : Element} :
    (set st slot index value).Confined Q ↔
      Q ⟨st, slot⟩ ∧ st.Confined Q ∧ (∀ i, index = some i → i.Confined Q) ∧ value.Confined Q := by
  cases index <;> simp [Confined, Store.Confined, Element.Confined, cells, or_imp, forall_and]

/-- The count of a skip is no mention. -/
theorem Confined.withCount {a : Action} (h : a.Confined Q) (count : Int32) :
    (a.withCount count).Confined Q := by
  cases a <;> exact h

end Action

/-! ## Variables -/

/-- What a variable stands for has the property, as the running actor sees it. -/
structure IndexedVar.Confined (Q : Cell → Prop) (v : IndexedVar) : Prop where
  cell : Q v.location.cell
  path : AllConfined Q v.path

/-- The cell of a variable is the own one at its location. -/
theorem IndexedVar.cell_eq (v : IndexedVar) : v.location.cell = ⟨v.store none, v.slot⟩ := by
  obtain ⟨name, pool, slot, path⟩ := v
  cases pool <;> rfl

def Variable.Confined (Q : Cell → Prop) : Variable → Prop
  | .indexed v => v.Confined Q
  | .recursive v => v.stack.Confined Q
  | .reference e => e.Confined Q

namespace IndexedVar

variable {v : IndexedVar} {actor : Option Element}

/-- A plain variable is confined if its own cell is. -/
theorem confined_plain {name : String} {pool : Pool} {slot : UInt32} :
    (plain name pool slot).Confined Q ↔ Q (Location.mk pool slot).cell :=
  ⟨fun h => h.cell, fun h => ⟨h, .nil⟩⟩

/-- An item of a confined variable is confined. -/
theorem Confined.child (h : v.Confined Q) {index : Element} (hi : index.Confined Q) :
    (v.child index).Confined Q := ⟨h.cell, h.path.append (allConfined_cons.2 ⟨hi, .nil⟩)⟩

/-- The actor may be any that the property admits. -/
theorem Confined.store (h : v.Confined Q)
    (ha : ∀ who, actor = some who → Foreign Q ∧ who.Confined Q) :
    Q ⟨v.store actor, v.slot⟩ ∧ (v.store actor).Confined Q := by
  have cell := v.cell_eq ▸ h.cell
  unfold IndexedVar.store at cell ⊢
  cases hp : v.pool with
  | global =>
    rw [hp] at cell
    exact ⟨cell, nofun⟩
  | actor =>
    rw [hp] at cell
    cases actor with
    | none => exact ⟨cell, nofun⟩
    | some who => exact ⟨(ha who rfl).1 who _ (ha who rfl).2 cell, (ha who rfl).2⟩

/-- Going down along a confined path stays confined. -/
theorem confined_descend {array : Element} {path : List Element} (h : array.Confined Q)
    (hp : AllConfined Q path) : (descend array path).Confined Q := by
  induction path generalizing array with
  | nil => exact h
  | cons index rest ih =>
    obtain ⟨hi, hr⟩ := allConfined_cons.1 hp
    exact ih (Element.confined_itemAt.2 ⟨h, hi⟩) hr

/-- Rebuilding with confined parts is confined. -/
theorem confined_rebuild {array value : Element} {path : List Element} (h : array.Confined Q)
    (hv : value.Confined Q) (hp : AllConfined Q path) : (rebuild array value path).Confined Q := by
  induction path generalizing array with
  | nil => exact hv
  | cons index rest ih =>
    obtain ⟨hi, hr⟩ := allConfined_cons.1 hp
    exact Element.confined_splice.2 ⟨h, hi, ih (Element.confined_itemAt.2 ⟨h, hi⟩) hr⟩

/-- Reading a variable is confined; another actor's only where foreign cells are. -/
theorem Confined.get (h : v.Confined Q) (ha : ∀ who, actor = some who →
    Foreign Q ∧ who.Confined Q) :
    (v.get actor).Confined Q := confined_descend (Element.confined_variable.2 (h.store ha)) h.path

/-- So is writing one. -/
theorem Confined.set (h : v.Confined Q) (ha : ∀ who, actor = some who → Foreign Q ∧ who.Confined Q)
    {value : Element} {extra : List Element} (hv : value.Confined Q) (he : AllConfined Q extra) :
    ActsConfined Q (v.set value actor extra) := by
  obtain ⟨cell, reach⟩ := h.store ha
  have path := h.path.append he
  unfold IndexedVar.set
  split
  · exact actsConfined_cons.2 ⟨Action.confined_set.2 ⟨cell, reach, nofun, hv⟩, .nil⟩
  · next first rest e =>
    rw [e] at path
    obtain ⟨hf, hr⟩ := allConfined_cons.1 path
    have item : (Element.itemAt (v.root actor) first).Confined Q :=
      Element.confined_itemAt.2 ⟨Element.confined_variable.2 ⟨cell, reach⟩, hf⟩
    refine actsConfined_cons.2 ⟨Action.confined_set.2 ⟨cell, reach, fun i hi => ?_,
      confined_rebuild item hv hr⟩, .nil⟩
    cases hi
    exact hf

/-- The running actor is always admitted. -/
theorem Confined.get_none (h : v.Confined Q) : (v.get none).Confined Q :=
  h.get fun _ e => by cases e

/-- For the actor that runs no foreign cells are needed. -/
theorem Confined.set_none (h : v.Confined Q) {value : Element} {extra : List Element}
    (hv : value.Confined Q) (he : AllConfined Q extra) : ActsConfined Q (v.set value none extra) :=
  h.set (fun _ e => by cases e) hv he

end IndexedVar

namespace RecursiveVar

variable {v : RecursiveVar} {actor : Option Element}

theorem confined_new {name : String} {pool : Pool} {slot : UInt32} :
    (new name pool slot).stack.Confined Q ↔ Q (Location.mk pool slot).cell :=
      IndexedVar.confined_plain

/-- A push is confined with its stack. -/
theorem confined_push (h : v.stack.Confined Q) {initial : Element} (hi : initial.Confined Q) :
    ActsConfined Q (v.pushActions initial none) :=
  h.set_none hi (allConfined_cons.2 ⟨Element.confined_countOf.2 h.get_none, .nil⟩)

/-- So is a pop. -/
theorem confined_pop (h : v.stack.Confined Q) : ActsConfined Q (v.popActions none) :=
  h.set_none (Element.confined_slice.2 ⟨h.get_none, Element.confined_ofNat _,
    Element.confined_subtract.2 ⟨Element.confined_countOf.2 h.get_none,
      Element.confined_ofNat _⟩⟩) .nil

end RecursiveVar

namespace Variable

variable {v : Variable} {actor : Option Element}

/-- Reading a variable of either kind is confined. -/
theorem Confined.getFor (h : v.Confined Q)
    (ha : ∀ who, actor = some who → Foreign Q ∧ who.Confined Q) :
    (v.getFor actor).Confined Q := by
  cases v with
  | indexed v => exact IndexedVar.Confined.get h ha
  | recursive v => exact Element.confined_lastOf.2 (IndexedVar.Confined.get h ha)
  | reference e => exact h

/-- So is reading the running actor's own. -/
theorem Confined.get (h : v.Confined Q) : v.get.Confined Q :=
  h.getFor fun _ e => by cases e

/-- So is writing one. -/
theorem Confined.setFor (h : v.Confined Q)
    (ha : ∀ who, actor = some who → Foreign Q ∧ who.Confined Q) {name : String} {value : Element}
    {extra : List Element} {actions : List Action} (hv : value.Confined Q)
    (he : AllConfined Q extra) (ok : v.setFor name value actor extra = .ok actions) :
    ActsConfined Q actions := by
  cases v with
  | indexed v =>
    cases ok
    exact IndexedVar.Confined.set h ha hv he
  | recursive v =>
    cases ok
    have top : (v.top actor).Confined Q := Element.confined_subtract.2
      ⟨Element.confined_countOf.2 (IndexedVar.Confined.get h ha), Element.confined_ofNat _⟩
    exact IndexedVar.Confined.set h ha hv (allConfined_cons.2 ⟨top, he⟩)
  | reference e => cases ok

/-- So is writing the running actor's own. -/
theorem Confined.set (h : v.Confined Q) {name : String} {value : Element} {extra : List Element}
    {actions : List Action} (hv : value.Confined Q) (he : AllConfined Q extra)
    (ok : v.set name value extra = .ok actions) : ActsConfined Q actions :=
  h.setFor (fun _ e => by cases e) hv he ok

end Variable

end SkipCode
