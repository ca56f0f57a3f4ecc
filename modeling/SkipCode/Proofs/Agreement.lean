import SkipCode.Proofs.Holdings
import SkipCode.Proofs.Issued
import SkipCode.Proofs.Meaning
import SkipCode.Proofs.Negation

/-!
# When a memory is what a body means

A state of a body and a memory of the engine agree where each location that the body uses holds what
its box says (`Reads`). An element means a term (`Means`) when it has the term's value, and its
negation the value of the negation, in all memories that agree.
-/

namespace SkipCode

/-- The stack of a field is one of the storage's variables. -/
theorem ClassData.fieldStack_mem {d : ClassData} {i : Nat} {v : IndexedVar}
    (found : d.fieldStacks[i]? = some v) :
    v ∈ d.vars :=
  List.mem_append_left _ (List.mem_append_right _ (List.mem_of_getElem? found))

/-- So is the variable of a static field. -/
theorem ClassData.static_mem {d : ClassData} {key : String} {v : IndexedVar}
    (found : d.statics.lookup key = some v) :
    v ∈ d.vars := by
  obtain ⟨first, rest, e, -⟩ := List.lookup_eq_some_iff.1 found
  refine List.mem_append_right _ (List.mem_map.2 ⟨(key, v), ?_, rfl⟩)
  rw [e]
  exact List.mem_append_right _ List.mem_cons_self

/-- The place of a field's stack is one of class storage. -/
theorem ClassData.fieldStack_location {d : ClassData} {i : Nat} {v : IndexedVar}
    (found : d.fieldStacks[i]? = some v) :
    v.location ∈ d.locations := List.mem_map_of_mem (fieldStack_mem found)

/-- So is the place of a static field. -/
theorem ClassData.static_location {d : ClassData} {key : String} {v : IndexedVar}
    (found : d.statics.lookup key = some v) :
    v.location ∈ d.locations := List.mem_map_of_mem (static_mem found)

namespace Meaning

open Engine (Host Memory)
open Source (BinaryOp Expr)

/-- What a location holds for a body. -/
inductive Content where
  | box (c : Box)
  /-- A value that stays. -/
  | fixed (v : Value)

def Content.value (st : State) : Content → Value
  | box c => st.boxes c
  | fixed v => v

def Content.term : Content → Term
  | box c => .box c
  | fixed v => .value v

/-- A variable's term is its value, with the sign it is read under. -/
theorem Content.eval_term (u : Content) (st : State) (negated : Bool) :
    u.term.eval st negated = signed negated (u.value st) := by
  cases u <;> rw [term, Term.eval, value]

/-- What the locations that a body uses hold. -/
abbrev Layout := Location → Option Content

def Layout.Le (κ κ' : Layout) : Prop := ∀ l u, κ l = some u → κ' l = some u

/-- A layout agrees with itself. -/
theorem Layout.Le.refl (κ : Layout) : κ.Le κ := fun _ _ h => h

/-- Layouts agree through a third. -/
theorem Layout.Le.trans {κ κ' κ'' : Layout} (h : κ.Le κ') (h' : κ'.Le κ'') : κ.Le κ'' :=
  fun l u found => h' l u (h l u found)

/-- The memory has what the boxes say. Locations in `S` are stacks, of which the top counts; the
storage of instances is that of the state `T` at the end of the unit. -/
structure Reads (h : Host) (S : Location → Prop) (T : UnitState) (κ : Layout) (st : State)
    (m : Memory) :
    Prop where
  slot : ∀ l u, κ l = some u → ¬ S l → h.value m l = u.value st
  top : ∀ l u, κ l = some u → S l → ∃ below, (h.value m l).items = below ++ [u.value st]
  field : ∀ (i : Nat) (v : IndexedVar), T.session.classData.fieldStacks[i]? = some v →
    h.value m v.location = st.world.fields i
  static : ∀ owner field v, owner ∈ T.session.classes.decls.map (·.name) →
    T.session.classData.statics.lookup (owner ++ "." ++ field) = some v →
    h.value m v.location = st.world.statics owner field

/-- What holds of a unit that was lowered without reuse and of the engine that runs it. -/
structure Ground (h : Host) (S : Location → Prop) (T : UnitState) : Prop where
  accounts : Accounts S T
  whole : T.session.classData.Whole
  holds : ∀ sym ∈ T.symbols, h.Holds sym.location
  stored : ∀ l ∈ T.session.classData.locations, h.Holds l
  apart : ∀ l ∈ T.session.classData.locations, l ∉ T.symbols.map Symbol.location
  distinct : T.session.classData.locations.Nodup
  limit : h.config.maxArrayLength ≤ 2 ^ 53
  /-- No class has a name with a point, which would be mistaken for the one before a static field.
  -/
  pointless : ∀ d ∈ T.session.classes.decls, '.' ∉ d.name.toList

variable {h : Host} {S : Location → Prop} {T : UnitState} {κ κ' : Layout} {st : State} {m : Memory}

namespace Ground

variable {i j : Nat} {v w : IndexedVar} {owner field owner' field' : String}

/-- Each stack of a field has a location of its own. -/
theorem index_of_location (ground : Ground h S T)
    (found : T.session.classData.fieldStacks[i]? = some v)
    (found' : T.session.classData.fieldStacks[j]? = some w) (same : w.location = v.location) :
    j = i := by
  have distinct := ground.distinct
  rw [ClassData.locations, List.map_append, List.map_append] at distinct
  have distinct := (List.nodup_append.1 (List.nodup_append.1 distinct).1).2.1
  have places : (T.session.classData.fieldStacks.map IndexedVar.location)[j]? =
      (T.session.classData.fieldStacks.map IndexedVar.location)[i]? := by
    rw [List.getElem?_map, List.getElem?_map, found, found', Option.map_some, Option.map_some, same]
  refine (List.getElem?_inj ?_ distinct).1 places
  rw [List.length_map]
  exact (List.getElem?_eq_some_iff.1 found').1

/-- No static field is in the stack of a field. -/
theorem static_ne_field (ground : Ground h S T) {key : String}
    (found : T.session.classData.fieldStacks[i]? = some v)
    (found' : T.session.classData.statics.lookup key = some w) :
    w.location ≠ v.location := by
  have distinct := ground.distinct
  rw [ClassData.locations, List.map_append] at distinct
  obtain ⟨first, rest, e, -⟩ := List.lookup_eq_some_iff.1 found'
  have entry : w ∈ T.session.classData.statics.map (·.2) := by
    rw [e]
    exact List.mem_map.2 ⟨(key, w), List.mem_append_right _ List.mem_cons_self, rfl⟩
  exact ((List.nodup_append.1 distinct).2.2 _
    (List.mem_map_of_mem (List.mem_append_right _ (List.mem_of_getElem? found))) _
      (List.mem_map_of_mem entry)).symm

/-- Each static field has a location of its own. -/
theorem static_of_location (ground : Ground h S T)
    (declared : owner ∈ T.session.classes.decls.map (·.name))
    (declared' : owner' ∈ T.session.classes.decls.map (·.name))
    (found : T.session.classData.statics.lookup (owner ++ "." ++ field) = some v)
    (found' : T.session.classData.statics.lookup (owner' ++ "." ++ field') = some w)
    (same : w.location = v.location) : owner' = owner ∧ field' = field := by
  have distinct := ground.distinct
  rw [ClassData.locations, List.map_append] at distinct
  have distinct := (List.nodup_append.1 distinct).2.1
  obtain ⟨decl, mem, rfl⟩ := List.mem_map.1 declared
  obtain ⟨decl', mem', rfl⟩ := List.mem_map.1 declared'
  suffices Holding.staticField decl'.name field' = .staticField decl.name field by
    exact ⟨(Holding.staticField.inj this).1, (Holding.staticField.inj this).2⟩
  refine Holding.eq_of_key (ground.pointless _ mem') (ground.pointless _ mem)
    (congrArg StorageKey.joined ?_)
  -- both are the same entry, since no two entries have one location
  obtain ⟨first, rest, e, -⟩ := List.lookup_eq_some_iff.1 found
  obtain ⟨first', rest', e', -⟩ := List.lookup_eq_some_iff.1 found'
  rw [List.map_map] at distinct
  have entry := List.inj_on_of_nodup_map distinct (x := (decl'.name ++ "." ++ field', w))
    (by rw [e']; exact List.mem_append_right _ List.mem_cons_self)
      (y := (decl.name ++ "." ++ field, v))
    (by rw [e]; exact List.mem_append_right _ List.mem_cons_self) same
  exact congrArg Prod.fst entry

end Ground

/-- Agreement with a layout is agreement with every smaller one. -/
theorem Reads.mono (reads : Reads h S T κ' st m) (le : κ.Le κ') : Reads h S T κ st m :=
  ⟨fun l u found => reads.slot l u (le l u found), fun l u found => reads.top l u (le l u found),
    reads.field, reads.static⟩

/-- An element has the value of a term, and its negation that of the negation. -/
structure Means (h : Host) (S : Location → Prop) (T : UnitState) (κ : Layout) (x : Element)
    (t : Term) :
    Prop where
  twice : x.negate.negate = x
  value : ∀ st m, Reads h S T κ st m → Engine.eval (h.context m) x = .ok (t.eval st false)
  negation : ∀ st m, Reads h S T κ st m → Engine.eval (h.context m) x.negate = .ok (t.eval st true)

namespace Means

variable {x : Element} {t : Term}

/-- What an element means under a layout it means under every larger one. -/
theorem mono (means : Means h S T κ x t) (le : κ.Le κ') : Means h S T κ' x t :=
  ⟨means.twice, fun st m reads => means.value st m (reads.mono le),
    fun st m reads => means.negation st m (reads.mono le)⟩

/-- An element whose negation has to be computed. -/
theorem of_plain (plain : x.negate = .not x) {value : State → Value}
    (eval : ∀ st negated, t.eval st negated = signed negated (value st))
    (evaluates : ∀ st m, Reads h S T κ st m → Engine.eval (h.context m) x = .ok (value st)) :
    Means h S T κ x t := by
  refine ⟨by rw [plain]; rfl, fun st m reads => ?_, fun st m reads => ?_⟩
  · rw [eval]
    exact evaluates st m reads
  · rw [eval, plain, Engine.eval, evaluates st m reads]
    rfl

/-- The negation of an element means the negation of the term. -/
theorem not (means : Means h S T κ x t) : Means h S T κ x.negate (.not t) := by
  refine ⟨congrArg Element.negate means.twice, fun st m reads => ?_, fun st m reads => ?_⟩
  · rw [Term.eval]
    exact means.negation st m reads
  · rw [Term.eval, means.twice]
    exact means.value st m reads

/-- A truth value means itself. -/
theorem bool (b : Bool) : Means h S T κ (.bool b) (.value (.bool b)) := by
  refine ⟨by simp [Element.negate], fun st m _ => ?_, fun st m _ => ?_⟩
  · rw [Engine.eval, Term.eval]
    rfl
  · rw [Element.negate, Engine.eval, Term.eval]
    rfl

/-- A number means itself. -/
theorem number (x : Binary64) : Means h S T κ (.number x) (.value (.number x)) :=
  of_plain rfl (fun st negated => by rw [Term.eval]) fun st m _ => by rw [Engine.eval]

/-- The event's player means the actor of the run. -/
theorem actor : Means h S T κ .eventPlayer (.value (.number (.ofInt h.actor.toInt))) :=
  of_plain rfl (fun st negated => by rw [Term.eval]) fun st m _ => by rw [Engine.eval]; rfl

variable {y : Element} {u : Term}

/-- An item means the item. -/
theorem item (array : Means h S T κ x t) (index : Means h S T κ y u) :
    Means h S T κ (.itemAt x y) (.item t u) :=
  of_plain rfl (fun st negated => by rw [Term.eval]) fun st m reads => by
    rw [Engine.eval, array.value st m reads, index.value st m reads]
    rfl

/-- A length means the length. -/
theorem length (array : Means h S T κ x t) : Means h S T κ (.countOf x) (.length t) :=
  of_plain rfl (fun st negated => by rw [Term.eval]) fun st m reads => by
    rw [Engine.eval, array.value st m reads]
    rfl

/-- A difference from zero means the negative. -/
theorem negate (inner : Means h S T κ x t) :
    Means h S T κ ((Element.ofNat 0).subtract x) (.negate t) :=
  of_plain rfl (fun st negated => by rw [Term.eval]) fun st m reads => by
    rw [Element.subtract, Engine.eval, inner.value st m reads, Element.ofNat, Engine.eval]
    rfl

/-- Elements that mean terms one by one have their values. -/
theorem evalAll {xs : List Element} {ts : List Term} (all : List.Forall₂ (Means h S T κ) xs ts)
    (reads : Reads h S T κ st m) : Engine.evalAll (h.context m) xs = .ok (evalAll st ts) := by
  induction all with
  | nil => rw [Engine.evalAll, Meaning.evalAll]
  | cons first _ ih =>
    rw [Engine.evalAll, first.value st m reads, ih, Meaning.evalAll]
    rfl

/-- An array of elements means the array of the terms. -/
theorem array {xs : List Element} {ts : List Term} (all : List.Forall₂ (Means h S T κ) xs ts) :
    Means h S T κ (.array xs) (.array ts) :=
  of_plain rfl (fun st negated => by rw [Term.eval]) fun st m reads => by
    rw [Engine.eval, evalAll all reads]
    rfl

/-- A comparison means what its inverse means of its negation. -/
theorem compare {op : Comparison} (lhs : Means h S T κ x t) (rhs : Means h S T κ y u) {r : Term}
    (value : ∀ st, r.eval st false = .bool (Engine.compare op (t.eval st false) (u.eval st false)))
    (negation : ∀ st,
      r.eval st true = .bool (Engine.compare op.inverse (t.eval st false) (u.eval st false))) :
    Means h S T κ (.compare x op y) r := by
  refine ⟨?_, fun st m reads => ?_, fun st m reads => ?_⟩
  · rw [Element.negate, Element.negate, op.inverse_inverse]
  · rw [value, Engine.eval, lhs.value st m reads, rhs.value st m reads]
    rfl
  · rw [negation, Element.negate, Engine.eval, lhs.value st m reads, rhs.value st m reads]
    rfl

/-- An operator between elements means the operator between the terms. -/
theorem binary (op : BinaryOp) (lhs : Means h S T κ x t) (rhs : Means h S T κ y u) :
    Means h S T κ (.binary op x y) (.binary op t u) := by
  cases op with
  | eq | ne | lt | le | gt | ge =>
    exact compare lhs rhs (fun st => by rw [Term.eval]; rfl) fun st => by rw [Term.eval]; rfl
  | add | sub | mul | div | mod =>
    refine of_plain rfl (fun st negated => by rw [Term.eval]; cases negated <;> rfl)
      fun st m reads => ?_
    rw [Element.binary, Engine.eval, lhs.value st m reads, rhs.value st m reads]
    rfl
  | and | or =>
    refine of_plain rfl (fun st negated => by rw [Term.eval]; cases negated <;> rfl)
      fun st m reads => ?_
    rw [Element.binary, Engine.eval, lhs.value st m reads, rhs.value st m reads]
    simp only [bind, Except.bind, apply]
    cases (t.eval st false).truthy <;> rfl

/-- What a location holds is read in its slot, or on top of its stack. -/
theorem slot (ground : Ground h S T) {l : Location} {u : Content} (found : κ l = some u)
    (known : l ∈ T.symbols.map Symbol.location) (plain : ¬ S l) :
    Means h S T κ (l.root none) u.term :=
  of_plain rfl u.eval_term fun st m reads => by
    obtain ⟨sym, mem, rfl⟩ := List.mem_map.1 known
    rw [Location.eval_root (ground.holds sym mem), reads.slot _ u found plain]

/-- The top of a stack of a known variable means that variable. -/
theorem top (ground : Ground h S T) {l : Location} {u : Content} (found : κ l = some u)
    (known : l ∈ T.symbols.map Symbol.location) (stack : S l) :
    Means h S T κ (.lastOf (l.root none)) u.term :=
  of_plain rfl u.eval_term fun st m reads => by
    obtain ⟨sym, mem, rfl⟩ := List.mem_map.1 known
    obtain ⟨below, items⟩ := reads.top _ u found stack
    rw [Engine.eval, Location.eval_root (ground.holds sym mem)]
    simp [bind, Except.bind, pure, Except.pure, items]

/-- A field's stack at a handle means the field. -/
theorem field (ground : Ground h S T) {i : Nat} {stack : IndexedVar}
    (found : T.session.classData.fieldStacks[i]? = some stack) (handle : Means h S T κ x t) :
    Means h S T κ ((stack.child x).get none) (.field i t) := by
  have whole := ground.whole stack (ClassData.fieldStack_mem found)
  have get : (stack.child x).get none = .itemAt (stack.location.root none) x := by
    rw [IndexedVar.get, IndexedVar.child, whole]
    rfl
  rw [get]
  refine of_plain rfl (fun st negated => by rw [Term.eval]) fun st m reads => ?_
  rw [Engine.eval, Location.eval_root (ground.stored _ (ClassData.fieldStack_location found)),
    reads.field i stack found, handle.value st m reads]
  rfl

/-- The variable of a static field means that field. -/
theorem static (ground : Ground h S T) {owner field : String} {v : IndexedVar}
    (declared : owner ∈ T.session.classes.decls.map (·.name))
    (found : T.session.classData.statics.lookup (owner ++ "." ++ field) = some v) :
    Means h S T κ (v.get none) (.static owner field) := by
  have get : v.get none = v.location.root none := by
    rw [IndexedVar.get, ground.whole v (ClassData.static_mem found)]
    rfl
  rw [get]
  refine of_plain rfl (fun st negated => by rw [Term.eval]) fun st m reads => ?_
  rw [Location.eval_root (ground.stored _ (ClassData.static_location found)),
    reads.static owner field v declared found]

/-! ## Expressions -/

/-- An expression without names and calls has the same operands in both. -/
theorem operands_eq {e : Expr} {actor : Int64} {es es' : List Expr} {build : List Element → Element}
    {build' : List Term → Term} (element : Lower.nodeOf e = some (es, build))
    (term : termOf actor e = some (es', build')) : es' = es := by
  cases e <;> cases element <;> cases term <;> rfl

/-- It means its term if its operands mean theirs. -/
theorem node {e : Expr} {es es' : List Expr} {build : List Element → Element}
    {build' : List Term → Term} (element : Lower.nodeOf e = some (es, build))
    (term : termOf h.actor e = some (es', build')) {xs : List Element} {ts : List Term}
    (all : List.Forall₂ (Means h S T κ) xs ts) :
    Means h S T κ (build xs) (build' ts) := by
  have neutral : Means h S T κ .neutral (.value .neutral) := number 0
  cases e with
  | number x | bool b | currentActor =>
    cases element
    cases term
    first
    | exact number x
    | exact bool b
    | exact actor
  | array items =>
    cases element
    cases term
    exact array all
  | index | binary =>
    cases element
    cases term
    rcases all with _ | ⟨first, _ | ⟨second, _ | _⟩⟩
    · exact neutral
    · exact neutral
    · first
      | exact first.item second
      | exact binary _ first second
    · exact neutral
  | not | negate | length =>
    cases element
    cases term
    rcases all with _ | ⟨first, _ | _⟩
    · exact neutral
    · first
      | exact first.not
      | exact first.negate
      | exact first.length
    · exact neutral
  | _ => cases element

/-- The item at the end of a path. -/
theorem descend {xs : List Element} {ts : List Term} (means : Means h S T κ x t)
    (path : List.Forall₂ (Means h S T κ) xs ts) :
    Means h S T κ (IndexedVar.descend x xs) (ts.foldl .item t) := by
  induction path generalizing x t with
  | nil => exact means
  | cons first _ ih => exact ih (means.item first)

/-- What an assignment writes. -/
theorem combined {op : Source.AssignOp} {xs : List Element} {ts : List Term}
    (current : Means h S T κ x t) (path : List.Forall₂ (Means h S T κ) xs ts)
    (value : Means h S T κ y u) :
    Means h S T κ (Lower.combine op x xs y) (combined op t ts u) := by
  unfold Lower.combine Meaning.combined
  cases op.binary? with
  | none => exact value
  | some op => exact binary op (current.descend path) value

end Means

end Meaning

end SkipCode
