import SkipCode.Proofs.Mentions
import SkipCode.Proofs.Straight

/-!
# Making and deleting an instance

What the code of a plain `new` and of a `delete` is, action by action. Both write the fields of the
instance one behind the other, each in its stack (`FieldWrites`): a `new` of a class with constant
initial values writes these, a `delete` clears the fields of its static class.
-/

namespace SkipCode

open Lower
open Source (Expr Stmt)

variable {into : Expander} {s t u : UnitState}

/-! ## Fields -/

/-- Actions that write fields of an instance, each in its stack, with values that can be told
beforehand. -/
inductive FieldWrites (d : ClassData) (values : FieldSlot → Value) (handle : Element) :
    List FieldSlot → List Action → Prop
  | nil : FieldWrites d values handle [] []
  | cons {slot stack x slots actions} : d.fieldStacks[slot.stack]? = some stack →
      (∀ c, Engine.eval c x = .ok (values slot)) → FieldWrites d values handle slots actions →
      FieldWrites d values handle (slot :: slots) (stack.set x none [handle] ++ actions)

theorem ClassData.Grows.fieldStack {a b : ClassData} (h : a.Grows b) {index : Nat} {v : IndexedVar}
    (found : a.fieldStacks[index]? = some v) : b.fieldStacks[index]? = some v := by
  obtain ⟨more, e⟩ := h.fieldStacks
  rw [← e, List.getElem?_append_left (List.getElem?_eq_some_iff.1 found).1, found]

theorem FieldWrites.mono {d d' : ClassData} {values : FieldSlot → Value} {handle : Element}
    {slots : List FieldSlot} {actions : List Action} (h : FieldWrites d values handle slots actions)
    (grows : d.Grows d') : FieldWrites d' values handle slots actions := by
  induction h with
  | nil => exact .nil
  | cons found value _ ih => exact .cons (grows.fieldStack found) value ih

namespace ClassStorage

variable {a b : ClassStorage}

/-- A stack is the one at its index. -/
theorem run_fieldStack_at {index : Nat} {v : IndexedVar}
    (h : Attempt.run (fieldStack index) a = (.ok v, b)) : b.data.fieldStacks[index]? = some v := by
  obtain ⟨_, _, ⟨⟩, h₁⟩ := Attempt.run_bind_ok.1 h
  dsimp only at h₁
  have make (last : a.data.fieldStacks.length = index) (h : Attempt.run (do
      let stack ← ClassStorage.allocate s!"__field_stack_{index}"
      ClassStorage.modifyData fun d => { d with fieldStacks := d.fieldStacks ++ [stack] }
      return stack) a = (.ok v, b)) : b.data.fieldStacks[index]? = some v := by
    obtain ⟨-, e⟩ :=
      Confines.run_note (f := fun v d => { d with fieldStacks := d.fieldStacks ++ [v] }) h
    rw [e, ← last]
    simp
  split at h₁
  · next found =>
    cases h₁
    exact found
  · next missing =>
    have beyond := List.getElem?_eq_none_iff.1 missing
    split at h₁
    · obtain ⟨_, _, h₂, -⟩ := Attempt.run_bind_ok.1 h₁
      cases h₂
    · next inside => exact make (by omega) h₁

/-- The fields of an instance are cleared one by one. -/
theorem run_clearFields_ok {handle : Element} {slots : List FieldSlot} {r : PUnit}
    (h : Attempt.run (forIn slots PUnit.unit fun slot _ => do
      ClassStorage.emit ((← ClassStorage.fieldStack slot.stack).set .neutral none [handle])
      pure (ForInStep.yield PUnit.unit)) a = (.ok r, b)) :
    ∃ actions, FieldWrites b.data (fun _ => .neutral) handle slots actions ∧ a.data.Grows b.data ∧
      b.list.toList = a.list.toList ++ actions := by
  induction slots generalizing a with
  | nil =>
    cases h
    exact ⟨[], .nil, .refl _, (List.append_nil _).symm⟩
  | cons slot rest ih =>
    rw [List.forIn_cons] at h
    obtain ⟨step, c, first, h⟩ := Attempt.run_bind_ok.1 h
    obtain ⟨stack, d, made, first⟩ := Attempt.run_bind_ok.1 first
    obtain ⟨_, _, ⟨⟩, ⟨⟩⟩ := Attempt.run_bind_ok.1 first
    have here := run_fieldStack_at made
    obtain ⟨grows', same⟩ := Keeps.fieldStack _ _ _ _ made
    -- a stack that is made for a later field does not move this one
    obtain ⟨actions, writes, grows, list⟩ := ih h
    have value (c : Engine.Context) : Engine.eval c .neutral = .ok .neutral := by
      rw [Element.neutral, Engine.eval]
      rfl
    refine ⟨_, .cons (grows.fieldStack here) value writes, grows'.trans grows, ?_⟩
    rw [list, ActionList.toList_extend, same, List.append_assoc]

/-- Behind the fields the handle is marked as free. -/
theorem run_release_ok {classes : ClassTable} {className : String} {handle : Element}
    (h : Attempt.run (release classes className handle) a = (.ok (), b)) :
    ∃ slots clears table, classes.allFields className = .ok slots ∧
      FieldWrites b.data (fun _ => .neutral) handle slots clears ∧ b.data.table = some table ∧
        b.list.toList = a.list.toList ++ (clears ++ table.set (.ofNat 0) none [handle]) := by
  obtain ⟨layout, _, hlayout, h₁⟩ := Attempt.run_bind_ok.1 h
  obtain ⟨-, rfl⟩ := Attempt.run_lift_ok.1 hlayout
  obtain ⟨_, c, prepared, h₂⟩ := Attempt.run_bind_ok.1 h₁
  obtain ⟨slots, _, hslots, h₃⟩ := Attempt.run_bind_ok.1 h₂
  rw [Attempt.run_lift_ok] at hslots
  obtain ⟨hslots, rfl⟩ := hslots
  obtain ⟨_, d, cleared, h₄⟩ := Attempt.run_bind_ok.1 h₃
  obtain ⟨table, e, tabled, h₅⟩ := Attempt.run_bind_ok.1 h₄
  have known := run_handleTable_ok tabled
  cases h₅
  obtain ⟨clears, writes, -, list⟩ := run_clearFields_ok cleared
  obtain ⟨grows, same⟩ := Keeps.handleTable _ _ _ tabled
  obtain ⟨-, same'⟩ := Keeps.prepare _ _ _ _ prepared
  refine ⟨slots, clears, table, hslots, writes.mono grows, known, ?_⟩
  rw [ActionList.toList_extend, same, list, same', List.append_assoc]

end ClassStorage

namespace Lower

/-- A field of an instance is its entry in the stack of the field. -/
theorem run_fieldVar_ok {className field : String} {handle : Element} {v : IndexedVar}
    (h : run (fieldVar className field handle) s = some (.ok v, t)) :
    ∃ slot stack, s.session.classes.findField className field = .ok slot ∧
      t.session.classData.fieldStacks[slot.stack]? = some stack ∧ v = stack.child handle := by
  obtain ⟨_, _, ⟨⟩, h₁⟩ := run_bind_ok.1 h
  obtain ⟨slot, _, found, h₂⟩ := run_bind_ok.1 h₁
  rw [run_lift_ok] at found
  obtain ⟨found, rfl⟩ := found
  obtain ⟨layout, _, hlayout, h₃⟩ := run_bind_ok.1 h₂
  obtain ⟨-, rfl⟩ := run_lift_ok.1 hlayout
  obtain ⟨_, u, -, h₄⟩ := run_bind_ok.1 h₃
  obtain ⟨stack, w, made, h₅⟩ := run_bind_ok.1 h₄
  cases h₅
  obtain ⟨storage, ran, rfl⟩ := run_onStorage_ok.1 made
  exact ⟨slot, stack, found, ClassStorage.run_fieldStack_at ran, rfl⟩

end Lower

/-! ## New instances -/

/-- Bodies that are lowered as they stand: a constant is its element, and an empty body is nothing.
-/
structure Expander.Plain (into : Expander) : Prop where
  initial : ∀ e x, e.constant? = some x → into.initial e = pure x
  block : into.block [] = inScope (pure ())

theorem plain_expander (depth : Nat) : (expander (depth + 1)).Plain := by
  refine ⟨fun e x h => lower_constant (expander depth) e h, ?_⟩
  show inScope (lowerStmts (expander depth) []) = _
  rw [lowerStmts]

namespace UnitState.Stored

variable {actions : List Action}

theorem ofStorage {storage : ClassStorage} (grows : s.session.classData.Grows storage.data)
    (list : storage.list.toList = s.list.toList ++ actions) : s.Stored actions (s.stored storage) :=
  ⟨storage, rfl, grows, list⟩

end UnitState.Stored

namespace Lower

/-- The initial values of fields are written one by one. -/
theorem run_initialFields_ok (plain : into.Plain) {classes : ClassTable} {this : Element}
    {slots : List FieldSlot} {fields : List (Nat × Option Expr)}
    (initials : List.Forall₂ (fun slot field => (do
      return (slot.stack, (← classes.fieldDecl slot).initial) : Except LowerError _) = .ok field)
      slots fields)
    (constant : ∀ field ∈ fields, ∀ e, field.2 = some e → e.constant?.isSome = true)
    (h : run (fields.forM fun (stack, initial) => do
      let value ← match initial with
        | some e => into.initial e
        | none => pure .neutral
      emit ((← onStorage (ClassStorage.fieldStack stack)).set value none [this])) s =
        some (.ok (), t)) :
    ∃ actions, s.Stored actions t ∧
      FieldWrites t.session.classData classes.initialValue this slots actions := by
  induction initials generalizing s with
  | nil =>
    cases h
    exact ⟨[], .refl _, .nil⟩
  | @cons slot field slots fields first _ ih =>
    obtain ⟨decl, declared, e⟩ := except_bind_ok.1 first
    cases e
    obtain ⟨_, u, h₁, h₂⟩ := run_bind_ok.1 h
    -- the value is lowered to an element that is the same everywhere
    obtain ⟨x, value, h₁⟩ : ∃ x, (∀ c, Engine.eval c x = .ok (classes.initialValue slot)) ∧
        run (do emit ((← onStorage (ClassStorage.fieldStack slot.stack)).set x none [this])) s =
          some (.ok (), u) := by
      obtain ⟨name, initial, isStatic⟩ := decl
      cases initial with
      | none =>
        refine ⟨.neutral, fun c => ?_, h₁⟩
        rw [ClassTable.initialValue, declared, Element.neutral, Engine.eval]
        rfl
      | some e =>
        obtain ⟨x, hx⟩ := Option.isSome_iff_exists.1 (constant _ List.mem_cons_self e rfl)
        refine ⟨x, fun c => ?_, ?_⟩
        · rw [ClassTable.initialValue, declared]
          exact constant_eval hx c
        · dsimp only at h₁
          rwa [plain.initial e x hx, pure_bind] at h₁
    obtain ⟨stack, v, made, written⟩ := run_bind_ok.1 h₁
    cases written
    obtain ⟨actions, stored, writes⟩ :=
      ih (fun field mem => constant field (List.mem_cons_of_mem _ mem)) h₂
    obtain ⟨storage, ran, rfl⟩ := run_onStorage_ok.1 made
    have looks := Looks.onStorage (.fieldStack slot.stack) _ _ _ made
    refine ⟨_, (looks.trans (.emit _ (stack.set x none [this]))).trans stored,
      .cons ?_ value writes⟩
    obtain ⟨later, rfl, grows, -⟩ := stored
    exact grows.fieldStack (ClassStorage.run_fieldStack_at ran)

end Lower

/-- Inside a body that sees nothing but `this`. -/
def UnitState.inBody (s : UnitState) (this : Element) (frame : Frame) : UnitState :=
  { s.entered frame with scopes := ⟨[("this", .reference this)], [], []⟩ :: s.scopes }

/-- A body whose scope has no stacks and whose frame no returns is closed without an action. -/
theorem UnitState.Appends.closeBody {actions : List Action} {this : Element} {frame : Frame}
    {scope : Scope} (inner : (s.inBody this frame).Appends actions t) (ends : frame.returns = [])
    (scopes : t.scopes = scope :: s.scopes) (pops : scope.exits = []) {v : UnitState}
    (closed : run closeScope t = some (.ok (), v)) (left : run closeFrame v = some (.ok (), u)) :
    s.Appends actions u ∧ u.session.classData = t.session.classData ∧ u.symbols = t.symbols := by
  -- no stack is left by the scope, and no `return` waits for the end of the frame
  obtain ⟨scope', rest, σ, found, freed, rfl⟩ := run_closeScope_ok closed
  rw [scopes] at found
  cases found
  obtain ⟨frame', frames, list, found, resolved, rfl⟩ := run_closeFrame_ok left
  have found : t.frames = frame' :: frames := found
  rw [inner.frames] at found
  cases found
  rw [ends] at resolved
  cases resolved
  refine ⟨⟨?_, ?_, ?_, fun noted => ?_⟩, Session.classData_freed freed, rfl⟩
  · show (t.list.extend (scopePops scope)).toList = _
    rw [scopePops, pops, List.flatMap_nil, ActionList.toList_extend, List.append_nil]
    exact inner.list
  · show t.frames.tail = s.frames
    rw [inner.frames]
    rfl
  · obtain ⟨unit, pool, session, symbols, hidden, deferred⟩ := inner.grows
    exact ⟨unit, pool, session.trans (.freed freed), symbols, hidden, deferred⟩
  · -- the scope of the body binds only `this`, and what is left are the scopes around it
    have inside : (s.inBody this frame).Noted := by
      intro scope mem
      rcases List.mem_cons.1 mem with rfl | mem
      · refine ⟨fun name v bound => ?_, fun name v bound => ?_, List.forall_mem_nil _⟩ <;>
        cases List.mem_singleton.1 bound
      · exact noted scope mem
    intro scope mem
    exact inner.noted inside scope (scopes ▸ List.mem_cons_of_mem _ mem)

namespace Lower

theorem run_initializeFields_ok (plain : into.Plain) {classes : ClassTable} {className : String}
    {this : Element} {fields : List (Nat × Option Expr)}
    (initials : fieldInitials classes className = .ok fields)
    (constant : ∀ field ∈ fields, ∀ e, field.2 = some e → e.constant?.isSome = true)
    (h : run (initializeFields into this fields) s = some (.ok (), t)) :
    ∃ slots actions, classes.allFields className = .ok slots ∧ s.Appends actions t ∧
      FieldWrites t.session.classData classes.initialValue this slots actions := by
  obtain ⟨slots, all, initials⟩ := except_bind_ok.1 initials
  obtain ⟨_, _, ⟨⟩, h₁⟩ := run_bind_ok.1 h
  obtain ⟨_, v, h₂, left⟩ := run_bind_ok.1 h₁
  obtain ⟨u, h₃, closed⟩ := run_inScope_ok.1 h₂
  obtain ⟨_, _, ⟨⟩, h₄⟩ := run_bind_ok.1 h₃
  obtain ⟨_, w, bound, h₅⟩ := run_bind_ok.1 h₄
  obtain ⟨scope, rest, e, rfl⟩ := run_modifyScope_ok.1 bound
  cases e
  obtain ⟨actions, stored, writes⟩ :=
    run_initialFields_ok plain (except_mapM_ok.1 initials) constant h₅
  have inner : (s.inBody this (s.expanded none none)).Appends actions u := stored.appends
  obtain ⟨storage, rfl, -⟩ := stored
  obtain ⟨appends, data, -⟩ := inner.closeBody rfl rfl rfl closed left
  exact ⟨slots, actions, all, appends, data ▸ writes⟩

/-- The parameters of a body that is not recursive are plain variables. -/
theorem run_declareParams_ok {params : List String} {arguments : List Element}
    (plain : s.inRecursiveFrame = false)
    (h : run (declareParams params arguments) s = some (.ok (), t)) (clean : t.deferred = []) :
    ∃ actions, s.Appends actions t ∧ s.WritesSince t actions ∧
      ∀ scope rest, s.scopes = scope :: rest →
        ∃ scope', t.scopes = scope' :: rest ∧ scope'.exits = scope.exits := by
  unfold declareParams at h
  generalize params.zip arguments = pairs at h
  induction pairs generalizing s with
  | nil =>
    cases h
    exact ⟨[], .refl _, .nil (.refl _), fun scope rest e => ⟨scope, e, rfl⟩⟩
  | cons pair others ih =>
    obtain ⟨_, u, h₁, h₂⟩ := run_bind_ok.1 h
    obtain ⟨v, declared, -⟩ := run_map_ok.1 h₁
    obtain ⟨w, rfl, found⟩ := run_declare_plain declared plain
    -- nothing is missing at the end, so nothing was behind the first one
    obtain ⟨_, others'⟩ :=
      Plain.rules.forM (fun _ _ => Plain.rules.map _ (Plain.rules.declare _ _ _)) u () t h₂
    obtain ⟨first, sym, taken, place⟩ := appends_declarePlain found (others'.deferred clean)
    obtain ⟨actions, rest, since, scopes⟩ := ih (first.plain plain) h₂
    refine ⟨_, first.trans rest, .trans (.one taken fun a mem => ?_) since, fun scope outer e => ?_⟩
    · obtain ⟨x, -, mem⟩ := List.mem_flatMap.1 mem
      exact IndexedVar.set_within (List.mem_singleton.2 place.symm) _ _ _ a mem
    · obtain ⟨slot, -, takes⟩ := run_declarePlain_ok found (others'.deferred clean)
      obtain ⟨p, scope', outer', -, e', rfl⟩ := takes.taken
      rw [e] at e'
      cases e'
      obtain ⟨last, e, exits⟩ := scopes _ _ rfl
      exact ⟨last, e, exits⟩

/-- An empty body is expanded to the declarations of its parameters. -/
theorem run_expandBody_ok (plain : into.Plain) (frame : s.inRecursiveFrame = false) {key : String}
    {params : List String} {arguments : List Element} {this : Element}
    (stable : isStable this = true)
    (h : run (expandBody into key params [] (some this) arguments none) s = some (.ok (), t))
    (clean : t.deferred = []) :
    ∃ actions, s.Appends actions t ∧ s.WritesSince t actions := by
  obtain ⟨_, _, ⟨⟩, h₁⟩ := run_bind_ok.1 h
  obtain ⟨_, x, h₂, left⟩ := run_bind_ok.1 h₁
  obtain ⟨w, h₃, closed⟩ := run_inScope_ok.1 h₂
  obtain ⟨_, _, ⟨⟩, h₄⟩ := run_bind_ok.1 h₃
  obtain ⟨_, u, bound, h₅⟩ := run_bind_ok.1 h₄
  rw [bindThis, if_pos stable] at bound
  obtain ⟨scope, rest, e, rfl⟩ := run_modifyScope_ok.1 bound
  cases e
  obtain ⟨_, v, declared, h₆⟩ := run_bind_ok.1 h₅
  -- the body opens a scope and closes it
  rw [plain.block] at h₆
  obtain ⟨y, ⟨⟩, h₇⟩ := run_inScope_ok.1 h₆
  obtain ⟨scope', rest', σ, e, freed, rfl⟩ := run_closeScope_ok h₇
  cases e
  cases freed
  have clean' : v.deferred = [] := by
    obtain ⟨_, _, _, -, -, rfl⟩ := run_closeScope_ok closed
    obtain ⟨_, _, _, -, -, rfl⟩ := run_closeFrame_ok left
    exact clean
  have plain' : (s.inBody this (s.expanded (some key) none)).inRecursiveFrame = false := frame
  obtain ⟨actions, inner, since, scopes⟩ := run_declareParams_ok plain' declared clean'
  obtain ⟨last, scopes, exits⟩ := scopes _ _ rfl
  have empty : v.Appends [] (v.withList (v.list.extend [])) := (UnitState.Stored.emit v []).appends
  obtain ⟨appends, -, symbols⟩ := (inner.trans empty).closeBody rfl scopes exits closed left
  rw [List.append_nil] at appends
  obtain ⟨newer, e, within⟩ := since
  exact ⟨actions, appends, newer, e.trans symbols.symm, within⟩

end Lower

/-- What a plain `new` writes: it takes a handle into a variable of the unit and writes the initial
values of the fields. What is written behind that has slots that are taken later than that of the
handle. -/
inductive Makes (t : UnitState) (className : String) : Element → List Action → Prop
  | mk {older newer} {v table : IndexedVar} {first next full mark slots inits others} :
      v.path = [] →
      newer ++ older = t.symbols → v.location ∈ older.map Symbol.location →
      t.session.classData.table = some table →
      Acquires t.session.config (.indexed v) table first next full mark →
      t.session.classes.allFields className = .ok slots →
      FieldWrites t.session.classData t.session.classes.initialValue (v.get none) slots inits →
      (∀ a ∈ others, a.Within (newer.map Symbol.location)) →
      Makes t className (v.get none) (acquireActions first next full mark ++ (inits ++ others))

/-- More slots are taken and written. -/
theorem Makes.further {className : String} {x : Element} {actions more : List Action}
    (h : Makes s className x actions) (grows : s.Grows t) (since : s.WritesSince t more) :
    Makes t className x (actions ++ more) := by
  obtain ⟨path, symbols, own, known, acquires, all, writes, within⟩ := h
  obtain ⟨latest, symbols', within'⟩ := since
  have classes := grows.session.classes
  rw [List.append_assoc, List.append_assoc]
  refine .mk path (by rw [← symbols', ← symbols, List.append_assoc]) own
    (grows.session.classData.table _ known) (grows.session.config ▸ acquires) (classes ▸ all)
    (classes ▸ writes.mono grows.session.classData) fun a mem => ?_
  rw [List.map_append]
  rcases List.mem_append.1 mem with mem | mem
  · exact (within a mem).mono fun l mem => List.mem_append_right _ mem
  · exact (within' a mem).mono fun l mem => List.mem_append_left _ mem

/-- A class that is made plainly has constant initial values and an empty constructor. -/
theorem ClassTable.makesPlain_ok {classes : ClassTable} {className : String} {index : Nat}
    (h : classes.makesPlain className index = true) : ∃ params fields,
      classes.constructor className index = .ok ⟨params, []⟩ ∧
        fieldInitials classes className = .ok fields ∧
          ∀ field ∈ fields, ∀ e, field.2 = some e → e.constant?.isSome = true := by
  unfold makesPlain at h
  split at h
  · next constructor fields found initials =>
    obtain ⟨params, body⟩ := constructor
    obtain ⟨empty, constant⟩ := Bool.and_eq_true_iff.1 h
    obtain rfl : body = [] := List.isEmpty_iff.1 empty
    refine ⟨params, fields, found, initials, fun field mem e initial => ?_⟩
    have := List.all_eq_true.1 constant field mem
    rwa [initial] at this
  · cases h

namespace Lower

/-- A plain `new` makes an instance. -/
theorem makes_of_run (plain : into.Plain) (frame : s.inRecursiveFrame = false)
    {className : String} {index : Nat} {arguments : List Element} {x : Element}
    (makes : s.session.classes.makesPlain className index = true)
    (h : run (expandNew into className index arguments) s = some (.ok x, t))
    (clean : t.deferred = []) :
    ∃ actions, s.Appends actions t ∧ Makes t className x actions := by
  obtain ⟨params, fields, found, initials, constant⟩ := ClassTable.makesPlain_ok makes
  obtain ⟨constructor, fields', hidden, s₁, handle, s₂, layout, s₃, s₄, s₅, hconstructor, hfields,
    hhidden, hdeclare, -, hprepare, hacquire, hinitials, hbody, rfl⟩ := run_expandNew_ok h
  rw [found] at hconstructor
  cases hconstructor
  rw [initials] at hfields
  cases hfields
  -- the handle is a plain variable of the unit
  have named := appends_hiddenName hhidden
  obtain ⟨v, rfl, declared⟩ := run_declare_plain hdeclare (named.plain frame)
  have path := path_declarePlain declared
  have prepared : s₂.Appends [] s₃ := (Looks.onStorage (.prepare layout) _ _ _ hprepare).appends
  obtain ⟨storage, ran, rfl⟩ := run_onStorage_ok.1 hacquire
  obtain ⟨table, first, next, full, mark, acquires, known, list, -⟩ := run_acquireHandle_ok ran
  have acquired : s₃.Appends (acquireActions first next full mark) (s₃.stored storage) :=
    (UnitState.Stored.ofStorage (ClassStorage.Adds.acquireHandle _ _ _ _ _ ran).1 list).appends
  obtain ⟨slots, inits, all, initialized, writes⟩ :=
    run_initializeFields_ok plain initials constant hinitials
  have frame' : s₅.inRecursiveFrame = false := by
    obtain ⟨_, extends'⟩ := Plain.declarePlain hidden none s₁ v s₂ declared
    refine (prepared.trans (acquired.trans initialized)).plain ?_
    rw [UnitState.inRecursiveFrame, extends'.frames]
    exact named.plain frame
  have stable : isStable (Variable.get (.indexed v)) = true := by
    show isStable (v.get none) = true
    rw [IndexedVar.get, path]
    rfl
  obtain ⟨params', body, since⟩ := run_expandBody_ok plain frame' stable hbody clean
  have rest := prepared.trans (acquired.trans (initialized.trans body))
  obtain ⟨declares, sym, taken, place⟩ := appends_declarePlain declared (rest.grows.deferred clean)
  have whole := named.trans (declares.trans rest)
  have grows := whole.grows.session
  obtain ⟨between, e⟩ := (prepared.trans (acquired.trans initialized)).grows.symbols
  obtain ⟨newer, e', within⟩ := since
  have made : Makes t className (v.get none)
      (acquireActions first next full mark ++ (inits ++ params')) := by
    refine .mk path (show (newer ++ between) ++ s₂.symbols = _ by rw [List.append_assoc, e, e']) ?_
      ((initialized.trans body).grows.session.classData.table table known) (grows.config ▸ acquires)
      (grows.classes ▸ all) (grows.classes ▸ writes.mono body.grows.session.classData)
        fun a mem => ?_
    · rw [taken, ← place]
      exact List.mem_cons_self
    · rw [List.map_append]
      exact (within a mem).mono fun l mem => List.mem_append_left _ mem
  exact ⟨_, whole, made⟩

end Lower

end SkipCode
