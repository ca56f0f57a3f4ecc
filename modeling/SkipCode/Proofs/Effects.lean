import SkipCode.Proofs.Making

/-!
# What simple statements write

A simple statement does one of four things (`Effect`): it leaves the instances alone, writes a
field, deletes an instance, or makes one. With what it writes goes how its events are read off the
contexts before and after it.
-/

namespace SkipCode

open Engine (Context)
open Lower
open Source (AssignOp Expr Place Stmt StmtKind)

variable {into : Expander} {s t u : UnitState}

/-- The number that an element has. -/
def Element.number? (c : Context) (x : Element) : Option Binary64 :=
  (Engine.eval c x).toOption.map Value.asNumber

/-- What a simple statement writes, and its events between the context before and the one after. -/
inductive Effect (t : UnitState) :
    List Action → (Context → Context → Option (List HeapEvent)) → Prop
  | quiet {actions} : (∀ a ∈ actions, a.Within t.ownPlaces) → Effect t actions fun _ _ => some []
  | written {className field slot stack handle x} :
      t.session.classes.findField className field = .ok slot →
      t.session.classData.fieldStacks[slot.stack]? = some stack →
      Effect t ((stack.child handle).set x none []) fun before _ => do
        let n ← handle.number? before
        let v ← (Engine.eval before x).toOption
        return [.written n className field v]
  | deleted {className handle slots clears} {v table : IndexedVar} : v.path = [] →
      v.location ∈ t.ownPlaces →
      t.session.classes.allFields className = .ok slots →
      FieldWrites t.session.classData (fun _ => .neutral) (v.get none) slots clears →
      t.session.classData.table = some table →
      Effect t (v.set handle none [] ++ (clears ++ table.set (.ofNat 0) none [v.get none]))
        fun before _ => do
          let n ← handle.number? before
          return [.deleted n className]
  | made {className x actions} : Makes t className x actions → Effect t actions fun _ after => do
      let n ← x.number? after
      return [.made n className]

/-- A unit's own variables are at places of its own. -/
theorem UnitState.symbols_ownPlaces (s : UnitState) :
    ∀ l ∈ s.symbols.map Symbol.location, l ∈ s.ownPlaces := fun _ => List.mem_append_left _

namespace Lower

/-- An expression that is simple makes an instance or writes nothing. -/
theorem run_simple_ok (plain : into.Plain) (frame : s.inRecursiveFrame = false) {e : Expr}
    {x : Element} (simple : e.simple s.session.classes = true)
    (h : run (lowerExpr into e) s = some (.ok x, t)) (clean : t.deferred = []) :
    ∃ actions, s.Appends actions t ∧
      ((∃ className index arguments, e = .new className index arguments ∧
          Makes t className x actions) ∨ actions = [] ∧ e.effectFree = true) := by
  by_cases free : e.effectFree = true
  · exact ⟨[], (looks_expr into e free s x t h).appends, Or.inr ⟨rfl, free⟩⟩
  · cases e with
    | new className index arguments =>
      obtain ⟨makes, operands⟩ := Bool.and_eq_true_iff.1 simple
      rw [lowerExpr] at h
      obtain ⟨xs, u, h₁, h₂⟩ := run_bind_ok.1 h
      have looked := (looks_exprs into arguments operands s xs u h₁).appends
      obtain ⟨actions, appends, made⟩ := makes_of_run plain (looked.plain frame)
        (looked.grows.session.classes ▸ makes) h₂ clean
      exact ⟨actions, looked.trans appends, Or.inl ⟨_, _, _, rfl, made⟩⟩
    | _ => exact absurd simple free

end Lower

/-! ## Events of statements -/

section

variable {c before after : Context}

/-- The number of a lowered index is its value where it has one. -/
theorem numberOf_eq {e : Expr} {x : Element} (h : run (lowerExpr into e) s = some (.ok x, t)) :
    numberOf into s c e = x.number? c := by
  rw [numberOf, h]
  rfl

/-- A definition free of effects has no events. -/
theorem events_define {name : String} {initial : Option Expr} {stacked : Bool}
    (free : ∀ e, initial = some e → e.effectFree = true) :
    (StmtKind.define name initial stacked).events into s before after = some [] := by
  cases initial with
  | none => rfl
  | some e =>
    have := free e rfl
    cases e <;> first | rfl | cases this

/-- So an expression. -/
theorem events_expr {e : Expr} (free : e.effectFree = true) :
    (StmtKind.expr e).events into s before after = some [] := by
  cases e <;> first | rfl | cases free

end

/-! ## Statements -/

namespace Lower

/-- What a statement writes, with its events. -/
def Acts (into : Expander) (k : StmtKind) (s t : UnitState) : Prop :=
  ∃ actions f, s.Appends actions t ∧ Effect t actions f ∧
    ∀ before after, k.events into s before after = f before after

/-- The code of a definition has the events of its initial value. -/
theorem acts_define (plain : into.Plain) (frame : s.inRecursiveFrame = false) {name : String}
    {initial : Option Expr} {stacked : Bool}
    (simple : initial.all (Expr.simple s.session.classes) = true)
    (h : run (lowerKind into (.define name initial stacked)) s = some (.ok (), t))
    (clean : t.deferred = []) : Acts into (.define name initial stacked) s t := by
  rw [lowerKind] at h
  obtain ⟨value, u, h₁, h₂⟩ := run_bind_ok.1 h
  obtain ⟨v, h₂, -⟩ := run_map_ok.1 h₂
  obtain ⟨others, declares, since⟩ := appends_declare h₂ clean
  have quiet : ∀ a ∈ others, a.Within t.ownPlaces := fun a mem =>
    (since.within a mem).mono t.symbols_ownPlaces
  cases initial with
  | none =>
    -- without an initial value nothing is made
    cases h₁
    exact ⟨others, _, declares, .quiet quiet, fun _ _ => events_define nofun⟩
  | some e =>
    obtain ⟨x, h₁, -⟩ := run_map_ok.1 h₁
    obtain ⟨actions, appends, does⟩ :=
      run_simple_ok plain frame simple h₁ (declares.grows.deferred clean)
    rcases does with ⟨className, index, arguments, rfl, makes⟩ | ⟨rfl, free⟩
    · refine ⟨_, _, appends.trans declares, .made (makes.further declares.grows since),
        fun _ after => ?_⟩
      rw [StmtKind.events, numberOf_eq h₁]
    · exact ⟨others, _, appends.trans declares, .quiet quiet, fun _ _ =>
        events_define fun e' same => by cases same; exact free⟩

/-- The code of an expression has none of its own. -/
theorem acts_expr (plain : into.Plain) (frame : s.inRecursiveFrame = false) {e : Expr}
    (simple : e.simple s.session.classes = true)
    (h : run (lowerKind into (.expr e)) s = some (.ok (), t)) (clean : t.deferred = []) :
    Acts into (.expr e) s t := by
  rw [lowerKind] at h
  obtain ⟨x, h₁, -⟩ := run_map_ok.1 h
  obtain ⟨actions, appends, does⟩ := run_simple_ok plain frame simple h₁ clean
  rcases does with ⟨className, index, arguments, rfl, makes⟩ | ⟨rfl, free⟩
  · refine ⟨actions, _, appends, .made makes, fun _ after => ?_⟩
    rw [StmtKind.events, numberOf_eq h₁]
  · exact ⟨[], _, appends, .quiet (List.forall_mem_nil _), fun _ _ => events_expr free⟩

/-- The code of a deletion has the event of the deletion. -/
theorem acts_delete (frame : s.inRecursiveFrame = false) {object : Expr} {className : String}
    (free : object.effectFree = true)
    (h : run (lowerKind into (.delete object className)) s = some (.ok (), t))
    (clean : t.deferred = []) : Acts into (.delete object className) s t := by
  rw [lowerKind] at h
  obtain ⟨x, u, h₁, h₂⟩ := run_bind_ok.1 h
  obtain ⟨name, u₁, hname, h₃⟩ := run_bind_ok.1 h₂
  obtain ⟨handle, u₂, hdeclare, h₄⟩ := run_bind_ok.1 h₃
  obtain ⟨_, _, ⟨⟩, h₅⟩ := run_bind_ok.1 h₄
  have looked := (looks_expr into object free s x u h₁).appends
  have named := looked.trans (appends_hiddenName hname)
  obtain ⟨v, rfl, declared⟩ := run_declare_plain hdeclare (named.plain frame)
  have path := path_declarePlain declared
  obtain ⟨storage, ran, rfl⟩ := run_onStorage_ok.1 h₅
  obtain ⟨slots, clears, table, all, writes, known, list⟩ := ClassStorage.run_release_ok ran
  obtain ⟨declares, sym, taken, place⟩ := appends_declarePlain declared clean
  have own : v.location ∈ u₂.symbols.map Symbol.location := by
    rw [taken, ← place]
    exact List.mem_cons_self
  have grows := (ClassStorage.Adds.release _ _ _ _ _ _ ran).1
  have released := (UnitState.Stored.ofStorage grows list).appends
  have deletes : Effect (u₂.stored storage)
      (v.set x none [] ++ (clears ++ table.set (.ofNat 0) none [v.get none])) _ :=
    .deleted path (List.mem_append_left _ own) all writes known
  rw [Option.toList_some, List.flatMap_singleton] at declares
  refine ⟨_, _, named.trans (declares.trans released), deletes, fun before _ => ?_⟩
  rw [StmtKind.events, numberOf_eq h₁]

/-- The code of an assignment to a field has the event of the write. -/
theorem acts_assign_field {object : Expr} {className field : String} {op : AssignOp} {value : Expr}
    (free : object.effectFree = true) (free' : value.effectFree = true)
    (h : run (lowerKind into (.assign (.field object className field) [] op value)) s =
      some (.ok (), t)) :
    Acts into (.assign (.field object className field) [] op value) s t := by
  rw [lowerKind] at h
  obtain ⟨index, _, h₀, h⟩ := run_bind_ok.1 h
  rw [lowerExprs] at h₀
  cases h₀
  obtain ⟨handle, u₁, h₁, h⟩ := run_bind_ok.1 h
  obtain ⟨v, u₂, h₂, h⟩ := run_bind_ok.1 h
  obtain ⟨x, u₃, h₃, h⟩ := run_bind_ok.1 h
  obtain ⟨slot, stack, found, stacked, rfl⟩ := run_fieldVar_ok h₂
  dsimp only at h
  generalize written : combine op ((stack.child handle).get none) [] x = y at h
  cases h
  have looked := (looks_expr into object free s handle u₁ h₁).appends
  have looked' := (Looks.fieldVar className field handle u₁ _ u₂ h₂).appends
  have looked'' := (looks_expr into value free' u₂ x u₃ h₃).appends
  have writes := (UnitState.Stored.emit u₃ ((stack.child handle).set y none [])).appends
  have whole := looked.trans (looked'.trans (looked''.trans writes))
  have effect : Effect (u₃.withList (u₃.list.extend ((stack.child handle).set y none [])))
      ((stack.child handle).set y none []) _ :=
    .written ((looked'.trans looked'').grows.session.classes ▸ found)
      (looked''.grows.session.classData.fieldStack stacked)
  refine ⟨_, _, whole, effect, fun before _ => ?_⟩
  -- the field and the value are lowered in this order also where the event is read off
  have both : run (lowerExprs into [.field object className field, value]) s =
      some (.ok [(stack.child handle).get none, x], u₃) := by
    rw [lowerExprs, lowerExprs, lowerExprs, lowerExpr]
    refine run_bind_ok.2 ⟨_, u₂, run_bind_ok.2 ⟨_, _, h₁, run_bind_ok.2 ⟨_, _, h₂, rfl⟩⟩, ?_⟩
    exact run_bind_ok.2 ⟨_, u₃, run_bind_ok.2 ⟨_, _, h₃, rfl⟩, rfl⟩
  rw [StmtKind.events, numberOf_eq h₁, both, ← written]

/-- The code of an assignment to a variable has no event. -/
theorem acts_assign_var (noted : s.Noted) {name : String} {index : List Expr} {op : AssignOp}
    {value : Expr} (free : index.all Expr.effectFree = true) (free' : value.effectFree = true)
    (h : run (lowerKind into (.assign (.var name) index op value)) s = some (.ok (), t)) :
    Acts into (.assign (.var name) index op value) s t := by
  rw [lowerKind] at h
  obtain ⟨is, u₁, h₁, h⟩ := run_bind_ok.1 h
  obtain ⟨v, u₂, h₂, h⟩ := run_bind_ok.1 h
  obtain ⟨x, u₃, h₃, h⟩ := run_bind_ok.1 h
  obtain ⟨actions, u₄, h₄, h⟩ := run_bind_ok.1 h
  obtain ⟨written, rfl⟩ := run_lift_ok.1 h₄
  cases h
  have looked := (looks_exprs into index free s is u₁ h₁).appends
  obtain rfl := run_lookup_ok h₂
  have looked' := (looks_expr into value free' _ x u₃ h₃).appends
  have whole := looked.trans (looked'.trans (UnitState.Stored.emit u₃ actions).appends)
  refine ⟨_, _, whole, .quiet fun a mem => ?_, fun _ _ => rfl⟩
  have within := set_within_of_noted (looked.noted noted) (run_lookup_bound h₂) written a mem
  exact within.mono fun l mem => looked'.grows.ownPlaces l (List.mem_append_left _ mem)

/-- Nor has that of an assignment to a static field. -/
theorem acts_assign_static {className field : String} {index : List Expr} {op : AssignOp}
    {value : Expr} (free : index.all Expr.effectFree = true) (free' : value.effectFree = true)
    (h : run (lowerKind into (.assign (.staticField className field) index op value)) s =
      some (.ok (), t)) : Acts into (.assign (.staticField className field) index op value)
        s t := by
  rw [lowerKind] at h
  obtain ⟨is, u₁, h₁, h⟩ := run_bind_ok.1 h
  obtain ⟨v, u₂, h₂, h⟩ := run_bind_ok.1 h
  obtain ⟨x, u₃, h₃, h⟩ := run_bind_ok.1 h
  cases h
  have looked := (looks_exprs into index free s is u₁ h₁).appends
  have looked' := (Looks.staticVar className field _ v u₂ h₂).appends
  have looked'' := (looks_expr into value free' _ x u₃ h₃).appends
  have whole := looked.trans (looked'.trans (looked''.trans (UnitState.Stored.emit u₃
    (v.set (combine op (v.get none) is x) none is)).appends))
  have own : v.location ∈ u₂.ownPlaces := by
    obtain ⟨_, _, -, h₂⟩ := run_bind_ok.1 h₂
    obtain ⟨_, _, -, h₂⟩ := run_bind_ok.1 h₂
    obtain ⟨storage, ran, rfl⟩ := run_onStorage_ok.1 h₂
    obtain ⟨p, mem, rfl⟩ := List.mem_map.1 (ClassStorage.staticField_mem ran)
    exact List.mem_append_right _ (List.mem_map.2 ⟨p, mem, rfl⟩)
  refine ⟨_, _, whole, .quiet fun a mem => ?_, fun _ _ => rfl⟩
  exact IndexedVar.set_within (looked''.grows.ownPlaces _ own) _ _ _ a mem

/-- Nor has that of an assignment to a variable of another actor. -/
theorem acts_assign_actorVar (noted : s.Noted) {actor : Expr} {name : String} {index : List Expr}
    {op : AssignOp} {value : Expr} (free : index.all Expr.effectFree = true)
    (free' : actor.effectFree = true) (free'' : value.effectFree = true)
    (h : run (lowerKind into (.assign (.actorVar actor name) index op value)) s =
      some (.ok (), t)) :
    Acts into (.assign (.actorVar actor name) index op value) s t := by
  rw [lowerKind] at h
  obtain ⟨is, u₁, h₁, h⟩ := run_bind_ok.1 h
  obtain ⟨v, u₂, h₂, h⟩ := run_bind_ok.1 h
  obtain ⟨who, u₃, h₃, h⟩ := run_bind_ok.1 h
  obtain ⟨x, u₄, h₄, h⟩ := run_bind_ok.1 h
  obtain ⟨actions, u₅, h₅, h⟩ := run_bind_ok.1 h
  obtain ⟨written, rfl⟩ := run_lift_ok.1 h₅
  cases h
  -- all that is lowered only looks, and then one write is emitted
  have looked := (looks_exprs into index free s is u₁ h₁).appends
  obtain ⟨rfl, h₂, -⟩ := run_actorVar_ok h₂
  have looked' := (looks_expr into actor free' _ who u₃ h₃).appends
  have looked'' := looked'.trans (looks_expr into value free'' _ x u₄ h₄).appends
  have whole := looked.trans (looked''.trans (UnitState.Stored.emit u₄ actions).appends)
  refine ⟨_, _, whole, .quiet fun a mem => ?_, fun _ _ => rfl⟩
  have within := set_within_of_noted (looked.noted noted) (run_lookup_bound h₂) written a mem
  exact within.mono fun l mem => looked''.grows.ownPlaces l (List.mem_append_left _ mem)

/-- A simple statement has one of the four effects. -/
theorem acts_kind (plain : into.Plain) (frame : s.inRecursiveFrame = false) (noted : s.Noted)
    {k : StmtKind} (simple : k.simple s.session.classes = true)
    (h : run (lowerKind into k) s = some (.ok (), t)) (clean : t.deferred = []) :
    Acts into k s t := by
  cases k with
  | define name initial stacked => exact acts_define plain frame simple h clean
  | expr e => exact acts_expr plain frame simple h clean
  | delete object className => exact acts_delete frame simple h clean
  | assign target index op value =>
    cases target with
    | var name =>
      obtain ⟨free, free'⟩ := Bool.and_eq_true_iff.1 simple
      exact acts_assign_var noted free free' h
    | staticField className field =>
      obtain ⟨free, free'⟩ := Bool.and_eq_true_iff.1 simple
      exact acts_assign_static free free' h
    | field object className field =>
      obtain ⟨front, free'⟩ := Bool.and_eq_true_iff.1 simple
      obtain ⟨free, empty⟩ := Bool.and_eq_true_iff.1 front
      obtain rfl : index = [] := List.isEmpty_iff.1 empty
      exact acts_assign_field free free' h
    | actorVar actor name =>
      obtain ⟨front, free''⟩ := Bool.and_eq_true_iff.1 simple
      obtain ⟨free', free⟩ := Bool.and_eq_true_iff.1 front
      exact acts_assign_actorVar noted free free' free'' h
  | _ => cases simple

end Lower

end SkipCode
