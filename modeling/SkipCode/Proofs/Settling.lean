import SkipCode.Proofs.Making
import SkipCode.Proofs.Scenes

/-!
# The code of an expression settles it

Where a name stands for its term, the code of an expression runs its calls, and its element means
what is left of it (`settles_runs`). What the calls do is a hypothesis here. Assignments write to
what their targets stand for (`Target`).
-/

namespace SkipCode

open Engine (Host Memory)
open Lower
open Source (AssignOp Expr Place)

theorem except_of_toOption {ε α : Type} {x : Except ε α} {a : α} (h : x.toOption = some a) :
    x = .ok a := by
  cases x with
  | error => cases h
  | ok => exact congrArg _ (Option.some.inj h)

/-! ## The storage of fields -/

theorem ClassTable.findStatic_mem {t : ClassTable} {className field owner : String}
    {decl : Source.FieldDecl} (found : t.findStatic className field = .ok (owner, decl)) :
    owner ∈ t.decls.map (·.name) := by
  obtain ⟨up, walked, found⟩ := except_bind_ok.1 found
  dsimp only at found
  split at found
  · next pair e =>
    cases found
    obtain ⟨d, mem, e⟩ := List.exists_of_findSome?_eq_some e
    obtain ⟨f, -, e⟩ := Option.map_eq_some_iff.1 e
    cases e
    obtain ⟨layout, -, e⟩ := except_bind_ok.1 walked
    cases e
    obtain ⟨name, -, named⟩ := List.mem_filterMap.1 mem
    exact List.mem_map_of_mem (List.mem_of_find?_eq_some named)
  · cases found

theorem ClassStorage.run_staticField_at {className field : String} {a b : ClassStorage}
    {v : IndexedVar} (h : Attempt.run (staticField className field) a = (.ok v, b)) :
    b.data.statics.lookup (className ++ "." ++ field) = some v := by
  cases h ▸ a.asked_staticField className field with
  | known found => exact found
  | made _ _ found => exact found

theorem Lower.run_staticVar_ok {className field : String} {s t : UnitState} {v : IndexedVar}
    (h : run (staticVar className field) s = some (.ok v, t)) :
    ∃ owner decl, s.session.classes.findStatic className field = .ok (owner, decl) ∧
      t.session.classData.statics.lookup (owner ++ "." ++ field) = some v := by
  obtain ⟨_, _, ⟨⟩, h₁⟩ := run_bind_ok.1 h
  obtain ⟨⟨owner, decl⟩, _, lifted, h₂⟩ := run_bind_ok.1 h₁
  obtain ⟨found, rfl⟩ := run_lift_ok.1 lifted
  obtain ⟨storage, ran, rfl⟩ := run_onStorage_ok.1 h₂
  exact ⟨owner, decl, found, ClassStorage.run_staticField_at ran⟩

namespace ClassData.Grows

variable {d d' : ClassData} {v : IndexedVar}

theorem static (grows : d.Grows d') {key : String} (found : d.statics.lookup key = some v) :
    d'.statics.lookup key = some v := by
  obtain ⟨rest, e⟩ := grows.statics
  rw [← e, List.lookup_append, found]
  rfl

end ClassData.Grows

/-- Such a step leaves the scopes alone. -/
theorem Lower.Looks.scopes {α : Type} {m : Lower α} {s t : UnitState} {actions : List Action}
    {r : α} (looks : Looks m) (e : Emits m s actions r t) : t.scopes = s.scopes := by
  obtain ⟨storage, rfl, -⟩ := looks s r t e.run
  rfl

theorem Lower.Looks.resolveTarget (target : Place) (os : List Element) :
    Looks (Lower.resolveTarget target os) := by
  unfold Lower.resolveTarget
  split
  · exact .lookup _
  · exact .bind (.fieldVar _ _ _) fun _ => .pure _
  · exact .bind (.staticVar _ _) fun _ => .pure _
  · exact fun s a t h => nomatch h

namespace Meaning

/-- A call finds the callee that it means. -/
theorem callee_eq {h : Host} {T s : UnitState} {className : Option String} {method : String}
    {callee callee' : Callee} (found : (setting h T).callee? className method = some callee)
    (e : Emits (resolveCallee className method) s [] callee' s) (later : s.Grows T) :
    callee' = callee := by
  obtain ⟨_, _, ⟨⟩, h₁⟩ := run_bind_ok.1 e.run
  cases className with
  | none =>
    obtain ⟨decl, _, h₂, h₃⟩ := run_bind_ok.1 h₁
    rw [run_lift_ok] at h₂
    obtain ⟨decl', here, rfl⟩ := Option.map_eq_some_iff.1 found
    change T.session.functions.find? _ = _ at here
    have same := h₂.1
    rw [Session.findFunction, ← later.session.functions, here] at same
    cases same
    cases h₃
    rfl
  | some className =>
    obtain ⟨⟨owner, decl⟩, _, h₂, h₃⟩ := run_bind_ok.1 h₁
    rw [run_lift_ok] at h₂
    obtain ⟨⟨owner', decl'⟩, here, rfl⟩ := Option.map_eq_some_iff.1 found
    have same := except_of_toOption here
    change T.session.classes.findMethod _ _ = _ at same
    rw [later.session.classes, h₂.1] at same
    cases same
    cases h₃
    rfl

section

variable {h : Host} {S : Location → Prop} {T : UnitState} {B : Body} {κ κ' : Layout}
  {L : List LoopType} {env : Env} {site : Nat} {s t : UnitState} {m : Memory} {st st' : State}
  {v : Variable} {u : Term}

/-! ## Targets -/

/-- What a variable of the target stands for that can be written. -/
inductive Target (h : Host) (S : Location → Prop) (T : UnitState) (κ : Layout) :
    Variable → Term → Prop
  | box {v c} : Stands h S T κ v (.box c) → Target h S T κ v (.box c)
  | field {i : Nat} {stack : IndexedVar} {x u} : T.session.classData.fieldStacks[i]? = some stack →
      Means h S T κ x u → Target h S T κ (.indexed (stack.child x)) (.field i u)
  | static {owner field : String} {v : IndexedVar} : owner ∈ T.session.classes.decls.map (·.name) →
      T.session.classData.statics.lookup (owner ++ "." ++ field) = some v →
      Target h S T κ (.indexed v) (.static owner field)

/-- The field of an instance. -/
theorem Target.of_fieldVar {className field : String} {x : Element} {w : IndexedVar}
    (later : t.Grows T) (e : Emits (fieldVar className field x) s [] w t) {slot : FieldSlot}
    (found : T.session.classes.findField className field = .ok slot) (handle : Means h S T κ x u) :
    Target h S T κ (.indexed w) (.field slot.stack u) := by
  obtain ⟨slot', stack, found', here, rfl⟩ := run_fieldVar_ok e.run
  have classes := (e.extends'.grows.trans later).session.classes
  rw [← classes, found] at found'
  cases found'
  exact .field (later.session.classData.fieldStack here) handle

theorem Target.of_staticVar {className field owner : String} {decl : Source.FieldDecl}
    {w : IndexedVar} (later : t.Grows T) (e : Emits (staticVar className field) s [] w t)
    (found : T.session.classes.findStatic className field = .ok (owner, decl)) :
    Target h S T κ (.indexed w) (.static owner field) := by
  obtain ⟨owner', decl', found', here⟩ := run_staticVar_ok e.run
  have classes := (e.extends'.grows.trans later).session.classes
  rw [← classes, found] at found'
  cases found'
  exact .static (ClassTable.findStatic_mem found) (later.session.classData.static here)

/-- The target of an assignment. -/
theorem Target.of_resolveTarget {target : Place} {os : List Element} {ts : List Term}
    (later : t.Grows T) (sees : Sees h S T B κ env s) (e : Emits (resolveTarget target os) s [] v t)
    (operands : List.Forall₂ (Means h S T κ) os ts)
    (found : targetOf (setting h T) env target ts = some u) :
    Target h S T κ v u := by
  cases target with
  | var name =>
    rw [targetOf] at found
    split at found
    · next c here =>
      cases found
      obtain ⟨-, v', bound, stands⟩ := sees.names name _ here
      obtain ⟨bound', -⟩ := run_lookup_eq.1 e.run
      rw [bound] at bound'
      cases bound'
      exact .box stands
    · cases found
  | field object className field =>
    rcases operands with _ | ⟨first, _ | _⟩
    · cases found
    · obtain ⟨slot, here, rfl⟩ := Option.map_eq_some_iff.1 found
      obtain ⟨w, t', ran, rest⟩ := run_bind_ok.1 e.run
      cases rest
      exact .of_fieldVar later ⟨ran, e.extends', e.clean⟩ (except_of_toOption here) first
    · cases found
  | staticField className field =>
    obtain ⟨⟨owner, decl⟩, here, rfl⟩ := Option.map_eq_some_iff.1 found
    obtain ⟨w, t', ran, rest⟩ := run_bind_ok.1 e.run
    cases rest
    exact .of_staticVar later ⟨ran, e.extends', e.clean⟩ (except_of_toOption here)
  | actorVar => cases found

theorem Target.mono (target : Target h S T κ v u) (le : κ.Le κ') : Target h S T κ' v u := by
  cases target with
  | box stands => exact .box (stands.mono le)
  | field found handle => exact .field found (handle.mono le)
  | static declared found => exact .static declared found

theorem Target.means (target : Target h S T κ v u) (ground : Ground h S T) :
    Means h S T κ v.get u := by
  cases target with
  | box stands => exact stands.means
  | field found handle => exact handle.field ground found
  | static declared found => exact Means.static ground declared found

/-- A write to a target. -/
theorem Target.assigns {name : String} {x : Element} {xs : List Element} {r : Term} {ts : List Term}
    {actions : List Action} {d : Nat} {base : Location → List Value} {Δ : List Location}
    (target : Target h S T κ v u) (ground : Ground h S T)
    (set : v.set name x xs = .ok actions) (agrees : Agrees h S T base d κ Δ st m)
    (path : List.Forall₂ (Means h S T κ) xs ts) (value : Means h S T κ x r)
    (done : st.write h.config.maxArrayLength u (evalAll st ts) (r.eval st false) = some st') :
    ∃ m', h.acts m actions = some m' ∧ Agrees h S T base d κ Δ st' m' := by
  cases target with
  | box stands =>
    have carries := stands.carries _ rfl
    cases v with
    | indexed v =>
      cases set
      exact agrees.assign_slot ground carries.1 carries.2.1 carries.2.2.1 carries.2.2.2 path
        value done
    | recursive v =>
      cases set
      exact agrees.assign_top ground carries.1 carries.2.1 carries.2.2 path value done
    | reference e => cases set
  | field found handle =>
    cases set
    exact agrees.assign_field ground found handle path value done
  | static declared found =>
    cases set
    exact agrees.assign_static ground declared found path value done

/-! ## Expressions -/

/-- What calls mean is what their code does. -/
def CallsRun (h : Host) (S : Location → Prop) (T : UnitState) (B : Body) (calls : Calls) : Prop :=
  ∀ {L env site s t κ m st callee receiver rs xs ts c x r w},
    Lowers (.call callee receiver xs) s c [x] t → t.Grows T →
    Scene S T B L site s → Roomy L B.depth s → Sees h S T B κ env s →
    Agrees h S T B.base B.calls κ (B.stackPlaces s) st m →
    List.Forall₂ (Means h S T κ) receiver.toList rs → List.Forall₂ (Means h S T κ) xs ts →
    calls B.mode callee (evalAll st rs).head? (evalAll st ts) st.world r w →
    ∃ m' κ', Exec h B.routines c m .next m' ∧ κ.Le κ' ∧
      (∀ v, r = some v → Means h S T κ' x (.value v)) ∧
      Sees h S T B κ' env t ∧ Agrees h S T B.base B.calls κ'
        (B.stackPlaces t) { st with world := w } m'

/-- What the code of expressions has done at its end, where `κ'` is known. -/
structure Evaluated (h : Host) (S : Location → Prop) (T : UnitState) (B : Body) (κ : Layout)
    (env : Env) (t : UnitState) (c : Code) (m : Memory) (xs : List Element) (ts : List Term)
    (st' : State) (m' : Memory) (κ' : Layout) : Prop where
  exec : Exec h B.routines c m .next m'
  le : κ.Le κ'
  means : List.Forall₂ (Means h S T κ') xs ts
  sees : Sees h S T B κ' env t
  agrees : Agrees h S T B.base B.calls κ' (B.stackPlaces t) st' m'

/-- Behind an expression. -/
theorem Scene.behind {task : Task} {c : Code} {xs : List Element} (scene : Scene S T B L site s)
    (ground : Ground h S T) (roomy : Roomy L B.depth s) (lowers : Lowers task s c xs t)
    (later : t.Grows T) (kinds : task.kinds = []) (sites : task.sites = 0)
    (result : task.result? = none) : Scene S T B L site t := by
  have next := scene.next ground (.inr roomy) lowers (.of_none kinds result)
    (fun _ k mem => by rw [kinds] at mem; cases mem) later
  rwa [sites] at next

/-- A name is there already. -/
theorem Evaluated.name {name : String} (found : env.lookup name = some u)
    (e : Emits (lookup name) s [] v s) (sees : Sees h S T B κ env s)
    (agrees : Agrees h S T B.base B.calls κ (B.stackPlaces s) st m) :
    Evaluated h S T B κ env s (.acts []) m [v.get] [u] st m κ := by
  obtain ⟨-, v', bound, stands⟩ := sees.names _ _ found
  obtain ⟨bound', -⟩ := run_lookup_eq.1 e.run
  cases bound.symm.trans bound'
  exact ⟨.acts rfl, .refl κ, .cons stands.means .nil, sees, agrees⟩

/-- Behind a look into the storage of fields. -/
theorem Evaluated.looked {c : Code} {xs xs' : List Element} {ts ts' : List Term} {m' : Memory}
    {α : Type} {look : Lower α} {r : α} (evaluated : Evaluated h S T B κ env s c m xs ts st' m' κ')
    (looks : Looks look) (e : Emits look s [] r t) (means : List.Forall₂ (Means h S T κ') xs' ts') :
    Evaluated h S T B κ env t c m xs' ts' st' m' κ' := by
  have scopes := looks.scopes e
  refine ⟨evaluated.exec, evaluated.le, means, evaluated.sees.steady e.extends'.steady scopes, ?_⟩
  rw [Body.stackPlaces, scopes]
  exact evaluated.agrees

/-- A receiver is one expression at most. -/
theorem receiver_toList {callee : Callee} {object : Option Expr} {c : Code} {rs : List Element}
    (lowers : Lowers (.exprs (receiverOf callee object)) s c rs t) : rs.head?.toList = rs := by
  unfold receiverOf at lowers
  split at lowers
  · cases lowers with
    | cons _ rest =>
      cases rest
      rfl
  · cases lowers
    rfl

/-- The code of expressions, wherever it stands, leaves elements that mean what is left of them. -/
def SettlesRun (h : Host) (S : Location → Prop) (T : UnitState) (B : Body) (env : Env) (task : Task)
    (st : State) (ts : List Term) (st' : State) : Prop :=
  ∀ {L κ site s t c xs m}, Lowers task s c xs t → t.Grows T → Scene S T B L site s →
    Roomy L B.depth s →
    Sees h S T B κ env s → Agrees h S T B.base B.calls κ (B.stackPlaces s) st m →
    ∃ m' κ', Evaluated h S T B κ env t c m xs ts st' m' κ'

/-- A call with its receiver and its arguments, whether its result is used or not. -/
theorem call_settles {calls : Calls} {className : Option String} {method : String}
    {object : Option Expr} {arguments : List Expr} {callee : Callee} {us ts : List Term}
    {st₁ st₂ : State} {r : Option Value} {w : World} {c : Code} {xs : List Element}
    (ground : Ground h S T) (runs : CallsRun h S T B calls)
    (resolved : (setting h T).callee? className method = some callee)
    (receiver : SettlesRun h S T B env (.exprs (receiverOf callee object)) st us st₁)
    (operands : SettlesRun h S T B env (.exprs arguments) st₁ ts st₂)
    (called : calls B.mode callee (evalAll st₂ us).head? (evalAll st₂ ts) st₂.world r w)
    (lowers : Lowers (.expr (.call className method object arguments)) s c xs t) (later : t.Grows T)
    (scene : Scene S T B L site s) (roomy : Roomy L B.depth s) (sees : Sees h S T B κ env s)
    (agrees : Agrees h S T B.base B.calls κ (B.stackPlaces s) st m) :
    ∃ m' κ', Exec h B.routines c m .next m' ∧ κ.Le κ' ∧
      (∀ v, r = some v → List.Forall₂ (Means h S T κ') xs [.value v]) ∧ Sees h S T B κ' env t ∧
        Agrees h S T B.base B.calls κ' (B.stackPlaces t) { st₂ with world := w } m' := by
  cases lowers with
  | node element => cases element
  | call e _ h₁ h₂ h₃ =>
    have later₂ := h₃.steady.grows.trans later
    have later₁ := h₂.steady.grows.trans later₂
    obtain rfl := callee_eq resolved e (h₁.steady.grows.trans later₁)
    obtain ⟨m₁, κ₁, first⟩ := receiver h₁ later₁ scene roomy sees agrees
    have scene₁ := scene.behind ground roomy h₁ later₁ rfl rfl rfl
    have roomy₁ := roomy.steady h₁.steady
    obtain ⟨m₂, κ₂, second⟩ := operands h₂ later₂ scene₁ roomy₁ first.sees first.agrees
    have scene₂ := scene₁.behind ground roomy₁ h₂ later₂ rfl rfl rfl
    -- the receiver still means what it did behind the arguments
    have means := first.means.imp fun _ _ means => means.mono second.le
    rw [← receiver_toList h₁] at means
    obtain ⟨m', κ', exec, le, result, sees, agrees⟩ :=
      runs h₃ later scene₂ (roomy₁.steady h₂.steady) second.sees second.agrees means
        second.means called
    exact ⟨m', κ', first.exec.seq (second.exec.seq exec), first.le.trans (second.le.trans le),
      fun v e => .cons (result v e) .nil, sees, agrees⟩

/-- The code of expressions leaves elements that mean what is left of them. -/
theorem settles_runs {calls : Calls} {task : Task} {ts : List Term} (ground : Ground h S T)
    (runs : CallsRun h S T B calls)
    (settles : Settles (setting h T) calls B.mode env task st ts st') :
    SettlesRun h S T B env task st ts st' := by
  induction settles with
  | nil =>
    intro L κ site s t c xs m lowers later scene roomy sees agrees
    cases lowers
    exact ⟨m, κ, .acts rfl, .refl κ, .nil, sees, agrees⟩
  | cons _ _ ih₁ ih₂ =>
    intro L κ site s t c xs m lowers later scene roomy sees agrees
    cases lowers with
    | cons h₁ h₂ =>
      have later₁ := h₂.steady.grows.trans later
      obtain ⟨m₁, κ₁, first⟩ := ih₁ h₁ later₁ scene roomy sees agrees
      have scene₁ := scene.behind ground roomy h₁ later₁ rfl rfl rfl
      obtain ⟨m₂, κ₂, rest⟩ := ih₂ h₂ later scene₁ (roomy.steady h₁.steady) first.sees first.agrees
      obtain ⟨mean, -⟩ := List.forall₂_cons.1 first.means
      exact ⟨m₂, κ₂, first.exec.seq rest.exec, first.le.trans rest.le,
        .cons (mean.mono rest.le) rest.means,
        rest.sees, rest.agrees⟩
  | node term _ ih =>
    intro L κ site s t c xs m lowers later scene roomy sees agrees
    cases lowers with
    | node element h₁ =>
      cases Means.operands_eq element term
      obtain ⟨m', κ', operands⟩ := ih h₁ later scene roomy sees agrees
      exact ⟨m', κ', operands.exec, operands.le, .cons (.node element term operands.means) .nil,
        operands.sees,
        operands.agrees⟩
    | var | this | field | staticField | actorVar | call | new => cases term
  | var found =>
    intro L κ site s t c xs m lowers later scene roomy sees agrees
    cases lowers with
    | node element => cases element
    | var e => exact ⟨m, κ, .name found e sees agrees⟩
  | this found =>
    intro L κ site s t c xs m lowers later scene roomy sees agrees
    cases lowers with
    | node element => cases element
    | this e => exact ⟨m, κ, .name found e sees agrees⟩
  | field _ found ih =>
    intro L κ site s t c xs m lowers later scene roomy sees agrees
    cases lowers with
    | node element => cases element
    | field h₁ e =>
      obtain ⟨m', κ', object⟩ := ih h₁ (e.extends'.grows.trans later) scene roomy sees agrees
      obtain ⟨handle, -⟩ := List.forall₂_cons.1 object.means
      exact ⟨m', κ', object.looked (.fieldVar _ _ _) e
        (.cons ((Target.of_fieldVar later e found handle).means ground)
        .nil)⟩
  | staticField found =>
    intro L κ site s t c xs m lowers later scene roomy sees agrees
    cases lowers with
    | node element => cases element
    | staticField e =>
      have nothing : Evaluated h S T B κ env s (.acts []) m [] [] _ m κ :=
        ⟨.acts rfl, .refl κ, .nil, sees, agrees⟩
      exact ⟨m, κ, nothing.looked (.staticVar _ _) e
        (.cons ((Target.of_staticVar later e found).means ground) .nil)⟩
  | call resolved _ _ _ called ih₁ ih₂ =>
    intro L κ site s t c xs m lowers later scene roomy sees agrees
    obtain ⟨m', κ', exec, le, means, sees, agrees⟩ :=
      call_settles ground runs resolved ih₁ ih₂ called lowers later scene roomy sees agrees
    exact ⟨m', κ', exec, le, means _ rfl, sees, agrees⟩

end

end Meaning

end SkipCode
