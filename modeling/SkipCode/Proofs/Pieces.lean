import Mathlib.Logic.Relation
import SkipCode.Proofs.Bindings

/-!
# The pieces that a piece of the source is made of

`Needs` says of which pieces the lowering of a piece is made and in which states they are lowered;
it goes into the bodies that calls expand, as lowering does. `Task.Comes` is what lowering comes to
by any number of such steps, and `Task.ComesInBody` what it comes to without leaving the body that
it is in.

* `Task.Comes.affirms`: no name stands for a negation, wherever the lowering of a unit comes to;
* `Task.ComesInBody.bound`: a name that a body does not declare stands for the same throughout the
  body.
-/

namespace SkipCode

open Lower
open Source (AssignOp Branch Expr Place Stmt StmtKind)

/-- To lower the first piece from its state, the second one is lowered from its own. -/
inductive Needs : Task → UnitState → Task → UnitState → Prop
  -- expressions
  | first {e es s} : Needs (.exprs (e :: es)) s (.expr e) s
  | rest {e es s c x s₁} : Lowers (.expr e) s c [x] s₁ → Needs (.exprs (e :: es)) s (.exprs es) s₁
  | node {e es build s} : nodeOf e = some (es, build) → Needs (.expr e) s (.exprs es) s
  | object {object className field s} : Needs (.expr (.field object className field)) s
      (.expr object) s
  | actor {actor name s} : Needs (.expr (.actorVar actor name)) s (.expr actor) s
  | receiver {className method object arguments callee s} :
      Emits (resolveCallee className method) s [] callee s →
      Needs (.expr (.call className method object arguments)) s
        (.exprs (receiverOf callee object)) s
  | arguments {className method object arguments callee s c rs s₁} :
      Emits (resolveCallee className method) s [] callee s →
      Lowers (.exprs (receiverOf callee object)) s c rs s₁ →
      Needs (.expr (.call className method object arguments)) s (.exprs arguments) s₁
  | call {className method object arguments callee s c rs s₁ d xs s₂} :
      Emits (resolveCallee className method) s [] callee s →
      Lowers (.exprs (receiverOf callee object)) s c rs s₁ → Lowers (.exprs arguments) s₁ d xs s₂ →
      Needs (.expr (.call className method object arguments)) s (.call callee rs.head? xs) s₂
  | constructed {className constructorIndex arguments s} :
      Needs (.expr (.new className constructorIndex arguments)) s (.exprs arguments) s
  | make {className constructorIndex arguments s c xs s₁} : Lowers (.exprs arguments) s c xs s₁ →
      Needs (.expr (.new className constructorIndex arguments)) s
        (.make className constructorIndex xs) s₁
  -- bodies
  | body {key params body receiver arguments result s actions s₁} :
      Emits (bindCall receiver params arguments) (s.opened.entered (s.expanded (some key) result))
        actions () s₁ →
      Needs (.body key params body receiver arguments result) s (.block body) s₁
  | inline {callee receiver arguments s result s₁} : callee.decl.recursive = false →
      Emits (temp "ret") s [] result s₁ →
      Needs (.call callee receiver arguments) s
        (.body callee.key callee.decl.params callee.decl.body receiver arguments (some result)) s₁
  | region {callee receiver arguments s result s₁ address s₂ entry region s₃} :
      callee.decl.recursive = true → findRegion? s.regions callee.key = none →
      Emits (temp "ret") s [] result s₁ → Emits (temp "addr") s₁ [] address s₂ →
      Emits (openRegion callee.key callee.decl.params receiver arguments result) s₂.opened
        entry region s₃ →
      Needs (.call callee receiver arguments) s (.block callee.decl.body)
        ((s₃.entered (s₂.activation callee.key result)).within region)
  | makeInitials {className constructorIndex arguments s hidden s₁ declared handle s₂ layout s₃
      acquired
      s₄ fields} :
      fieldInitials s.session.classes className = .ok fields →
        Emits (hiddenName "new") s [] hidden s₁ →
      Emits (declare hidden none false) s₁ declared handle s₂ →
      Emits (onStorage (ClassStorage.prepare layout)) s₂ [] () s₃ →
      Emits (onStorage (ClassStorage.acquireHandle s.session.config handle)) s₃ acquired () s₄ →
      Needs (.make className constructorIndex arguments) s (.initials handle.get fields) s₄
  | makeBody {className constructorIndex arguments s constructor hidden s₁ declared handle s₂
      layout s₃
      acquired s₄ fields c s₅} :
      s.session.classes.constructor className constructorIndex = .ok constructor →
      Emits (hiddenName "new") s [] hidden s₁ →
      Emits (declare hidden none false) s₁ declared handle s₂ →
      Emits (onStorage (ClassStorage.prepare layout)) s₂ [] () s₃ →
      Emits (onStorage (ClassStorage.acquireHandle s.session.config handle)) s₃ acquired () s₄ →
      Lowers (.initials handle.get fields) s₄ c [] s₅ →
      Needs (.make className constructorIndex arguments) s
        (.body s!"{className}.new#{constructorIndex}" constructor.params constructor.body
          (some handle.get) arguments none) s₅
  | initials {this fields s} : Needs (.initials this fields) s (.fields this fields)
      { s.entered (s.expanded none none) with
        scopes := ⟨[("this", .reference this)], [], []⟩ :: s.scopes }
  | field {this stack initial rest s} :
      Needs (.fields this ((stack, initial) :: rest)) s (.exprs initial.toList) s
  | fields {this stack initial rest s c xs s₁ v s₂} (list) : Lowers
      (.exprs initial.toList) s c xs s₁ →
      Emits (onStorage (ClassStorage.fieldStack stack)) s₁ [] v s₂ →
      Needs (.fields this ((stack, initial) :: rest)) s (.fields this rest) (s₂.withList list)
  | static {className field e rest s} :
      Needs (.statics ((className, field, e) :: rest)) s (.expr e) s
  | statics {className field e rest s c x s₁ v s₂} (list) : Lowers (.expr e) s c [x] s₁ →
      Emits (staticVar className field) s₁ [] v s₂ →
      Needs (.statics ((className, field, e) :: rest)) s (.statics rest) (s₂.withList list)
  -- statements
  | kind {k span s} : Needs (.stmt (.mk k span)) s (.kind k) { s with span := span }
  | stmt {first rest s} : Needs (.stmts (first :: rest)) s (.stmt first) s
  | stmts {first rest s c s₁} : Lowers (.stmt first) s c [] s₁ →
      Needs (.stmts (first :: rest)) s (.stmts rest) s₁
  | block {body s} : Needs (.block body) s (.stmts body) s.opened
  | define {name initial recursive s} :
      Needs (.kind (.define name initial recursive)) s (.exprs initial.toList) s
  | index {target index op value s} : Needs (.kind (.assign target index op value)) s
      (.exprs index) s
  | target {target index op value s c is s₁} : Lowers (.exprs index) s c is s₁ →
      Needs (.kind (.assign target index op value)) s (.exprs (targetOperands target)) s₁
  | value {target index op value s c is s₁ d os s₂ v s₃} : Lowers (.exprs index) s c is s₁ →
      Lowers (.exprs (targetOperands target)) s₁ d os s₂ →
        Emits (resolveTarget target os) s₂ [] v s₃ →
      Needs (.kind (.assign target index op value)) s (.expr value) s₃
  | targetActor {actor name index op value s c is s₁} : Lowers (.exprs index) s c is s₁ →
      Needs (.kind (.assign (.actorVar actor name) index op value)) s (.expr actor) s₁
  | actorValue {actor name index op value s c is s₁ d a s₂} : Lowers (.exprs index) s c is s₁ →
      Lowers (.expr actor) s₁ d [a] s₂ →
      Needs (.kind (.assign (.actorVar actor name) index op value)) s (.expr value) s₂
  | cond {branches otherwise s} :
      Needs (.kind (.cond branches otherwise)) s (.arms branches otherwise) s
  | while {condition body s} : Needs (.kind (.while condition body)) s (.loop condition body []) s
  | start {start condition step body s} :
      Needs (.kind (.for start condition step body)) s (.stmts start.toList) s.opened
  | for {start condition step body s c s₁} : Lowers (.stmts start.toList) s.opened c [] s₁ →
      Needs (.kind (.for start condition step body)) s (.loop condition body step.toList) s₁
  | array {element index array body s} :
      Needs (.kind (.forEach element index array body)) s (.expr array) s
  | forEach {element index array body s c x s₁ name s₂ declared v s₃} (list list') :
      Lowers (.expr array) s c [x] s₁ → Emits (indexName index) s₁.opened [] name s₂ →
      Emits (declare name none false) s₂ declared v s₃ →
      Needs (.kind (.forEach element index array body)) s (.stmts body)
        { (s₃.looping list).withList list' with
          scopes := ⟨[(element, .reference (.itemAt x v.get))], [], []⟩ :: s₃.scopes }
  | return {value s} : Needs (.kind (.return value)) s (.exprs value.toList) s
  | delete {object className s} : Needs (.kind (.delete object className)) s (.expr object) s
  | blockKind {body s} : Needs (.kind (.block body)) s (.block body) s
  | exprKind {value s} : Needs (.kind (.expr value)) s (.expr value) s
  -- arms and loops
  | otherwise {body s} : Needs (.arms [] (some body)) s (.block body) s
  | condition {condition body rest otherwise s} :
      Needs (.arms (.mk condition body :: rest) otherwise) s (.expr condition) s.opened
  | arm {condition body rest otherwise s c x s₁ pops s₂} (list) :
      Lowers (.expr condition) s.opened c [x] s₁ → Closes (s₁.withList list) pops s₂ →
      Needs (.arms (.mk condition body :: rest) otherwise) s (.block body) s₂
  | arms {condition body rest otherwise s c x s₁ pops s₂ d s₃} (list list') :
      Lowers (.expr condition) s.opened c [x] s₁ → Closes (s₁.withList list) pops s₂ →
      Lowers (.block body) s₂ d [] s₃ →
      Needs (.arms (.mk condition body :: rest) otherwise) s (.arms rest otherwise)
        (s₃.withList list')
  | test {condition body step s} (list) :
      Needs (.loop condition body step) s (.expr condition) (s.looping list).opened
  | pass {condition body step s c x s₁ pops s₂} (list list') :
      Lowers (.expr condition) (s.looping list).opened c [x] s₁ →
      Closes (s₁.withList list') pops s₂ → Needs (.loop condition body step) s (.block body) s₂
  | step {condition body step s c x s₁ pops s₂ d s₃} (list list' list'') :
      Lowers (.expr condition) (s.looping list).opened c [x] s₁ →
      Closes (s₁.withList list') pops s₂ → Lowers (.block body) s₂ d [] s₃ →
      Needs (.loop condition body step) s (.block step) (s₃.looped list'')

/-- What the lowering of a piece of the source comes to. -/
def Task.Comes (task : Task) (s : UnitState) (task' : Task) (s' : UnitState) : Prop :=
  Relation.ReflTransGen (fun p q : Task × UnitState => Needs p.1 p.2 q.1 q.2) (task, s) (task', s')

/-- The pieces that are bodies of their own, or are about to be. -/
def Task.Elsewhere : Task → Prop
  | call .. | body .. | make .. | initials .. => True
  | _ => False

/-- What the lowering of a piece of the source comes to in the body that it is in. -/
def Task.ComesInBody (task : Task) (s : UnitState) (task' : Task) (s' : UnitState) : Prop :=
  Relation.ReflTransGen (fun p q : Task × UnitState => Needs p.1 p.2 q.1 q.2 ∧ ¬ q.1.Elsewhere)
    (task, s) (task', s')

/-! ## Names of one body -/

section

variable {task task' : Task} {s s' t : UnitState} {N : String → Prop} {name : String} {v : Variable}

/-- The statements of a piece of the source declare names of a kind. -/
def Task.Declares (N : String → Prop) (task : Task) : Prop :=
  task.InBody → ∀ k ∈ task.kinds, ∀ name ∈ k.declared, N name

/-- What declares few names for a body does so for a part of it. -/
theorem Task.Declares.of_subset (h : task.Declares N) (inside : task.InBody)
    (sub : task'.kinds ⊆ task.kinds) : task'.Declares N :=
  fun _ k hk => h inside k (sub hk)

/-- A part that is needed here declares no other names. -/
theorem Needs.declares (needs : Needs task s task' s') (here : ¬ task.Elsewhere)
    (declares : task.Declares N) :
    task'.Declares N := by
  cases needs with
  | kind | block => exact declares
  | blockKind => exact declares.of_subset trivial (List.subset_cons_self _ _)
  | stmt => exact declares.of_subset trivial (List.subset_append_left _ _)
  | stmts _ => exact declares.of_subset trivial (List.subset_append_right _ _)
  | cond => exact declares.of_subset trivial Task.kinds_cond
  | «while» => exact declares.of_subset trivial Task.kinds_while
  | start => exact declares.of_subset trivial Task.kinds_start
  | «for» _ => exact declares.of_subset trivial Task.kinds_for
  | forEach => exact declares.of_subset trivial (List.subset_cons_self _ _)
  | otherwise => exact declares.of_subset trivial Task.kinds_otherwise
  | arm => exact declares.of_subset trivial Task.kinds_arm
  | arms => exact declares.of_subset trivial Task.kinds_arms
  | pass => exact declares.of_subset trivial (List.subset_append_left _ _)
  | step => exact declares.of_subset trivial (List.subset_append_right _ _)
  | body | inline | region | makeInitials | makeBody | initials => exact absurd trivial here
  | _ => exact nofun

/-- A name stands for the same in a scope that does not bind it. -/
theorem UnitState.bound?_surrounded {scope : Scope} (found : s.bound? name = some v)
    (hidden : scope.bindings.lookup name = none) :
    ({ s with scopes := scope :: s.scopes } : UnitState).bound? name = some v := by
  rw [← found]
  simp only [bound?, scopesFrom, List.length_cons]
  change List.findSome? _ ((scope :: s.scopes).take (s.scopes.length + 1 - s.lookupFloor)) = _
  by_cases inside : s.lookupFloor ≤ s.scopes.length
  · rw [Nat.sub_add_comm inside, List.take_succ_cons, List.findSome?_cons, hidden]
  · rw [Nat.sub_eq_zero_of_le (by omega), Nat.sub_eq_zero_of_le (by omega), List.take_zero,
      List.take_zero]

/-- Between states with the same scopes. -/
theorem UnitState.Steady.bound? (steady : s.Steady t) (same : t.scopes = s.scopes)
    (found : s.bound? name = some v) : t.bound? name = some v :=
  (Binds.same (N := fun _ => False) same).lookup steady.frames id found

section

variable (hidden : ∀ name, Hidden name → N name) (other : ¬ N name)
include hidden other

/-- A name that the task does not declare stays bound to what it was. -/
theorem Lowers.bound? {c : Code} {xs : List Element} (h : Lowers task s c xs t)
    (declares : task.Declares N) (found : s.bound? name = some v) : t.bound? name = some v :=
  (h.binds hidden declares).lookup h.steady.frames other found

/-- What is needed in the same body sees the same under a name that the body does not declare. -/
theorem Needs.bound? (needs : Needs task s task' s') (here : ¬ task.Elsewhere)
    (there : ¬ task'.Elsewhere) (declares : task.Declares N) (found : s.bound? name = some v) :
    s'.bound? name = some v := by
  -- behind expressions, and inside a scope that is opened
  have after {task : Task} {s t : UnitState} {c : Code} {xs : List Element} (outer : ¬ task.InBody)
      (h : Lowers task s c xs t) (found : s.bound? name = some v) : t.bound? name = some v :=
    h.bound? hidden other (fun inside => absurd inside outer) found
  have opened {s : UnitState} (found : s.bound? name = some v) : s.opened.bound? name = some v :=
    UnitState.bound?_surrounded found rfl
  cases needs with
  | rest h | arguments _ h | target h | targetActor h => exact after id h found
  | actorValue h₁ h₂ => exact after id h₂ (after id h₁ found)
  | value h₁ h₂ e =>
    exact (e.binds (.resolveTarget _ _)).lookup e.extends'.steady.frames other
      (after id h₂ (after id h₁ found))
  | fields list h e =>
    exact (e.binds .onStorage).lookup e.extends'.steady.frames other (after id h found)
  | statics list h e =>
    exact (e.binds (.staticVar _ _)).lookup e.extends'.steady.frames other (after id h found)
  | stmts h =>
    exact h.bound? hidden other (declares.of_subset trivial (List.subset_append_left _ _)) found
  | block | start | condition => exact opened found
  | «for» h =>
    exact h.bound? hidden other (declares.of_subset trivial Task.kinds_start) (opened found)
  | forEach list list' h named declared =>
    have names := declares trivial _ (Source.StmtKind.mem_kinds _)
    have index :=
      named.indexName.1.elim (fun mem => names _ (List.mem_cons_of_mem _ mem)) (hidden _)
    have found₂ := named.extends'.steady.bound? named.indexName.2 (opened (after id h found))
    have found₃ :=
      (declared.binds (.declare index _ _)).lookup declared.extends'.steady.frames other found₂
    refine UnitState.bound?_surrounded (s := (UnitState.looping _ list).withList list') found₃ ?_
    have : name ≠ _ := fun e => other (e ▸ names _ List.mem_cons_self)
    simp [List.lookup_cons, beq_false_of_ne this]
  | arm list h closes =>
    exact (UnitState.Steady.inScope (h.steady.withList list) closes).bound?
      (closes.scopes h.steady.scopes) found
  | arms list list' h₁ closes h₂ =>
    have tested := (UnitState.Steady.inScope (h₁.steady.withList list) closes).bound?
      (closes.scopes h₁.steady.scopes) found
    exact (h₂.steady.withList list').bound? (h₂.scopes_eq trivial) tested
  | test list => exact opened (s := UnitState.looping _ list) found
  | pass list list' h closes =>
    exact (UnitState.Steady.inScope (h.steady.withList list') closes).bound?
      (closes.scopes h.steady.scopes) (s := UnitState.looping _ list) found
  | step list list' list'' h₁ closes h₂ =>
    have steady := UnitState.Steady.inScope (h₁.steady.withList list') closes
    exact (steady.trans h₂.steady).inLoop list'' |>.bound?
      ((h₂.scopes_eq trivial).trans (closes.scopes h₁.steady.scopes)) found
  | body | inline | region | makeInitials | makeBody | initials => exact absurd trivial here
  | call | make => exact absurd trivial there
  | _ => exact found

/-- A name that a body does not declare stands for the same wherever lowering comes to in the body.
-/
theorem Task.ComesInBody.bound? (comes : task.ComesInBody s task' s') (here : ¬ task.Elsewhere)
    (declares : task.Declares N) (found : s.bound? name = some v) : s'.bound? name = some v := by
  have all (q : Task × UnitState) (comes : Relation.ReflTransGen
      (fun p q : Task × UnitState => Needs p.1 p.2 q.1 q.2 ∧ ¬ q.1.Elsewhere) (task, s) q) :
      ¬ q.1.Elsewhere ∧ q.1.Declares N ∧ q.2.bound? name = some v := by
    induction comes with
    | refl => exact ⟨here, declares, found⟩
    | tail _ step ih =>
      obtain ⟨here, declares, found⟩ := ih
      exact ⟨step.2, step.1.declares here declares,
        step.1.bound? hidden other here step.2 declares found⟩
  exact (all _ comes).2.2

end

end

/-! ## Negations -/

/-- No name stands for a negation. -/
def UnitState.Affirms (s : UnitState) : Prop :=
  ∀ scope ∈ s.scopes, ∀ b ∈ scope.bindings, ∀ inner, b.2 ≠ .reference (.not inner)

section

variable {task task' : Task} {s s' t : UnitState} {N : String → Prop}

/-- A variable that is a place is no reference. -/
theorem Variable.not_negation {v : Variable} (place : v.pool?.isSome) (inner : Element) :
    v ≠ .reference (.not inner) := by
  rintro rfl
  cases place

/-- Lowering that only binds what is declared brings in no negation. -/
theorem UnitState.Binds.affirms (h : s.Binds N t) (affirms : s.Affirms) : t.Affirms := by
  unfold UnitState.Affirms at *
  unfold UnitState.Binds at h
  generalize s.scopes = before at h affirms
  generalize t.scopes = behind at h
  cases h with
  | same => exact affirms
  | bound new bindings places =>
    obtain ⟨first, rest⟩ := List.forall_mem_cons.1 affirms
    refine List.forall_mem_cons.2 ⟨fun b hb => ?_, rest⟩
    rw [bindings] at hb
    rcases List.mem_append.1 hb with hb | hb
    · exact Variable.not_negation (places b hb).2
    · exact first b hb

/-- What a place is read as is no negation. -/
theorem IndexedVar.get_ne_not (v : IndexedVar) (actor : Option Element) (inner : Element) :
    v.get actor ≠ .not inner := by
  rw [IndexedVar.get, IndexedVar.descend]
  rcases List.eq_nil_or_concat v.path with e | ⟨path, index, e⟩
  · rw [e]
    rintro ⟨⟩
  · rw [e, List.concat_eq_append, List.foldl_append]
    rintro ⟨⟩

/-- Reading a variable that is no negation gives none. -/
theorem Variable.getFor_ne_not {v : Variable} (affirms : ∀ inner, v ≠ .reference (.not inner))
    (actor : Option Element) (inner : Element) : v.getFor actor ≠ .not inner := by
  cases v with
  | indexed v => exact v.get_ne_not actor inner
  | recursive v => nofun
  | reference e => exact fun h => affirms inner (congrArg _ h)

/-- So it is for a name that is bound. -/
theorem UnitState.Affirms.bound? {name : String} {v : Variable} (affirms : s.Affirms)
    (found : s.bound? name = some v) (inner : Element) : v ≠ .reference (.not inner) := by
  obtain ⟨scope, mem, bound⟩ := List.exists_of_findSome?_eq_some found
  obtain ⟨before, after, e, -⟩ := List.lookup_eq_some_iff.1 bound
  exact affirms scope (List.mem_of_mem_take mem) (name, v) (by simp [e]) inner

/-- A scope without negations keeps it so. -/
theorem UnitState.Affirms.surrounded {scope : Scope} (affirms : s.Affirms)
    (inside : ∀ b ∈ scope.bindings, ∀ inner, b.2 ≠ .reference (.not inner)) :
    ({ s with scopes := scope :: s.scopes } : UnitState).Affirms :=
  List.forall_mem_cons.2 ⟨inside, affirms⟩

/-- What a declaration binds is a place. -/
theorem Lower.Emits.declared {name : String} {initial : Option Element} {stacked : Bool}
    {v : Variable} {actions : List Action} (e : Emits
      (declare name initial stacked) s actions v t) :
    v.pool?.isSome := by
  rcases run_declare_ok e.run with ⟨-, w, rfl, -⟩ | ⟨-, w, rfl, -⟩ <;> rfl

/-- The receiver of a body is no negation, since a negation is computed first. -/
theorem UnitState.Affirms.bindThis {receiver : Element} {u : Unit} (affirms : s.Affirms)
    (h : run (bindThis receiver) s = some (.ok u, t)) : t.Affirms := by
  unfold Lower.bindThis at h
  split at h
  · next stable =>
    obtain ⟨scope, rest, e, rfl⟩ := run_modifyScope_ok.1 h
    rw [UnitState.Affirms, e] at affirms
    obtain ⟨first, others⟩ := List.forall_mem_cons.1 affirms
    refine List.forall_mem_cons.2 ⟨List.forall_mem_cons.2 ⟨fun inner e => ?_, first⟩, others⟩
    cases e
    cases stable
  · obtain ⟨v, h, -⟩ := run_map_ok.1 h
    exact (BindsOnly.declare (N := fun _ => True) trivial _ _ _ _ _ h).affirms affirms

/-- Binding the arguments of a call keeps it so. -/
theorem UnitState.Affirms.bindCall {receiver : Option Element} {params : List String}
    {arguments : List Element} {u : Unit} (affirms : s.Affirms)
    (h : run (bindCall receiver params arguments) s = some (.ok u, t)) :
    t.Affirms := by
  have params (s) (affirms : s.Affirms) (h : run (declareParams params arguments) s =
    some (.ok u, t)) :
      t.Affirms :=
    (BindsOnly.declareParams (N := fun _ => True) (fun _ _ => trivial) _ _ _ _ h).affirms affirms
  cases receiver with
  | none => exact params s affirms h
  | some receiver =>
    obtain ⟨_, u, h₁, h₂⟩ := run_bind_ok.1 h
    exact params u (affirms.bindThis h₁) h₂

/-- The instance whose fields are initialized is no negation. -/
def Task.Affirms : Task → Prop
  | initials this _ | fields this _ => ∀ inner, this ≠ .not inner
  | _ => True

/-- Where no name stands for a negation none does for a part that is needed. -/
theorem Needs.affirms (needs : Needs task s task' s') (this : task.Affirms) (affirms : s.Affirms) :
    task'.Affirms ∧ s'.Affirms := by
  have after {task : Task} {s t : UnitState} {c : Code} {xs : List Element}
    (h : Lowers task s c xs t)
      (affirms : s.Affirms) : t.Affirms :=
    (h.binds (N := fun _ => True) (fun _ _ => trivial) fun _ _ _ _ _ => trivial).affirms affirms
  have plain {α : Type} {m : Lower α} {r : α} {s t : UnitState} {actions : List Action}
      (e : Emits m s actions r t) (only : BindsOnly (fun _ => True) m) (affirms : s.Affirms) :
        t.Affirms :=
    (e.binds only).affirms affirms
  have opened {s : UnitState} (affirms : s.Affirms) : s.opened.Affirms := affirms.surrounded nofun
  have closed {s t u : UnitState} {pops : List Action} (steady : s.opened.Steady t)
    (closes : Closes t pops u)
      (affirms : s.Affirms) : u.Affirms := by
    rw [UnitState.Affirms, closes.scopes steady.scopes]
    exact affirms
  -- what is lowered before the piece binds places only, and what is opened around it binds them,
  -- too
  cases needs with
  | rest h | arguments _ h | target h | targetActor h | stmts h | make h =>
    exact ⟨trivial, after h affirms⟩
  | call _ h₁ h₂ | actorValue h₁ h₂ => exact ⟨trivial, after h₂ (after h₁ affirms)⟩
  | @body key _ _ _ _ result s _ _ e =>
    have entered : (s.opened.entered (s.expanded (some key) result)).Affirms := opened affirms
    exact ⟨trivial, entered.bindCall e.run⟩
  | inline _ e => exact ⟨trivial, plain e (.temp _) affirms⟩
  | region _ _ e₁ e₂ e₃ =>
    have temps := opened (plain e₂ (.temp _) (plain e₁ (.temp _) affirms))
    have entered := plain e₃ (.openRegion (fun _ _ => trivial) (fun _ _ => trivial) trivial) temps
    exact ⟨trivial, entered⟩
  | makeInitials _ named declares prepared acquired =>
    have declared := plain declares (.declare trivial _ _) (plain named (.hiddenName _) affirms)
    exact ⟨Variable.getFor_ne_not (Variable.not_negation declares.declared) none,
      plain acquired .onStorage (plain prepared .onStorage declared)⟩
  | makeBody _ named declares prepared acquired h =>
    have declared := plain declares (.declare trivial _ _) (plain named (.hiddenName _) affirms)
    exact ⟨trivial, after h (plain acquired .onStorage (plain prepared .onStorage declared))⟩
  | initials =>
    exact ⟨this, affirms.surrounded fun b hb inner e => by
      cases List.mem_singleton.1 hb
      cases e
      exact this inner rfl⟩
  | value h₁ h₂ e =>
    exact ⟨trivial, plain e (.resolveTarget _ _) (after h₂ (after h₁ affirms))⟩
  | fields list h e =>
    have stored := plain e .onStorage (after h affirms)
    exact ⟨this, stored⟩
  | statics list h e =>
    have stored := plain e (.staticVar _ _) (after h affirms)
    exact ⟨trivial, stored⟩
  | block | start | condition => exact ⟨trivial, opened affirms⟩
  | «for» h => exact ⟨trivial, after h (opened affirms)⟩
  | @forEach _ _ _ _ _ _ _ _ _ s₂ _ _ s₃ list list' h named declared =>
    have opened₁ := opened (after h affirms)
    have named₂ : s₂.Affirms := by
      rw [UnitState.Affirms, named.indexName.2]
      exact opened₁
    have declared₃ : s₃.Affirms := plain declared (.declare trivial _ _) named₂
    exact ⟨trivial, declared₃.surrounded fun b hb inner e => by
      cases List.mem_singleton.1 hb
      cases e⟩
  | arm list h closes => exact ⟨trivial, closed (s := s) (h.steady.withList list) closes affirms⟩
  | @arms _ _ _ _ _ _ _ _ _ _ _ s₃ list list' h₁ closes h₂ =>
    have done : s₃.Affirms := after h₂ (closed (h₁.steady.withList list) closes affirms)
    exact ⟨trivial, done⟩
  | test list => exact ⟨trivial, opened (s := UnitState.looping _ list) affirms⟩
  | pass list list' h closes =>
    exact ⟨trivial, closed (s := UnitState.looping _ list) (h.steady.withList list') closes affirms⟩
  | @step _ _ _ _ _ _ _ _ _ _ s₃ list list' list'' h₁ closes h₂ =>
    have done : s₃.Affirms :=
      after h₂ (closed (s := UnitState.looping _ list) (h₁.steady.withList list') closes affirms)
    exact ⟨trivial, done⟩
  | _ => exact ⟨trivial, affirms⟩

/-- No name stands for a negation, wherever lowering comes to. -/
theorem Task.Comes.affirms (comes : task.Comes s task' s') (this : task.Affirms)
    (affirms : s.Affirms) :
    s'.Affirms := by
  have all (q : Task × UnitState)
      (comes : Relation.ReflTransGen (fun p q : Task × UnitState => Needs p.1 p.2 q.1 q.2)
        (task, s) q) :
      q.1.Affirms ∧ q.2.Affirms := by
    induction comes with
    | refl => exact ⟨this, affirms⟩
    | tail _ step ih => exact step.affirms ih.1 ih.2
  exact (all _ comes).2

/-- A unit starts without names. -/
theorem Session.start_affirms (σ : Session) (unit : String) (pool : Pool) :
    (σ.start unit pool).Affirms := by
  intro scope hs b hb
  cases List.mem_singleton.1 hs
  cases hb

end

end SkipCode
