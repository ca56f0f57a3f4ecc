import SkipCode.Proofs.Writes

/-!
# What lowering binds

Lowering a piece of the source binds names in the innermost scope only, and binds them to places:
the names that it defines, and hidden ones. References are bound in scopes that it opens and closes.

* `Lowers.binds`: what a piece of the source leaves bound behind it;
* `UnitState.Binds.lookup`: another name stands for what it stood for before.
-/

namespace SkipCode

open Lower
open Source (AssignOp Branch Expr Place Stmt StmtKind)

/-- The names that a statement declares by itself. -/
def Source.StmtKind.declared : StmtKind → List String
  | .define name _ _ => [name]
  | .forEach element index _ _ => element :: index.toList
  | _ => []

variable {N : String → Prop}

namespace UnitState

/-- The scopes below this one belong to a caller. -/
def lookupFloor (s : UnitState) : Nat :=
  match s.frames with
  | frame :: _ => frame.lookupFloor
  | [] => 0

/-- What a name is bound to in the scopes of the innermost body. -/
def bound? (s : UnitState) (name : String) : Option Variable :=
  (s.scopesFrom s.lookupFloor).findSome? fun scope => scope.bindings.lookup name

end UnitState

/-- What a name is bound to is found, and nothing is changed. -/
theorem Lower.run_lookup (name : String) (s : UnitState) : run (lookup name) s =
    (s.bound? name).elim (some (.error (.defect (.unresolvedName name)), s)) fun v =>
      some (.ok v, s) := by
  rw [lookup, run_bind, run_get]
  unfold UnitState.bound? UnitState.lookupFloor
  dsimp only
  generalize List.findSome? _ _ = found
  cases found <;> rfl

/-- What a name means is what it is bound to in the scopes of the body. -/
theorem Lower.run_lookup_eq {name : String} {s t : UnitState} {v : Variable} :
    run (lookup name) s = some (.ok v, t) ↔ s.bound? name = some v ∧ t = s := by
  rw [run_lookup]
  cases s.bound? name with
  | none => simp
  | some w => simp [eq_comm]

/-- Only places are bound, in the innermost scope and under names of a kind. -/
inductive ScopesBind (N : String → Prop) : List Scope → List Scope → Prop
  | same {scopes} : ScopesBind N scopes scopes
  | bound {a b : Scope} {rest : List Scope} (new : List (String × Variable)) :
      b.bindings = new ++ a.bindings → (∀ x ∈ new, N x.1 ∧ x.2.pool?.isSome) →
      ScopesBind N (a :: rest) (b :: rest)

/-- What is bound in two steps is bound in one. -/
theorem ScopesBind.trans {a b c : List Scope} (h₁ : ScopesBind N a b) (h₂ : ScopesBind N b c) :
    ScopesBind N a c := by
  cases h₁ with
  | same => exact h₂
  | bound new₁ same₁ in₁ =>
    cases h₂ with
    | same => exact .bound new₁ same₁ in₁
    | bound new₂ same₂ in₂ =>
      refine .bound (new₂ ++ new₁) (by rw [same₂, same₁, List.append_assoc]) fun x hx => ?_
      exact (List.mem_append.1 hx).elim (in₂ x) (in₁ x)

/-- Between two states only places are bound, in the innermost scope and under names of a kind. -/
def UnitState.Binds (N : String → Prop) (s t : UnitState) : Prop := ScopesBind N s.scopes t.scopes

namespace UnitState.Binds

variable {s t u : UnitState}

/-- Where the scopes are the same nothing is bound. -/
theorem same (h : t.scopes = s.scopes) : s.Binds N t := by
  rw [Binds, h]
  exact .same

theorem trans (h₁ : s.Binds N t) (h₂ : t.Binds N u) : s.Binds N u := ScopesBind.trans h₁ h₂

/-- Scopes that are the same may belong to other states. -/
theorem congr {s' t' : UnitState} (h : s.Binds N t) (hs : s'.scopes = s.scopes)
    (ht : t'.scopes = t.scopes) : s'.Binds N t' := by
  rw [Binds, hs, ht]
  exact h

/-- What a name is bound to in the scopes of its body. -/
theorem lookup {name : String} {v : Variable} (h : s.Binds N t)
    (frames : List.Forall₂ Frame.Grows s.frames t.frames) (other : ¬ N name)
    (found : s.bound? name = some v) : t.bound? name = some v := by
  have floor : t.lookupFloor = s.lookupFloor := by
    unfold UnitState.lookupFloor
    cases hs : s.frames with
    | nil =>
      rw [hs] at frames
      rw [List.forall₂_nil_left_iff.1 frames]
    | cons frame rest =>
      rw [hs] at frames
      obtain ⟨frame', rest', grown, -, e⟩ := List.forall₂_cons_left_iff.1 frames
      rw [e, grown]
  rw [← found, UnitState.bound?, UnitState.bound?, floor, UnitState.scopesFrom,
    UnitState.scopesFrom]
  unfold Binds at h
  generalize s.scopes = before at h
  generalize t.scopes = behind at h
  cases h with
  | same => rfl
  | @bound a b rest new bindings inside =>
    -- the innermost scope has new bindings, but none of this name
    have hidden : new.lookup name = none := List.lookup_eq_none_iff.2 fun x hx => by
      have : x.1 ≠ name := fun e => other (e ▸ (inside x hx).1)
      simpa using Ne.symm this
    rw [List.length_cons, List.length_cons]
    cases rest.length + 1 - s.lookupFloor with
    | zero => rfl
    | succ n =>
      rw [List.take_succ_cons, List.take_succ_cons, List.findSome?_cons, List.findSome?_cons,
        bindings,
        List.lookup_append, hidden, Option.none_or]

end UnitState.Binds

/-- A step that binds places only, under names of a kind. -/
def Lower.BindsOnly {α : Type} (N : String → Prop) (m : Lower α) : Prop :=
  ∀ s a t, run m s = some (.ok a, t) → s.Binds N t

namespace Lower.BindsOnly

variable {α β : Type}

theorem pure (a : α) : BindsOnly N (Pure.pure a : Lower α) := by
  intro s b t h
  cases h
  exact .same rfl

/-- Steps that bind only such names do so together. -/
theorem bind {m : Lower α} {f : α → Lower β} (hm : BindsOnly N m) (hf : ∀ a, BindsOnly N (f a)) :
    BindsOnly N (m >>= f) := by
  intro s b t h
  obtain ⟨a, u, h₁, h₂⟩ := run_bind_ok.1 h
  exact (hm s a u h₁).trans (hf a u b t h₂)

/-- With these rules steps are put together that bind only such names. -/
theorem composes : Composes Lower (BindsOnly N) := ⟨pure, bind⟩

theorem get : BindsOnly N (MonadState.get : Lower UnitState) := by
  intro s a t h
  cases h
  exact .same rfl

/-- A change of the state that leaves the scopes alone binds nothing. -/
theorem change {f : UnitState → UnitState} (same : ∀ s, (f s).scopes = s.scopes) :
    BindsOnly N (modify f : Lower PUnit) := by
  intro s a t h
  cases h
  exact .same (same s)

/-- A change of the innermost scope binds what it adds. -/
theorem modifyScope {f : Scope → Scope} (new : List (String × Variable))
    (added : ∀ scope, (f scope).bindings = new ++ scope.bindings)
    (places : ∀ b ∈ new, N b.1 ∧ b.2.pool?.isSome) : BindsOnly N (Lower.modifyScope f) := by
  intro s a t h
  obtain ⟨scope, rest, e, rfl⟩ := run_modifyScope_ok.1 h
  rw [UnitState.Binds, e]
  exact .bound new (added scope) places

/-- A place may be bound under such a name. -/
theorem bindPlace {name : String} {v : Variable} (inside : N name) (place : v.pool?.isSome) :
    BindsOnly N (Lower.bind name v) :=
  .modifyScope [(name, v)] (fun _ => rfl) fun _ hb => by
    rw [List.mem_singleton.1 hb]
    exact ⟨inside, place⟩

theorem emit (actions : List Action) : BindsOnly N (Lower.emit actions) := .change fun _ => rfl

theorem addSymbol (name : String) (slot : UInt32) (stacked : Bool) :
    BindsOnly N (Lower.addSymbol name slot stacked) := .change fun _ => rfl

theorem allocate (owner : String) : BindsOnly N (Lower.allocate owner) := by
  intro s a t h
  rcases run_allocate_ok h with ⟨p, scope, rest, -, e, rfl⟩ | ⟨e, rfl⟩
  · rw [UnitState.Binds, e]
    exact .bound [] rfl nofun
  · exact .same rfl

/-- A stack is bound under its own name only. -/
theorem declareStack {name : String} (inside : N name) (initial : Option Element) :
    BindsOnly N (Lower.declareStack name initial) :=
  .bind (.allocate name) fun _ => .bind (.addSymbol _ _ _) fun _ => .bind .get fun _ =>
    .bind (.emit _) fun _ => .bind (.modifyScope [] (fun _ => rfl) nofun) fun _ =>
      .bind (.bindPlace inside rfl) fun _ => .pure _

/-- So is a plain variable. -/
theorem declarePlain {name : String} (inside : N name) (initial : Option Element) :
    BindsOnly N (Lower.declarePlain name initial) := by
  refine .bind (.allocate name) fun _ => .bind (.addSymbol _ _ _) fun _ => .bind .get fun _ => ?_
  cases initial with
  | none => exact .bind (.bindPlace inside rfl) fun _ => .pure _
  | some value => exact .bind (.emit _) fun _ => .bind (.bindPlace inside rfl) fun _ => .pure _

theorem declare {name : String} (inside : N name) (initial : Option Element) (stacked : Bool) :
    BindsOnly N (Lower.declare name initial stacked) := by
  refine .bind .get fun s => ?_
  split
  · exact .bind (.declareStack inside _) fun _ => .pure _
  · exact .bind (.declarePlain inside _) fun _ => .pure _

/-- Making up a name does not bind it. -/
theorem hiddenName (what : String) : BindsOnly N (Lower.hiddenName what) :=
  .bind (.change fun _ => rfl) fun _ => .bind .get fun _ => .pure _

/-- A step that goes on with a made-up name. -/
theorem withHidden {what : String} (known : what ∈ variableWords) {f : String → Lower α}
    (hf : ∀ name, Hidden name → BindsOnly N (f name)) :
    BindsOnly N (Lower.hiddenName what >>= f) := by
  intro s a t h
  obtain ⟨name, u, h₁, h₂⟩ := run_bind_ok.1 h
  rw [run_hiddenName] at h₁
  cases h₁
  exact (hf _ (hidden_numbered known _) _ a t h₂).congr rfl rfl

/-- A temporary has no name that is bound. -/
theorem temp (what : String) : BindsOnly N (Lower.temp what) :=
  .bind (.hiddenName what) fun name => .bind (.allocate name) fun _ =>
    .bind (.addSymbol _ _ _) fun _ =>
    .bind .get fun _ => .pure _

/-- The storage binds nothing. -/
theorem onStorage {m : ClassStorage.Step α} : BindsOnly N (Lower.onStorage m) := by
  intro s a t h
  obtain ⟨u, -, rfl⟩ := run_onStorage_ok.1 h
  exact .same rfl

theorem lift (x : Except LowerError α) : BindsOnly N (liftM x : Lower α) := by
  intro s a t h
  rw [run_lift] at h
  cases h
  exact .same rfl

theorem fieldVar (className field : String) (handle : Element) :
    BindsOnly N (Lower.fieldVar className field handle) :=
  .bind .get fun _ => .bind (.lift _) fun _ => .bind (.lift _) fun _ =>
    .bind .onStorage fun _ => .bind .onStorage fun _ => .pure _

theorem staticVar (className field : String) : BindsOnly N (Lower.staticVar className field) :=
  .bind .get fun _ => .bind (.lift _) fun _ => .onStorage

theorem resolveTarget (target : Place) (os : List Element) :
    BindsOnly N (Lower.resolveTarget target os) := by
  unfold Lower.resolveTarget
  split
  · intro s v t h
    exact .same (by rw [run_lookup_ok h])
  · exact .bind (.fieldVar _ _ _) fun _ => .pure _
  · exact .bind (.staticVar _ _) fun _ => .pure _
  · intro s v t h
    cases h

/-- The parameters of a method are bound under their own names. -/
theorem declareParams {params : List String} (inside : ∀ param ∈ params, N param)
    (arguments : List Element) :
    BindsOnly N (Lower.declareParams params arguments) :=
  composes.forM fun p hp => composes.map _ (.declare (inside p.1 (List.of_mem_zip hp).1) _ _)

/-! ## Steps that take a hidden name -/

variable (hidden : ∀ name, Hidden name → N name)
include hidden

/-- A value that is kept on a stack has a made-up name. -/
theorem materialize (value : Element) : BindsOnly N (Lower.materialize value) := by
  refine .bind .get fun s => ?_
  split
  · exact .withHidden (by decide) fun name h =>
      .bind (.declareStack (hidden name h) _) fun _ => .pure _
  · exact .pure _

/-- So has the handle of an instance that is given up. -/
theorem deleteHandle (handle : Element) (className : String) :
    BindsOnly N (Lower.deleteHandle handle className) :=
  .withHidden (by decide) fun name h => .bind (.declare (hidden name h) _ _) fun _ =>
    .bind .get fun _ => .onStorage

/-- A region binds its parameters, the receiver and the return address. -/
theorem openRegion {key : String} {params : List String} {receiver : Option Element}
    {arguments : List Element} {result : IndexedVar} (inside : ∀ param ∈ params, N param)
    (this : N "this") :
    BindsOnly N (Lower.openRegion key params receiver arguments result) :=
  .bind (composes.mapM fun p hp => .declareStack (inside p.1 (List.of_mem_zip hp).1) _) fun _ =>
    .bind (composes.optionMapM (fun _ => .declareStack this _) _) fun _ =>
      .withHidden (by decide) fun name h => .bind (.declareStack (hidden name h) _) fun _ =>
        .bind (composes.mapM fun _ _ => .temp _) fun _ =>
          .bind (composes.optionMapM (fun _ => .temp _) _) fun _ =>
            .bind (.bind .get fun _ => .pure _) fun _ => .pure _

end Lower.BindsOnly

/-- Code that is emitted by such a step has bound only such names. -/
theorem Lower.Emits.binds {α : Type} {m : Lower α} {r : α} {s t : UnitState} {actions : List Action}
    (e : Emits m s actions r t) (only : BindsOnly N m) : s.Binds N t := only s r t e.run

/-- A made-up name counts up, and nothing else happens. -/
theorem Lower.Emits.hiddenName {what name : String} {s t : UnitState} {actions : List Action}
    (e : Emits (Lower.hiddenName what) s actions name t) :
    name = s!"__{what}{s.hidden + 1}" ∧ t = { s with hidden := s.hidden + 1 } := by
  have h := e.run
  rw [run_hiddenName] at h
  cases h
  exact ⟨rfl, rfl⟩

/-- The name of an index is in the source or hidden. -/
theorem Lower.Emits.indexName {index : Option String} {name : String} {s t : UnitState}
    {actions : List Action} (e : Emits (Lower.indexName index) s actions name t) :
    (name ∈ index.toList ∨ Hidden name) ∧ t.scopes = s.scopes := by
  cases index with
  | none =>
    obtain ⟨rfl, rfl⟩ := e.hiddenName
    exact ⟨Or.inr (hidden_numbered (by decide) _), rfl⟩
  | some given =>
    have h := e.run
    cases h
    exact ⟨Or.inl (List.mem_singleton_self _), rfl⟩

/-- What a piece of the source leaves bound are places, under the names that it defines and hidden
ones. -/
theorem Lowers.binds {task : Task} {s t : UnitState} {c : Code} {xs : List Element}
    (h : Lowers task s c xs t) (hidden : ∀ name, Hidden name → N name)
    (names : task.InBody → ∀ k ∈ task.kinds, ∀ name ∈ k.declared, N name) : s.Binds N t := by
  -- on the derivation: what closes its scope binds nothing outside it
  induction h with
  | nil | stmts_nil | fields_nil | statics_nil | arms_nil | var _ | this _ | «break» | «continue» =>
    exact .same rfl
  | «return» list skip h _ k => exact (k nofun).congr rfl rfl
  | cons _ _ k₁ k₂ | new _ _ k₁ k₂ => exact (k₁ nofun).trans (k₂ nofun)
  | node _ _ k | actorVar _ _ k => exact k nofun
  | field _ e k => exact (k nofun).trans (e.binds (.fieldVar _ _ _))
  | staticField e => exact e.binds (.staticVar _ _)
  | call _ _ _ _ _ k₁ k₂ k₃ => exact (k₁ nofun).trans ((k₂ nofun).trans (k₃ nofun))
  | body list e h closes _ => exact .same (Lowers.scopes_eq (.body list e h closes) trivial)
  | initials list h closes _ => exact .same (Lowers.scopes_eq (.initials list h closes) trivial)
  | block h closes _ => exact .same (Lowers.scopes_eq (.block h closes) trivial)
  | inline _ e h e' _ =>
    have body : UnitState.Binds N _ _ := .same (h.scopes_eq trivial)
    exact ((e.binds (.temp _)).trans body).trans (e'.binds (.materialize hidden _))
  | reenter list continuation _ _ e =>
    exact (e.binds (.materialize hidden _)).congr rfl rfl
  | @region _ _ _ _ _ _ _ _ _ _ s₃ _ s₄ _ _ _ _ _ _ _ list list' list'' _ _ e₁ e₂ e₃ h _
      closes e₄ _ =>
    have inner : s₄.scopes = s₃.scopes := h.scopes_eq trivial
    have grown : ScopesGrow (Scope.empty :: _) s₄.scopes := inner ▸ e₃.extends'.scopes
    have same := closes.scopes grown
    have temps := (e₁.binds (N := N) (.temp _)).trans (e₂.binds (.temp _))
    exact temps.trans ((e₄.binds (.materialize hidden _)).congr same.symm rfl)
  | make _ _ named declares _ prepared _ acquired _ h₁ h₂ _ _ =>
    obtain ⟨rfl, rfl⟩ := named.hiddenName
    have storage := (prepared.binds (N := N) .onStorage).trans (acquired.binds .onStorage)
    have bodies := (h₂.scopes_eq trivial).trans (h₁.scopes_eq trivial)
    have handle := declares.binds (.declare (hidden _ (hidden_numbered (by decide) _)) _ _)
    exact (handle.congr rfl rfl).trans (storage.congr rfl bodies)
  | fields_cons list _ e _ k₁ k₂ =>
    exact (k₁ nofun).trans ((e.binds .onStorage).trans ((k₂ nofun).congr rfl rfl))
  | statics_cons list _ e _ k₁ k₂ =>
    exact (k₁ nofun).trans ((e.binds (.staticVar _ _)).trans ((k₂ nofun).congr rfl rfl))
  | stmt _ k => exact (k fun _ => names trivial).congr rfl rfl
  | stmts_cons _ _ k₁ k₂ =>
    exact (k₁ fun _ k hk => names trivial k (List.mem_append_left _ hk)).trans
      (k₂ fun _ k hk => names trivial k (List.mem_append_right _ hk))
  | define _ e k =>
    have name := names trivial _ (Source.StmtKind.mem_kinds _) _ (List.mem_singleton_self _)
    exact (k nofun).trans (e.binds (.declare name _ _))
  | assign list _ _ e _ _ k₁ k₂ k₃ =>
    exact ((k₁ nofun).trans ((k₂ nofun).trans
      ((e.binds (.resolveTarget _ _)).trans (k₃ nofun)))).congr
      rfl rfl
  | assignActor list _ e _ _ _ k₁ k₂ k₃ =>
    exact ((k₁ nofun).trans ((k₂ nofun).trans (k₃ nofun))).congr rfl rfl
  | cond list h _ => exact .same (h.scopes_eq trivial)
  | «while» h _ => exact .same (h.scopes_eq trivial)
  | «for» h₁ h₂ closes _ _ =>
    exact .same (closes.scopes (by rw [h₂.scopes_eq trivial]; exact h₁.steady.scopes))
  | @forEach _ _ _ _ s _ _ s₁ _ s₂ _ _ s₃ _ _ s₄ _ s₅ _ _ s₆ list list' list'' h₁ named declares _
      h₂ closes
      _ closes' k _ =>
    have inner : s₅.scopes = s₃.scopes := closes.scopes h₂.steady.scopes
    have grown : ScopesGrow (Scope.empty :: s₁.scopes) s₅.scopes :=
      inner ▸ named.extends'.scopes.trans declares.extends'.scopes
    exact (k nofun).congr rfl (closes'.scopes grown)
  | delete _ e k => exact (k nofun).trans (e.binds (.deleteHandle hidden _ _))
  | blockKind h _ => exact .same (h.scopes_eq trivial)
  | exprKind _ k => exact k nofun
  | arms_otherwise h _ => exact .same (h.scopes_eq trivial)
  | arms_last list list' h₁ closes h₂ _ _ =>
    exact .same (Lowers.scopes_eq (.arms_last list list' h₁ closes h₂) trivial)
  | arms_cons list list' h₁ closes h₂ h₃ _ _ _ =>
    exact .same (Lowers.scopes_eq (.arms_cons list list' h₁ closes h₂ h₃) trivial)
  | loop list list' list'' list''' h₁ closes h₂ h₃ _ _ _ =>
    exact .same (Lowers.scopes_eq (.loop list list' list'' list''' h₁ closes h₂ h₃) trivial)

end SkipCode
