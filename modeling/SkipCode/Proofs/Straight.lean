import SkipCode.Proofs.Heap

/-!
# Lowering straight units

What the statements of straight units become. Lowering an expression without effects writes nothing
and at most makes room in the storage of instances (`stored_expr`), so a simple statement writes a
few actions at the end of the list, and no skip waits behind it.

* `Straight.wrote`: all that such a statement writes, by what it does to instances.
-/

namespace SkipCode

open Lower
open Source (AssignOp Expr Place Stmt StmtKind)

variable {into : Expander} {s t u : UnitState}

/-! ## Expressions without effects -/

/-- Actions are written at the end of the list, and the storage of instances may have grown. -/
def UnitState.Stored (s : UnitState) (actions : List Action) (t : UnitState) : Prop :=
  ∃ storage, t = s.stored storage ∧ s.session.classData.Grows storage.data ∧
    storage.list.toList = s.list.toList ++ actions

namespace UnitState.Stored

theorem refl (s : UnitState) : s.Stored [] s :=
  ⟨⟨s.session.classData, s.session.global, s.list⟩, rfl, .refl _, (List.append_nil _).symm⟩

/-- What is stored in two steps is stored in one. -/
theorem trans {first second : List Action} (h₁ : s.Stored first t) (h₂ : t.Stored second u) :
    s.Stored (first ++ second) u := by
  obtain ⟨a, rfl, grows₁, list₁⟩ := h₁
  obtain ⟨b, rfl, grows₂, list₂⟩ := h₂
  refine ⟨b, rfl, grows₁.trans grows₂, ?_⟩
  rw [list₂]
  show a.list.toList ++ second = _
  rw [list₁, List.append_assoc]

/-- What is emitted is stored, whatever it is. -/
theorem emit (s : UnitState) (actions : List Action) :
    s.Stored actions { s with list := s.list.extend actions } :=
  ⟨⟨s.session.classData, s.session.global, s.list.extend actions⟩, rfl, .refl _, by simp⟩

end UnitState.Stored

namespace Lower

/-- A step that makes room in the storage of instances at most. -/
def Looks {α : Type} (m : Lower α) : Prop := ∀ s a t, run m s = some (.ok a, t) → s.Stored [] t

namespace Looks

variable {α β : Type}

theorem pure (a : α) : Looks (Pure.pure a : Lower α) := by
  intro s b t h
  cases h
  exact .refl s

theorem get : Looks (MonadState.get : Lower UnitState) := by
  intro s b t h
  cases h
  exact .refl s

theorem lift (x : Except LowerError α) : Looks (liftM x : Lower α) := by
  intro s a t h
  rw [run_lift] at h
  cases h
  exact .refl s

/-- Steps that only look do so together. -/
theorem bind {m : Lower α} {f : α → Lower β} (hm : Looks m) (hf : ∀ a, Looks (f a)) :
    Looks (m >>= f) := by
  intro s b t h
  obtain ⟨a, u, h₁, h₂⟩ := run_bind_ok.1 h
  exact (hm s a u h₁).trans (hf a u b t h₂)

/-- A step on the storage that keeps the list only looks. -/
theorem onStorage {m : ClassStorage.Step α} (hm : ClassStorage.Keeps m) :
    Looks (Lower.onStorage m) := by
  intro s a t h
  obtain ⟨storage, ran, rfl⟩ := run_onStorage_ok.1 h
  obtain ⟨grows, same⟩ := hm _ _ _ ran
  exact ⟨storage, rfl, grows, by rw [same, List.append_nil]⟩

/-- A name is looked up without a change. -/
theorem lookup (name : String) : Looks (Lower.lookup name) := by
  intro s a t h
  rw [run_lookup_ok h]
  exact .refl s

theorem actorVar (name : String) : Looks (Lower.actorVar name) := by
  intro s a t h
  rw [(run_actorVar_ok h).1]
  exact .refl s

/-- The place of a field is looked for, and its stack may be made. -/
theorem fieldVar (className field : String) (handle : Element) :
    Looks (Lower.fieldVar className field handle) :=
  .bind .get fun _ => .bind (.lift _) fun _ => .bind (.lift _) fun _ =>
    .bind (.onStorage (.prepare _)) fun _ => .bind (.onStorage (.fieldStack _)) fun _ => .pure _

theorem staticVar (className field : String) : Looks (Lower.staticVar className field) :=
  .bind .get fun _ => .bind (.lift _) fun _ => .onStorage (.staticField _ _)

end Looks

end Lower

namespace Source

/-- Expressions are inert part by part. -/
theorem all_partsOf (es : List Expr) : (partsOf es).all Expr.isInert = es.all Expr.effectFree := by
  induction es with
  | nil => rfl
  | cons e rest ih => rw [partsOf, List.all_append, ih, List.all_cons, Expr.effectFree]

namespace Expr

variable {a b : Expr} {className field name method : String} {index : Nat} {object : Option Expr}
  {es : List Expr}

@[simp] theorem effectFree_array : (array es).effectFree = es.all effectFree := by
  rw [← all_partsOf]
  rfl

@[simp] theorem effectFree_index : (Expr.index a b).effectFree = (a.effectFree && b.effectFree) :=
  List.all_append

@[simp] theorem effectFree_field : (Expr.field a className field).effectFree = a.effectFree := rfl

@[simp] theorem effectFree_actorVar : (actorVar a name).effectFree = a.effectFree := rfl

@[simp] theorem effectFree_binary (op : BinaryOp) :
    (binary op a b).effectFree = (a.effectFree && b.effectFree) :=
  List.all_append

@[simp] theorem effectFree_not : (Expr.not a).effectFree = a.effectFree := rfl

@[simp] theorem effectFree_negate : (negate a).effectFree = a.effectFree := rfl

@[simp] theorem effectFree_length : (length a).effectFree = a.effectFree := rfl

@[simp] theorem effectFree_new : (new className index es).effectFree = false := rfl

@[simp] theorem effectFree_call (callee : Option String) :
    (call callee method object es).effectFree = false := by
  cases object <;> rfl

end Expr

end Source

mutual

/-- Lowering an expression without effects writes nothing. -/
theorem looks_expr (into : Expander) : (e : Expr) → e.effectFree = true → Looks (lowerExpr into e)
  | .number _, _ | .bool _, _ | .currentActor, _ => by
    rw [lowerExpr]
    exact .pure _
  | .var name, _ => by
    rw [lowerExpr]
    exact .bind (.lookup name) fun _ => .pure _
  | .this, _ => by
    rw [lowerExpr]
    exact .bind (.lookup "this") fun _ => .pure _
  | .array items, h => by
    rw [lowerExpr]
    exact .bind (looks_exprs into items (by simpa only [Expr.effectFree_array] using h))
      fun _ => .pure _
  | .index array index, h => by
    obtain ⟨ha, hi⟩ := Bool.and_eq_true_iff.1 (Expr.effectFree_index.symm.trans h)
    rw [lowerExpr]
    exact .bind (looks_expr into array ha) fun _ =>
      .bind (looks_expr into index hi) fun _ => .pure _
  | .field object className field, h => by
    rw [lowerExpr]
    exact .bind (looks_expr into object h) fun _ => .bind (.fieldVar _ _ _) fun _ => .pure _
  | .staticField className field, _ => by
    rw [lowerExpr]
    exact .bind (.staticVar _ _) fun _ => .pure _
  | .actorVar actor name, h => by
    rw [lowerExpr]
    exact .bind (.actorVar name) fun _ => .bind (looks_expr into actor h) fun _ => .pure _
  | .binary op lhs rhs, h => by
    obtain ⟨hl, hr⟩ := Bool.and_eq_true_iff.1 ((Expr.effectFree_binary op).symm.trans h)
    rw [lowerExpr]
    exact .bind (looks_expr into lhs hl) fun _ => .bind (looks_expr into rhs hr) fun _ => .pure _
  | .not inner, h | .negate inner, h | .length inner, h => by
    rw [lowerExpr]
    exact .bind (looks_expr into inner h) fun _ => .pure _
  -- what makes or calls has effects
  | .new .., h => absurd h (by simp)
  | .call .., h => absurd h (by simp)

/-- Expressions without effects are lowered without code. -/
theorem looks_exprs (into : Expander) :
    (es : List Expr) → es.all Expr.effectFree = true → Looks (lowerExprs into es)
  | [], _ => by
    rw [lowerExprs]
    exact .pure _
  | e :: rest, h => by
    obtain ⟨he, hrest⟩ := Bool.and_eq_true_iff.1 ((List.all_cons ..).symm.trans h)
    rw [lowerExprs]
    exact .bind (looks_expr into e he) fun _ => .bind (looks_exprs into rest hrest) fun _ => .pure _

end

/-! ## Steps between statements -/

/-- The variables of a scope have these places. -/
structure Scope.Noted (places : List Location) (scope : Scope) : Prop where
  indexed : ∀ name v, (name, .indexed v) ∈ scope.bindings → v.location ∈ places
  recursive : ∀ name v, (name, .recursive v) ∈ scope.bindings → v.location ∈ places
  exits : ∀ v ∈ scope.exits, v.location ∈ places

/-- More places may be noted. -/
theorem Scope.Noted.mono {places places' : List Location} {scope : Scope} (h : scope.Noted places)
    (sub : places ⊆ places') : scope.Noted places' :=
  ⟨fun name v mem => sub (h.indexed name v mem), fun name v mem => sub (h.recursive name v mem),
    fun v mem => sub (h.exits v mem)⟩

namespace UnitState

/-- The variables that are known have slots of the unit. -/
def Noted (s : UnitState) : Prop := ∀ scope ∈ s.scopes, scope.Noted (s.symbols.map Symbol.location)

/-- The places that statements about variables write. -/
def ownPlaces (s : UnitState) : List Location :=
  s.symbols.map Symbol.location ++ s.session.classData.statics.map fun p => p.2.location

/-- Actions are written at the end of the list, and what was open before is open again. -/
structure Appends (s : UnitState) (actions : List Action) (t : UnitState) : Prop where
  list : t.list.toList = s.list.toList ++ actions
  frames : t.frames = s.frames
  grows : s.Grows t
  noted : s.Noted → t.Noted

/-- What is noted stays so while the scopes are the same. -/
theorem Noted.mono (h : s.Noted) (scopes : t.scopes = s.scopes)
    (symbols : s.symbols <:+ t.symbols) :
    t.Noted :=
  fun scope mem => (h scope (scopes ▸ mem)).mono (symbols.map Symbol.location).subset

/-- Own places stay own. -/
theorem Grows.ownPlaces (grows : s.Grows t) : ∀ l ∈ s.ownPlaces, l ∈ t.ownPlaces := by
  intro l mem
  rcases List.mem_append.1 mem with mem | mem
  · exact List.mem_append_left _ ((grows.symbols.map _).subset mem)
  · exact List.mem_append_right _ ((grows.session.classData.statics.map _).subset mem)

/-- What is stored comes behind what is there. -/
theorem Stored.appends {actions : List Action} (h : s.Stored actions t) : s.Appends actions t := by
  obtain ⟨storage, rfl, grows, list⟩ := h
  exact ⟨list, rfl, ⟨rfl, rfl, ⟨rfl, rfl, rfl, grows⟩, List.suffix_refl _, Nat.le_refl _, id⟩,
    fun noted => noted.mono rfl (List.suffix_refl _)⟩

namespace Appends

variable {first second : List Action}

theorem refl (s : UnitState) : s.Appends [] s := (Stored.refl s).appends

/-- What is appended in two steps is appended in one. -/
theorem trans (h₁ : s.Appends first t) (h₂ : t.Appends second u) : s.Appends (first ++ second) u :=
  ⟨by rw [h₂.list, h₁.list, List.append_assoc], h₂.frames.trans h₁.frames, h₁.grows.trans h₂.grows,
    fun noted => h₂.noted (h₁.noted noted)⟩

/-- A plain body stays plain. -/
theorem plain (h : s.Appends first t) (plain : s.inRecursiveFrame = false) :
    t.inRecursiveFrame = false := by
  rw [inRecursiveFrame, h.frames]
  exact plain

/-- A slot that is taken for a variable of the unit. -/
theorem of_takes {name : String} {stacked : Bool} {slot : UInt32} {v : Variable}
    {exits : List RecursiveVar} (h : Takes s name stacked slot [(name, v)] exits first s.hidden t)
    (settled : Lower.Settled first) (own : (∀ w, v = .indexed w → w.location = ⟨s.pool, slot⟩) ∧
      ∀ w, v = .recursive w → w.location = ⟨s.pool, slot⟩)
    (places : ∀ w ∈ exits, w.location = ⟨s.pool, slot⟩) : s.Appends first t := by
  have extends' := h.extends settled (Nat.le_refl _)
  refine ⟨extends'.list, extends'.frames, extends'.grows, fun noted scope mem => ?_⟩
  obtain ⟨p, head, rest, -, open', rfl⟩ := h.taken
  have new : ⟨s.pool, slot⟩ ∈ (symbolOf s name slot stacked :: s.symbols).map Symbol.location :=
    List.mem_cons_self
  have old (scope : Scope) (mem : scope ∈ s.scopes) :=
    (noted scope mem).mono (List.subset_cons_self (⟨s.pool, slot⟩ : Location) _)
  rcases List.mem_cons.1 mem with rfl | mem
  · -- the innermost scope, with the new variable
    obtain ⟨indexed, recursive, exits'⟩ := old head (open' ▸ List.mem_cons_self)
    refine ⟨fun n w bound => ?_, fun n w bound => ?_, fun w mem => ?_⟩
    · rcases List.mem_cons.1 bound with e | bound
      · exact own.1 w (congrArg Prod.snd e).symm ▸ new
      · exact indexed n w bound
    · rcases List.mem_cons.1 bound with e | bound
      · exact own.2 w (congrArg Prod.snd e).symm ▸ new
      · exact recursive n w bound
    · rcases List.mem_append.1 mem with mem | mem
      · exact places w mem ▸ new
      · exact exits' w mem
  · exact old scope (open' ▸ List.mem_cons_of_mem _ mem)

end Appends

end UnitState

/-- A write to some places is one to more. -/
theorem Action.Within.mono {a : Action} {places places' : List Location} (h : a.Within places)
    (sub : ∀ l ∈ places, l ∈ places') : a.Within places' := by
  obtain ⟨st, slot, index, value, e, mem⟩ := h
  exact ⟨st, slot, index, value, e, sub _ mem⟩

/-- What takes a slot notes one symbol. -/
theorem Lower.Takes.symbols_eq {name : String} {stacked : Bool} {slot : UInt32}
    {bindings : List (String × Variable)} {exits : List RecursiveVar} {actions : List Action}
    {hidden : Nat} (h : Takes s name stacked slot bindings exits actions hidden t) :
    t.symbols = symbolOf s name slot stacked :: s.symbols := by
  obtain ⟨p, scope, rest, -, -, rfl⟩ := h.taken
  rfl

namespace UnitState

/-- Actions that write only slots which were taken after a state. -/
def WritesSince (s t : UnitState) (actions : List Action) : Prop :=
  ∃ newer, newer ++ s.symbols = t.symbols ∧ ∀ a ∈ actions, a.Within (newer.map Symbol.location)

namespace WritesSince

variable {first second : List Action}

/-- Without code nothing is written. -/
theorem nil (grows : s.Grows t) : s.WritesSince t [] := by
  obtain ⟨newer, e⟩ := grows.symbols
  exact ⟨newer, e, List.forall_mem_nil _⟩

/-- What is written in two steps is written since the first. -/
theorem trans (h₁ : s.WritesSince t first) (h₂ : t.WritesSince u second) :
    s.WritesSince u (first ++ second) := by
  obtain ⟨newer, e, within⟩ := h₁
  obtain ⟨newer', e', within'⟩ := h₂
  refine ⟨newer' ++ newer, by rw [List.append_assoc, e, e'], fun a mem => ?_⟩
  rw [List.map_append]
  rcases List.mem_append.1 mem with mem | mem
  · exact (within a mem).mono fun l mem => List.mem_append_right _ mem
  · exact (within' a mem).mono fun l mem => List.mem_append_left _ mem

/-- One slot is taken, and written. -/
theorem one {sym : Symbol} {actions : List Action} (taken : t.symbols = sym :: s.symbols)
    (within : ∀ a ∈ actions, a.Within [sym.location]) : s.WritesSince t actions :=
  ⟨[sym], taken.symm, within⟩

/-- It is all at places that the unit has noted. -/
theorem within {actions : List Action} (h : s.WritesSince t actions) :
    ∀ a ∈ actions, a.Within (t.symbols.map Symbol.location) := by
  obtain ⟨newer, e, within⟩ := h
  intro a mem
  refine (within a mem).mono fun l mem => ?_
  rw [← e, List.map_append]
  exact List.mem_append_left _ mem

end WritesSince

end UnitState

namespace Lower

theorem appends_hiddenName {what name : String} (h : run (hiddenName what) s = some (.ok name, t)) :
    s.Appends [] t := by
  rw [run_hiddenName] at h
  cases h
  exact ⟨by simp, rfl, ⟨rfl, rfl, .refl _, List.suffix_refl _, Nat.le_succ _, id⟩,
    fun noted => noted.mono rfl (List.suffix_refl _)⟩

/-- A plain variable is a whole slot. -/
theorem path_declarePlain {name : String} {initial : Option Element} {v : IndexedVar}
    (h : run (declarePlain name initial) s = some (.ok v, t)) : v.path = [] := by
  cases initial <;>
  · simp only [declarePlain, run_bind_ok, run_pure, Option.some.injEq, Prod.mk.injEq,
      Except.ok.injEq] at h
    obtain ⟨_, _, -, _, _, -, _, _, -, h⟩ := h
    first
    | obtain ⟨_, _, -, rfl, -⟩ := h
      rfl
    | obtain ⟨_, _, -, _, _, -, rfl, -⟩ := h
      rfl

/-- A plain variable is declared. -/
theorem appends_declarePlain {name : String} {initial : Option Element} {v : IndexedVar}
    (h : run (declarePlain name initial) s = some (.ok v, t)) (clean : t.deferred = []) :
    s.Appends (initial.toList.flatMap fun x => v.set x none []) t ∧
      ∃ sym, t.symbols = sym :: s.symbols ∧ sym.location = v.location := by
  obtain ⟨slot, rfl, takes⟩ := run_declarePlain_ok h clean
  refine ⟨.of_takes takes (.flatMap (fun _ => settled_set _ _ _ _) _) ⟨fun w e => ?_, nofun⟩
    (List.forall_mem_nil _), _, takes.symbols_eq, rfl⟩
  cases e
  rfl

/-- A declaration writes only the slot that it takes. -/
theorem appends_declare {name : String} {initial : Option Element} {stacked : Bool} {v : Variable}
    (h : run (declare name initial stacked) s = some (.ok v, t)) (clean : t.deferred = []) :
    ∃ actions, s.Appends actions t ∧ s.WritesSince t actions := by
  rcases run_declare_ok h with ⟨-, w, rfl, found⟩ | ⟨-, w, rfl, found⟩
  · obtain ⟨slot, rfl, takes⟩ := run_declareStack_ok found clean
    refine ⟨_, .of_takes takes (settled_push _ _ _) ⟨nofun, fun w e => ?_⟩ fun w mem => ?_,
      .one takes.symbols_eq (IndexedVar.set_within List.mem_cons_self _ _ _)⟩
    · cases e
      rfl
    · rw [List.mem_singleton.1 mem]
      rfl
  · obtain ⟨appends, sym, taken, place⟩ := appends_declarePlain found clean
    refine ⟨_, appends, .one taken fun a mem => ?_⟩
    obtain ⟨x, -, mem⟩ := List.mem_flatMap.1 mem
    exact IndexedVar.set_within (List.mem_singleton.2 place.symm) _ _ _ a mem

/-- In a body that is not recursive a declaration that is not meant to be a stack is plain. -/
theorem run_declare_plain {name : String} {initial : Option Element} {v : Variable}
    (h : run (declare name initial false) s = some (.ok v, t))
      (plain : s.inRecursiveFrame = false) :
    ∃ w, v = .indexed w ∧ run (declarePlain name initial) s = some (.ok w, t) := by
  rcases run_declare_ok h with ⟨stacked, -⟩ | ⟨-, found⟩
  · rw [plain] at stacked
    cases stacked
  · exact found

/-- A name that is found is bound in some scope. -/
theorem run_lookup_bound {name : String} {v : Variable}
    (h : run (lookup name) s = some (.ok v, t)) :
    ∃ scope ∈ s.scopes, (name, v) ∈ scope.bindings := by
  obtain ⟨_, _, ⟨⟩, h⟩ := run_bind_ok.1 h
  dsimp only at h
  split at h
  · next found =>
    cases h
    obtain ⟨scope, mem, found⟩ := List.exists_of_findSome?_eq_some found
    obtain ⟨before, after, e, -⟩ := List.lookup_eq_some_iff.1 found
    exact ⟨scope, List.mem_of_mem_take mem, by simp [e]⟩
  · cases h

/-- A write to a variable that is known writes to a slot of the unit. -/
theorem set_within_of_noted {name : String} {v : Variable} {x : Element} {actor : Option Element}
    {extra : List Element} {actions : List Action} (noted : s.Noted)
    (found : ∃ scope ∈ s.scopes, (name, v) ∈ scope.bindings)
    (written : v.setFor name x actor extra = .ok actions) :
    ∀ a ∈ actions, a.Within (s.symbols.map Symbol.location) := by
  obtain ⟨scope, mem, bound⟩ := found
  cases v with
  | indexed w =>
    cases written
    exact IndexedVar.set_within ((noted scope mem).indexed name w bound) _ _ _
  | recursive w =>
    cases written
    exact IndexedVar.set_within ((noted scope mem).recursive name w bound) _ _ _
  | reference e => cases written

end Lower

end SkipCode
