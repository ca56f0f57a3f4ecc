import SkipCode.Proofs.Meaning
import SkipCode.Proofs.Pieces

/-!
# The variables that a unit declares

The plain variables that the body of a unit declares under a name of the source are numbered by the
order of their declarations. A piece of the body declares as many of them as the source says
(`Lowers.adds`), whatever the calls in it declare besides.
-/

namespace SkipCode

open Lower
open Source (StmtKind)

/-- The symbols of plain variables that the body of a unit declares under a name of the source. -/
def Symbol.IsSite (sym : Symbol) : Prop := sym.bodies = 1 ∧ sym.stacked = false ∧ ¬ Hidden sym.name

instance (sym : Symbol) : Decidable sym.IsSite := inferInstanceAs (Decidable (_ ∧ _ ∧ _))

namespace UnitState

/-- In the order of their declarations. -/
def sites (s : UnitState) : List Symbol := (s.symbols.filter (·.IsSite)).reverse

variable {s t u : UnitState} {n k : Nat}

/-- What is noted stays noted, and in order. -/
theorem Grows.sites (grows : s.Grows t) : s.sites <+: t.sites :=
  List.reverse_prefix.2 (grows.symbols.filter _)

/-- Symbols that are no sites leave the sites as they are. -/
theorem sites_of_symbols {new : List Symbol} (symbols : t.symbols = new ++ s.symbols)
    (none : ∀ sym ∈ new, ¬ sym.IsSite) : t.sites = s.sites := by
  have filtered : new.filter (·.IsSite) = [] := List.filter_eq_nil_iff.2 fun sym mem => by
    simpa using none sym mem
  rw [UnitState.sites, UnitState.sites, symbols, List.filter_append, filtered, List.nil_append]

/-- The body of the unit declares a number of them from one state to another; in other bodies none
is declared. -/
structure Adds (n : Nat) (s t : UnitState) : Prop where
  frames : t.frames.length = s.frames.length
  sites : t.sites.length = s.sites.length + if s.frames.length = 1 then n else 0

namespace Adds

/-- A step that notes no symbol adds nothing. -/
theorem none (frames : t.frames.length = s.frames.length) (sites : t.sites = s.sites) :
    s.Adds 0 t :=
  ⟨frames, by rw [sites, ite_self, Nat.add_zero]⟩

theorem refl (s : UnitState) : s.Adds 0 s := .none rfl rfl

/-- What two steps add is added up. -/
theorem trans (h : s.Adds n t) (h' : t.Adds k u) : s.Adds (n + k) u := by
  refine ⟨h'.frames.trans h.frames, ?_⟩
  rw [h'.sites, h.sites, h.frames]
  split <;> omega

/-- The numbers that are declared may be counted in another order. -/
theorem cast (h : s.Adds n t) (same : n = k) : s.Adds k t := same ▸ h

/-- Only symbols and the number of bodies count. -/
theorem congr {s' t' : UnitState} (h : s.Adds n t) (hs : s'.symbols = s.symbols)
    (hf : s'.frames = s.frames) (ht : t'.symbols = t.symbols)
    (hg : t'.frames.length = t.frames.length) : s'.Adds n t' := by
  refine ⟨by rw [hg, hf, h.frames], ?_⟩
  have sites := h.sites
  unfold UnitState.sites at *
  rw [ht, hs, hf, sites]

/-- The list has nothing to do with sites. -/
theorem withList (h : s.Adds n t) (list : ActionList) :
    s.Adds n (t.withList list) := h.congr rfl rfl rfl rfl

/-- What a body of its own declares does not count. -/
theorem body {frame : Frame} (h : (s.entered frame).Adds n t) (inside : s.frames ≠ [])
    (list : ActionList) :
    s.Adds 0 (t.left list) := by
  have length : (s.entered frame).frames.length = s.frames.length + 1 := rfl
  have here := List.length_pos_iff.2 inside
  have sites : t.sites.length = s.sites.length := by
    rw [h.sites, if_neg (by omega)]
    rfl
  refine ⟨?_, ?_⟩
  · rw [left, List.length_tail, h.frames, length, Nat.add_sub_cancel]
  · rw [ite_self, Nat.add_zero]
    exact sites

end Adds

end UnitState

/-! ## Steps that declare no such variable -/

/-- A step that declares no plain variable of the unit under a name of the source; of some steps
that holds inside another body only. -/
def Lower.Siteless {α : Type} (elsewhere : Prop) (m : Lower α) : Prop :=
  ∀ s a t, (elsewhere → 2 ≤ s.frames.length) → run m s = some (.ok a, t) →
    t.frames = s.frames ∧ t.sites = s.sites

namespace Lower.Siteless

variable {α β : Type} {elsewhere : Prop}

theorem pure (a : α) : Siteless elsewhere (Pure.pure a : Lower α) := by
  intro s b t _ h
  cases h
  exact ⟨rfl, rfl⟩

/-- Steps without sites have none together. -/
theorem bind {m : Lower α} {f : α → Lower β} (hm : Siteless elsewhere m)
    (hf : ∀ a, Siteless elsewhere (f a)) :
    Siteless elsewhere (m >>= f) := by
  intro s b t inner h
  obtain ⟨a, u, h₁, h₂⟩ := run_bind_ok.1 h
  obtain ⟨frames₁, sites₁⟩ := hm s a u inner h₁
  obtain ⟨frames₂, sites₂⟩ := hf a u b t (by rwa [frames₁]) h₂
  exact ⟨frames₂.trans frames₁, sites₂.trans sites₁⟩

/-- With these rules steps are put together without sites. -/
theorem composes : Composes Lower (Siteless elsewhere) := ⟨pure, bind⟩

theorem get : Siteless elsewhere (MonadState.get : Lower UnitState) := by
  intro s a t _ h
  cases h
  exact ⟨rfl, rfl⟩

/-- A change of the state that keeps frames and symbols has no sites. -/
theorem change {f : UnitState → UnitState} (frames : ∀ s, (f s).frames = s.frames)
    (symbols : ∀ s, (f s).symbols = s.symbols) : Siteless elsewhere (modify f : Lower PUnit) := by
  intro s a t _ h
  cases h
  exact ⟨frames s, congrArg (fun symbols => (symbols.filter (·.IsSite)).reverse) (symbols s)⟩

theorem modifyScope (f : Scope → Scope) : Siteless elsewhere (Lower.modifyScope f) := by
  intro s a t _ h
  obtain ⟨scope, rest, -, rfl⟩ := run_modifyScope_ok.1 h
  exact ⟨rfl, rfl⟩

theorem emit (actions : List Action) : Siteless elsewhere (Lower.emit actions) :=
  .change (fun _ => rfl) fun _ => rfl

theorem allocate (owner : String) : Siteless elsewhere (Lower.allocate owner) := by
  intro s a t _ h
  rcases run_allocate_ok h with ⟨p, scope, rest, -, -, rfl⟩ | ⟨e, rfl⟩ <;> exact ⟨rfl, rfl⟩

theorem hiddenName (what : String) : Siteless elsewhere (Lower.hiddenName what) :=
  .bind (.change (fun _ => rfl) fun _ => rfl) fun _ => .bind .get fun _ => .pure _

theorem indexName (index : Option String) : Siteless elsewhere (Lower.indexName index) := by
  cases index with
  | none => exact .hiddenName _
  | some name => exact .pure name

/-- A symbol that is a stack, that is hidden, or that is in another body. -/
theorem addSymbol {name : String} (slot : UInt32) {stacked : Bool}
    (other : stacked = true ∨ Hidden name ∨ elsewhere) :
    Siteless elsewhere (Lower.addSymbol name slot stacked) := by
  intro s a t inner h
  cases h
  refine ⟨rfl, UnitState.sites_of_symbols (List.singleton_append (l := s.symbols)).symm
    fun sym mem => ?_⟩
  obtain rfl := List.mem_singleton.1 mem
  rintro ⟨bodies, plain, named⟩
  rcases other with rfl | hidden | there
  · cases plain
  · exact named hidden
  · have := inner there
    change s.frames.length = 1 at bodies
    omega

/-- A stack is no site. -/
theorem declareStack (name : String) (initial : Option Element) :
    Siteless elsewhere (Lower.declareStack name initial) :=
  .bind (.allocate name) fun _ => .bind (.addSymbol _ (Or.inl rfl)) fun _ => .bind .get fun _ =>
    .bind (.emit _) fun _ => .bind (.modifyScope _) fun _ => .bind (.modifyScope _) fun _ => .pure _

/-- A variable is none under a made-up name or in another body. -/
theorem declarePlain {name : String} (other : Hidden name ∨ elsewhere) (initial : Option Element) :
    Siteless elsewhere (Lower.declarePlain name initial) := by
  refine .bind (.allocate name) fun _ => .bind (.addSymbol _ (Or.inr other)) fun _ =>
    .bind .get fun _ => ?_
  cases initial with
  | none => exact .bind (.modifyScope _) fun _ => .pure _
  | some value => exact .bind (.emit _) fun _ => .bind (.modifyScope _) fun _ => .pure _

theorem declare {name : String} (other : Hidden name ∨ elsewhere) (initial : Option Element)
    (stacked : Bool) :
    Siteless elsewhere (Lower.declare name initial stacked) := by
  refine .bind .get fun s => ?_
  split
  · exact .bind (.declareStack _ _) fun _ => .pure _
  · exact .bind (.declarePlain other _) fun _ => .pure _

/-- A step that goes on with a made-up name. -/
theorem withHidden {what : String} (known : what ∈ variableWords ++ temporaryWords)
    {f : String → Lower α} (hf : ∀ name, Hidden name → Siteless elsewhere (f name)) :
    Siteless elsewhere (Lower.hiddenName what >>= f) := by
  intro s a t inner h
  obtain ⟨name, u, h₁, h₂⟩ := run_bind_ok.1 h
  rw [run_hiddenName] at h₁
  cases h₁
  exact hf _ ⟨what, known, _, rfl⟩ { s with hidden := s.hidden + 1 } a t inner h₂

/-- A temporary has a made-up name. -/
theorem temp {what : String} (known : what ∈ temporaryWords) :
    Siteless elsewhere (Lower.temp what) :=
  .withHidden (List.mem_append_right _ known) fun _ hidden => .bind (.allocate _) fun _ =>
    .bind (.addSymbol _ (Or.inr (Or.inl hidden))) fun _ => .bind .get fun _ => .pure _

/-- A value is kept on a stack, which is none. -/
theorem materialize (value : Element) : Siteless elsewhere (Lower.materialize value) := by
  refine .bind .get fun s => ?_
  split
  · exact .bind (.hiddenName _) fun _ => .bind (.declareStack _ _) fun _ => .pure _
  · exact .pure _

theorem onStorage (m : ClassStorage.Step α) : Siteless elsewhere (Lower.onStorage m) := by
  intro s a t _ h
  obtain ⟨u, -, rfl⟩ := run_onStorage_ok.1 h
  exact ⟨rfl, rfl⟩

theorem lift (x : Except LowerError α) : Siteless elsewhere (liftM x : Lower α) := by
  intro s a t _ h
  rw [run_lift] at h
  cases h
  exact ⟨rfl, rfl⟩

theorem fieldVar (className field : String) (handle : Element) :
    Siteless elsewhere (Lower.fieldVar className field handle) :=
  .bind .get fun _ => .bind (.lift _) fun _ => .bind (.lift _) fun _ =>
    .bind (.onStorage _) fun _ => .bind (.onStorage _) fun _ => .pure _

theorem staticVar (className field : String) :
    Siteless elsewhere (Lower.staticVar className field) :=
  .bind .get fun _ => .bind (.lift _) fun _ => .onStorage _

theorem resolveTarget (target : Source.Place) (os : List Element) :
    Siteless elsewhere (Lower.resolveTarget target os) := by
  unfold Lower.resolveTarget
  split
  · intro s v t _ h
    rw [run_lookup_ok h]
    exact ⟨rfl, rfl⟩
  · exact .bind (.fieldVar _ _ _) fun _ => .pure _
  · exact .bind (.staticVar _ _) fun _ => .pure _
  · intro s v t _ h
    cases h

/-- The handle of an instance that is given up has a made-up name. -/
theorem deleteHandle (handle : Element) (className : String) :
    Siteless elsewhere (Lower.deleteHandle handle className) :=
  .withHidden (by decide) fun _ hidden => .bind (.declare (Or.inl hidden) _ _) fun _ =>
    .bind .get fun _ => .onStorage _

/-- What a region declares is on stacks. -/
theorem openRegion (key : String) (params : List String) (receiver : Option Element)
    (arguments : List Element) (result : IndexedVar) :
    Siteless elsewhere (Lower.openRegion key params receiver arguments result) :=
  .bind (composes.mapM fun _ _ => .declareStack _ _) fun _ =>
    .bind (composes.optionMapM (fun _ => .declareStack _ _) _) fun _ =>
      .bind (.hiddenName _) fun _ => .bind (.declareStack _ _) fun _ =>
        .bind (composes.mapM fun _ _ => .temp (by decide)) fun _ =>
          .bind (composes.optionMapM (fun _ => .temp (by decide)) _) fun _ =>
            .bind (.bind .get fun _ => .pure _) fun _ => .pure _

theorem elsewhereTemp (what : String) : Siteless True (Lower.temp what) :=
  .bind (.hiddenName what) fun _ => .bind (.allocate _) fun _ =>
    .bind (.addSymbol _ (Or.inr (Or.inr trivial))) fun _ => .bind .get fun _ => .pure _

/-- In another body nothing counts. -/
theorem rules : DeclareRules (Siteless True) :=
  ⟨⟨pure, bind⟩, get, hiddenName, elsewhereTemp, fun _ _ => modifyScope _, declareStack,
    fun _ => declarePlain (Or.inr trivial)⟩

end Lower.Siteless

/-- A step in any body. -/
theorem Lower.Emits.adds {α : Type} {m : Lower α} {r : α} {s t : UnitState} {actions : List Action}
    (e : Emits m s actions r t) (siteless : Siteless False m) : s.Adds 0 t := by
  obtain ⟨frames, sites⟩ := siteless s r t False.elim e.run
  exact .none (congrArg _ frames) sites

/-! ## Pieces of the source -/

/-- A body is open, and that of a unit is not recursive. -/
structure UnitState.Counted (s : UnitState) : Prop where
  inside : s.frames ≠ []
  unit : s.frames.length = 1 → s.inRecursiveFrame = false

namespace UnitState.Counted

variable {s t : UnitState}

/-- A step that keeps what is open keeps that. -/
theorem steady (counted : s.Counted) (steady : s.Steady t) : t.Counted := by
  have frames := steady.frames
  cases found : s.frames with
  | nil => exact absurd found counted.inside
  | cons frame rest =>
    rw [found] at frames
    obtain ⟨frame', rest', grown, others, e⟩ := List.forall₂_cons_left_iff.1 frames
    have recursive : t.inRecursiveFrame = s.inRecursiveFrame := by
      rw [UnitState.inRecursiveFrame, UnitState.inRecursiveFrame, e, found, grown]
    refine ⟨by rw [e]; exact List.cons_ne_nil _ _, fun one => recursive.trans (counted.unit ?_)⟩
    rw [steady.frames.length_eq, one]

theorem congr (counted : s.Counted) (frames : t.frames = s.frames) : t.Counted := by
  refine ⟨frames ▸ counted.inside, fun one => ?_⟩
  rw [UnitState.inRecursiveFrame, frames]
  exact counted.unit (frames ▸ one)

/-- In a body inside there are two. -/
theorem two_bodies (counted : s.Counted) {frame : Frame} : 2 ≤ (s.entered frame).frames.length :=
  Nat.succ_le_succ (List.length_pos_iff.2 counted.inside)

/-- In another body it does not matter. -/
theorem entered (counted : s.Counted) (frame : Frame) : (s.entered frame).Counted := by
  have := List.length_pos_iff.2 counted.inside
  refine ⟨List.cons_ne_nil _ _, fun one => ?_⟩
  have : s.frames.length + 1 = 1 := one
  omega

end UnitState.Counted

/-- How many plain variables a piece of the source declares for the body of the unit. -/
def Task.sites : Task → Nat
  | .stmt s => Meaning.sites s.kinds
  | .kind k => Meaning.sites k.kinds
  | .stmts statements | .block statements => Meaning.sites (Source.kindsOf statements)
  | .arms branches otherwise =>
    Meaning.sites (Source.kindsOfBranches branches ++ Source.kindsOf (otherwise.getD []))
  | .loop _ statements step => Meaning.sites (Source.kindsOf statements ++ Source.kindsOf step)
  | _ => 0

namespace Meaning

/-- Statements have the sites of their parts. -/
@[simp] theorem sites_append (a b : List StmtKind) : sites (a ++ b) = sites a + sites b :=
  List.countP_append

theorem sites_cons (k : StmtKind) (rest : List StmtKind) :
    sites (k :: rest) = (if declaresPlain k then 1 else 0) + sites rest := by
  rw [sites, List.countP_cons, Nat.add_comm]
  rfl

/-- A statement that declares nothing has none of its own. -/
theorem sites_cons_other {k : StmtKind} (other : declaresPlain k = false) (rest : List StmtKind) :
    sites (k :: rest) = sites rest := by
  rw [sites_cons, other, if_neg Bool.false_ne_true, Nat.zero_add]

end Meaning

namespace Task

variable (condition : Source.Expr) (statements : List Source.Stmt)

/-- A condition has the sites of its branches. -/
theorem sites_cond (branches : List Source.Branch) (otherwise : Option (List Source.Stmt)) :
    (kind (.cond branches otherwise)).sites = (arms branches otherwise).sites := by
  rw [sites, sites, Source.kinds_cond, Meaning.sites_cons_other rfl]

/-- A loop has those of its body. -/
theorem sites_while :
    (kind (.while condition statements)).sites = (loop condition statements []).sites := by
  rw [sites, sites, StmtKind.kinds, Meaning.sites_cons_other rfl, Source.kindsOf, List.append_nil]

/-- A loop with a start has those of the start, too. -/
theorem sites_for (start step : Option Source.Stmt) :
    (kind (.for start condition step statements)).sites =
    (stmts start.toList).sites + (loop condition statements step.toList).sites := by
  rw [sites, sites, sites, Source.kinds_for, Meaning.sites_cons_other rfl]
  simp only [Meaning.sites_append]
  omega

/-- A loop over an array has its own, and those of its body. -/
theorem sites_forEach (element : String) (index : Option String) : 
    (kind (.forEach element index condition statements)).sites =
      (if index.isSome then 1 else 0) + (stmts statements).sites := by
  rw [sites, sites, StmtKind.kinds, Meaning.sites_cons]
  rfl

end Task

section

variable {s t u : UnitState} {n : Nat} {actions pops : List Action} {task : Task}

/-- What is declared in a scope of its own is still a site behind it. -/
theorem UnitState.Adds.closed (h : s.opened.Adds n t) (closes : Closes t pops u) : s.Adds n u := by
  obtain ⟨scope, rest, σ, -, -, -, rfl⟩ := closes.closed
  exact h.congr rfl rfl rfl rfl

/-- A condition that is lowered in a scope of its own. -/
theorem UnitState.Adds.tested (h : s.opened.Adds n t) (list : ActionList)
    (closes : Closes (t.withList list) pops u) :
    s.Adds n u :=
  (h.withList list).closed closes

/-- A declaration under a name of the source. -/
theorem Lower.Emits.adds_declare {name : String} {initial : Option Element} {stacked : Bool}
    {v : Variable} (e : Emits (declare name initial stacked) s actions v t)
    (named : s.frames.length = 1 → ¬ Hidden name) (counted : s.Counted) :
    s.Adds (if stacked then 0 else 1) t := by
  rcases run_declare_ok e.run with ⟨kind, w, rfl, h⟩ | ⟨kind, w, rfl, h⟩
  · have siteless : Siteless False (Lower.declareStack name initial) := .declareStack name initial
    obtain ⟨frames, sites⟩ := siteless s w t False.elim h
    refine ⟨congrArg _ frames, ?_⟩
    rw [sites]
    split
    · next one =>
      rw [counted.unit one, Bool.or_false] at kind
      rw [if_pos kind, Nat.add_zero]
    · rfl
  · obtain ⟨slot, -, takes⟩ := run_declarePlain_ok h e.clean
    obtain ⟨p, scope, rest, -, -, rfl⟩ := takes.taken
    refine ⟨rfl, ?_⟩
    have plain : stacked = false := (Bool.or_eq_false_iff.1 kind).1
    rw [plain, UnitState.sites, UnitState.sites, List.length_reverse, List.length_reverse,
      List.filter_cons]
    by_cases one : s.frames.length = 1
    · have site : (symbolOf s name slot false).IsSite := ⟨one, rfl, named one⟩
      simp [one, site]
    · have other : ¬ (symbolOf s name slot false).IsSite := fun site => one site.1
      simp [one, other]

/-- A piece of the source declares what it says for the body of the unit, if it is in that body, and
what it calls declares nothing for it. -/
theorem Lowers.adds {c : Code} {xs : List Element} (h : Lowers task s c xs t) (counted : s.Counted)
    (names : s.frames.length = 1 → task.Declares (¬ Hidden ·)) : s.Adds task.sites t := by
  have outer {s : UnitState} {task : Task} (outer : ¬ task.InBody) :
      s.frames.length = 1 → task.Declares (¬ Hidden ·) := fun _ inside => absurd inside outer
  -- a body that is entered is not the one of the unit
  have other {s : UnitState} {frame : Frame} {task : Task} (counted : s.Counted) :
      (s.entered frame).frames.length = 1 → task.Declares (¬ Hidden ·) := fun one => by
    have := List.length_pos_iff.2 counted.inside
    have : s.frames.length + 1 = 1 := one
    omega
  induction h with
  | nil | fields_nil | statics_nil | stmts_nil | arms_nil | var _ | this _ => exact .refl _
  | cons h₁ _ ih₁ ih₂ | new h₁ _ ih₁ ih₂ =>
    exact (ih₁ counted (outer id)).trans (ih₂ (counted.steady h₁.steady) (outer id))
  | node _ _ ih | actorVar _ _ ih => exact ih counted (outer id)
  | field _ e ih => exact (ih counted (outer id)).trans (e.adds (.fieldVar _ _ _))
  | staticField e => exact e.adds (.staticVar _ _)
  | call _ _ h₁ h₂ _ ih₁ ih₂ ih₃ =>
    have counted₁ := counted.steady h₁.steady
    exact (ih₁ counted (outer id)).trans ((ih₂ counted₁ (outer id)).trans
      (ih₃ (counted₁.steady h₂.steady) (outer id)))
  | @body key _ _ _ _ result s _ _ _ _ _ _ list e _ closes ih =>
    have opened : s.opened.Counted := counted.congr rfl
    obtain ⟨frames, sites⟩ := Siteless.rules.bindCall _ _ _ _ _ _ (fun _ => opened.two_bodies) e.run
    have bound := UnitState.Adds.none (congrArg _ frames) sites
    have inner :=
      ih ((opened.entered (s.expanded (some key) result)).congr frames) (frames ▸ other opened)
    obtain ⟨scope, rest, σ, -, -, -, rfl⟩ := closes.closed
    exact ((bound.trans inner).body counted.inside list).congr rfl rfl rfl rfl
  | inline _ e h e' ih =>
    have counted₁ := counted.steady e.extends'.steady
    exact (e.adds (.temp (by decide))).trans ((ih counted₁ (outer id)).trans
      (e'.adds (.materialize _)))
  | reenter list continuation _ _ e => exact (e.adds (.materialize _)).congr rfl rfl rfl rfl
  | @region callee _ _ s result s₁ address s₂ _ _ s₃ _ _ _ _ _ _ _ _ _ list list' list'' _ _ e₁ e₂
      e₃ _ _ closes e₄
    ih =>
    have temps := (e₁.adds (.temp (by decide))).trans (e₂.adds (.temp (by decide)))
    have counted₂ := counted.steady (e₁.extends'.steady.trans e₂.extends'.steady)
    have opened : s₂.opened.Counted := counted₂.congr rfl
    have counted₃ := opened.steady e₃.extends'.steady
    have inner : (s₃.entered _).Adds _ _ :=
      (ih ((counted₃.entered _).congr rfl) (other counted₃)).congr rfl rfl rfl rfl
    have around := (e₃.adds (.openRegion _ _ _ _ _)).trans (inner.body counted₃.inside list)
    obtain ⟨scope, rest, σ, -, -, -, rfl⟩ := closes.closed
    have around : s₂.Adds 0 _ := around.congr rfl rfl rfl rfl
    exact temps.trans (around.trans ((e₄.adds (.materialize _)).congr rfl rfl rfl rfl))
  | @make _ _ _ s _ _ _ s₁ _ _ s₂ _ s₃ _ _ _ _ _ s₄ _ s₅ _ s₆ _ _ named declares _ prepared _
      acquired _ h₁ h₂ ih₁
    ih₂ =>
    have hidden : Hidden _ := named.hiddenName.1 ▸ hidden_numbered (by decide) _
    have counted₁ := counted.steady named.extends'.steady
    have handle := (named.adds (.hiddenName _)).trans (declares.adds (.declare (Or.inl hidden) _ _))
    have storage := (prepared.adds (.onStorage _)).trans (acquired.adds (.onStorage _))
    have counted₄ :=
      ((counted₁.steady declares.extends'.steady).steady prepared.extends'.steady).steady
      acquired.extends'.steady
    exact handle.trans
      (storage.trans ((ih₁ counted₄ (outer id)).trans (ih₂ (counted₄.steady h₁.steady) (outer id))))
  | @initials _ _ s _ _ _ _ list _ closes ih =>
    have opened : s.opened.Counted := counted.congr rfl
    have inner := ih ((opened.entered (s.expanded none none)).congr rfl) (outer id)
    obtain ⟨scope, rest, σ, -, -, -, rfl⟩ := closes.closed
    have inner : (s.entered (s.expanded none none)).Adds _ _ := inner.congr rfl rfl rfl rfl
    exact (inner.body counted.inside list).congr rfl rfl rfl rfl
  | fields_cons list h₁ e _ ih₁ ih₂ =>
    have counted₁ := counted.steady h₁.steady
    have rest := ih₂ ((counted₁.steady e.extends'.steady).congr rfl) (outer id)
    exact (ih₁ counted (outer id)).trans ((e.adds (.onStorage _)).trans
      (rest.congr rfl rfl rfl rfl))
  | statics_cons list h₁ e _ ih₁ ih₂ =>
    have counted₁ := counted.steady h₁.steady
    have rest := ih₂ ((counted₁.steady e.extends'.steady).congr rfl) (outer id)
    exact (ih₁ counted (outer id)).trans ((e.adds (.staticVar _ _)).trans
      (rest.congr rfl rfl rfl rfl))
  | stmt _ ih => exact (ih (counted.congr rfl) fun one => names one).congr rfl rfl rfl rfl
  | stmts_cons h₁ _ ih₁ ih₂ =>
    have first := ih₁ counted fun one => (names one).of_subset trivial (List.subset_append_left _ _)
    have rest := ih₂ (counted.steady h₁.steady) fun one =>
      (names (first.frames ▸ one)).of_subset trivial (List.subset_append_right _ _)
    exact (first.trans rest).cast (Meaning.sites_append _ _).symm
  | block _ closes ih => exact (ih (counted.congr rfl) fun one => names one).closed closes
  | @define name initial recursive _ _ _ _ _ _ _ h e ih =>
    have named : _ → ¬ Hidden name := fun one => names one trivial _ (StmtKind.mem_kinds _) _
      (List.mem_singleton_self _)
    have value := ih counted (outer id)
    refine (value.trans (e.adds_declare (value.frames ▸ named) (counted.steady h.steady))).cast ?_
    cases recursive <;> rfl
  | assign list h₁ h₂ e _ _ ih₁ ih₂ ih₃ =>
    have counted₁ := counted.steady h₁.steady
    have counted₂ := counted₁.steady h₂.steady
    have target :=
      (ih₁ counted (outer id)).trans ((ih₂ counted₁ (outer id)).trans (e.adds (.resolveTarget _ _)))
    exact (target.trans (ih₃ (counted₂.steady e.extends'.steady) (outer id))).congr rfl rfl rfl rfl
  | assignActor list h₁ e h₂ h₃ _ ih₁ ih₂ ih₃ =>
    have counted₁ := counted.steady h₁.steady
    have operands := (ih₁ counted (outer id)).trans (ih₂ counted₁ (outer id))
    exact (operands.trans (ih₃ (counted₁.steady h₂.steady) (outer id))).congr rfl rfl rfl rfl
  | cond list _ ih =>
    rw [Task.sites_cond]
    exact (ih counted fun one => (names one).of_subset trivial Task.kinds_cond).congr rfl
      rfl rfl rfl
  | «while» _ ih =>
    rw [Task.sites_while]
    exact ih counted fun one => (names one).of_subset trivial Task.kinds_while
  | «for» h₁ _ closes ih₁ ih₂ =>
    rw [Task.sites_for]
    have start := ih₁ (counted.congr rfl) fun one => (names one).of_subset trivial Task.kinds_start
    have counted₁ := (counted.congr (t := UnitState.opened _) rfl).steady h₁.steady
    have loop :=
      ih₂ counted₁ fun one => (names (start.frames ▸ one)).of_subset trivial Task.kinds_for
    exact (start.trans loop).closed closes
  | @forEach element index _ statements s _ _ s₁ name s₂ _ _ s₃ _ _ s₄ _ s₅ _ _ s₆ list list' list''
      h₁ named declares _
    h₂
      closes _ closes' ih₁ ih₂ =>
    rw [Task.sites_forEach]
    have value := ih₁ counted (outer id)
    have opened : s₁.opened.Counted := (counted.steady h₁.steady).congr rfl
    have counted₃ := (opened.steady named.extends'.steady).steady declares.extends'.steady
    have names₁ (one : s₁.frames.length = 1) : ∀ n ∈ element :: index.toList, ¬ Hidden n :=
      names (value.frames ▸ one) trivial _ (StmtKind.mem_kinds _)
    have index : s₁.opened.Adds (if index.isSome then 1 else 0) s₃ := by
      cases index with
      | none =>
        have hidden : Hidden name := named.hiddenName.1 ▸ hidden_numbered (by decide) _
        exact (named.adds (.hiddenName _)).trans (declares.adds (.declare (Or.inl hidden) _ _))
      | some given =>
        have run := named.run
        cases run
        exact declares.adds_declare (fun one => names₁ one _ (by simp)) opened
    have inside (one : s₃.frames.length = 1) : s.frames.length = 1 :=
      value.frames.symm.trans (index.frames.symm.trans one)
    have body := ih₂ (counted₃.congr rfl) fun one =>
      (names (inside one)).of_subset trivial (List.subset_cons_self _ _)
    have passed : s₃.Adds (Task.stmts statements).sites (s₅.looped list'') := by
      obtain ⟨scope, rest, σ, -, -, -, rfl⟩ := closes.closed
      exact body.congr rfl rfl rfl rfl
    exact (value.trans ((index.trans passed).closed closes')).cast (Nat.zero_add _)
  | «break» | «continue» => exact (UnitState.Adds.refl _).congr rfl rfl rfl rfl
  | «return» list skip _ found ih =>
    refine (ih counted (outer id)).congr rfl rfl rfl ?_
    rw [found]
    rfl
  | delete _ e ih => exact (ih counted (outer id)).trans (e.adds (.deleteHandle _ _))
  | blockKind _ ih =>
    refine (ih counted fun one => (names one).of_subset trivial (List.subset_cons_self _ _)).cast ?_
    exact (Meaning.sites_cons_other rfl _).symm
  | exprKind _ ih => exact ih counted (outer id)
  | arms_otherwise _ ih =>
    exact ih counted fun one => (names one).of_subset trivial Task.kinds_otherwise
  | arms_last list list' h₁ closes h₂ ih₁ ih₂ =>
    have counted₁ := counted.steady (.inScope (h₁.steady.withList list) closes)
    have condition := (ih₁ (counted.congr rfl) (outer id)).tested list closes
    have body :=
      ih₂ counted₁ fun one => (names (condition.frames ▸ one)).of_subset trivial Task.kinds_arm
    refine ((condition.trans body).withList list').cast ?_
    simp only [Task.sites, Source.kindsOfBranches, Source.kindsOf, Option.getD_none,
      List.append_nil]
    omega
  | arms_cons list list' h₁ closes h₂ _ ih₁ ih₂ ih₃ =>
    have counted₁ := counted.steady (.inScope (h₁.steady.withList list) closes)
    have condition := (ih₁ (counted.congr rfl) (outer id)).tested list closes
    have body := condition.trans
      (ih₂ counted₁ fun one => (names (condition.frames ▸ one)).of_subset trivial Task.kinds_arm)
    have rest := ih₃ ((counted₁.steady h₂.steady).congr rfl) fun one =>
      (names (body.frames ▸ one)).of_subset trivial Task.kinds_arms
    refine (body.trans (rest.congr rfl rfl rfl rfl)).cast ?_
    simp only [Task.sites, Source.kindsOfBranches, Meaning.sites_append]
    omega
  | @loop _ _ _ s _ _ s₁ _ s₂ _ s₃ _ _ list list' list'' list''' h₁ closes h₂ _ ih₁ ih₂ ih₃ =>
    have steady : (s.looping list).Steady s₂ := .inScope (h₁.steady.withList list') closes
    have counted₁ : (s.looping list).Counted := counted.congr rfl
    have condition := (ih₁ (counted.congr rfl) (outer id)).tested (s := s.looping list) list' closes
    have body := condition.trans (ih₂ (counted₁.steady steady) fun one =>
      (names (condition.frames ▸ one)).of_subset trivial (List.subset_append_left _ _))
    have body : s.Adds _ (s₃.looped list'') := body.congr rfl rfl rfl rfl
    have step := ih₃ ((counted₁.steady (steady.trans h₂.steady)).congr rfl) fun one =>
      (names (body.frames ▸ one)).of_subset trivial (List.subset_append_right _ _)
    refine ((body.trans step).withList list''').cast ?_
    simp only [Task.sites, Meaning.sites_append]
    omega

end

end SkipCode
