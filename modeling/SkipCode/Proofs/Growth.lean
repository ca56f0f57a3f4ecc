import Mathlib.Data.List.Forall2
import SkipCode.Lower.Unit

/-!
# What lowering only adds to

While a unit is lowered its state is added to and little of it is taken back: scopes are opened and
closed in pairs, and between the two the scopes outside stay as they are. `Grows` says this of each
part of the state, and `UnitState.Steady` says it of what lies between two states of which the
second is as far inside scopes, loops, bodies and regions as the first.
-/

namespace SkipCode

/-- What a scope declared it still declares. -/
structure Scope.Grows (a b : Scope) : Prop where
  bindings : a.bindings <:+ b.bindings
  exits : a.exits <:+ b.exits
  owned : a.owned <:+ b.owned

/-- The innermost scope grows and the others stay. -/
inductive ScopesGrow : List Scope → List Scope → Prop
  | nil : ScopesGrow [] []
  | cons {a b rest} : a.Grows b → ScopesGrow (a :: rest) (b :: rest)

/-- What has a slot in the storage of instances keeps it. -/
structure ClassData.Grows (a b : ClassData) : Prop where
  table : ∀ v, a.table = some v → b.table = some v
  fieldStacks : a.fieldStacks <+: b.fieldStacks
  statics : a.statics <+: b.statics

structure Session.Grows (a b : Session) : Prop where
  config : b.config = a.config
  classes : b.classes = a.classes
  functions : b.functions = a.functions
  classData : a.classData.Grows b.classData

/-- A loop that is still open: more skips may wait. -/
structure LoopFrame.Grows (a b : LoopFrame) : Prop where
  start : b.start = a.start
  scopeDepth : b.scopeDepth = a.scopeDepth

/-- A body that is still open: more returns may wait. -/
def Frame.Grows (a b : Frame) : Prop := b = { a with returns := b.returns }

/-- A region that is still open: more calls may be in it. -/
structure Region.Grows (a b : Region) : Prop where
  same : b = { a with callSites := b.callSites }
  sites : a.callSites <+: b.callSites

namespace UnitState

/-- What holds of any two states in the course of a lowering that goes on. -/
structure Grows (s t : UnitState) : Prop where
  unit : t.unit = s.unit
  pool : t.pool = s.pool
  session : s.session.Grows t.session
  symbols : s.symbols <:+ t.symbols
  hidden : s.hidden ≤ t.hidden
  /-- Exhaustions are not forgotten. -/
  deferred : t.deferred = [] → s.deferred = []

/-- Two states with the same things open. -/
structure Steady (s t : UnitState) : Prop where
  grows : s.Grows t
  scopes : ScopesGrow s.scopes t.scopes
  loops : List.Forall₂ LoopFrame.Grows s.loops.frames t.loops.frames
  frames : List.Forall₂ Frame.Grows s.frames t.frames
  regions : List.Forall₂ Region.Grows s.regions t.regions

end UnitState

theorem Scope.Grows.refl (a : Scope) : a.Grows a :=
  ⟨List.suffix_refl _, List.suffix_refl _, List.suffix_refl _⟩

/-- What a scope gets in two steps it gets in one. -/
theorem Scope.Grows.trans {a b c : Scope} (h₁ : a.Grows b) (h₂ : b.Grows c) : a.Grows c :=
  ⟨h₁.bindings.trans h₂.bindings, h₁.exits.trans h₂.exits, h₁.owned.trans h₂.owned⟩

namespace ScopesGrow

variable {a b c : List Scope}

theorem refl : (a : List Scope) → ScopesGrow a a
  | [] => .nil
  | _ :: _ => .cons (.refl _)

/-- Scopes grow through two steps. -/
theorem trans (h₁ : ScopesGrow a b) (h₂ : ScopesGrow b c) : ScopesGrow a c := by
  cases h₁ with
  | nil => exact h₂
  | cons g₁ =>
    cases h₂ with
    | cons g₂ => exact .cons (g₁.trans g₂)

/-- As many scopes are open as before. -/
theorem length_eq (h : ScopesGrow a b) : b.length = a.length := by
  cases h <;> rfl

/-- Only the innermost one has grown. -/
theorem tail_eq (h : ScopesGrow a b) : b.tail = a.tail := by
  cases h <;> rfl

end ScopesGrow

theorem ClassData.Grows.refl (a : ClassData) : a.Grows a :=
  ⟨fun _ h => h, List.prefix_refl _, List.prefix_refl _⟩

/-- The storage grows through two steps. -/
theorem ClassData.Grows.trans {a b c : ClassData} (h₁ : a.Grows b) (h₂ : b.Grows c) : a.Grows c :=
  ⟨fun v h => h₂.table v (h₁.table v h), h₁.fieldStacks.trans h₂.fieldStacks,
    h₁.statics.trans h₂.statics⟩

theorem Session.Grows.refl (a : Session) : a.Grows a := ⟨rfl, rfl, rfl, .refl _⟩

/-- So does a session. -/
theorem Session.Grows.trans {a b c : Session} (h₁ : a.Grows b) (h₂ : b.Grows c) : a.Grows c :=
  ⟨h₂.config.trans h₁.config, h₂.classes.trans h₁.classes, h₂.functions.trans h₁.functions,
    h₁.classData.trans h₂.classData⟩

/-- The pools of a session may change. -/
theorem Session.Grows.setSlotPool (s : Session) (p : SlotPool) (pool : Pool) :
    s.Grows (s.setSlotPool p pool) := by
  cases pool <;> exact ⟨rfl, rfl, rfl, .refl _⟩

instance : Std.Refl LoopFrame.Grows := ⟨fun _ => ⟨rfl, rfl⟩⟩

/-- A loop gets exits in two steps as in one. -/
theorem LoopFrame.Grows.trans {a b c : LoopFrame} (h₁ : a.Grows b) (h₂ : b.Grows c) : a.Grows c :=
  ⟨h₂.start.trans h₁.start, h₂.scopeDepth.trans h₁.scopeDepth⟩

instance : Std.Refl Frame.Grows := ⟨fun _ => rfl⟩

/-- A frame gets returns in two steps as in one. -/
theorem Frame.Grows.trans {a b c : Frame} (h₁ : a.Grows b) (h₂ : b.Grows c) : a.Grows c := by
  unfold Frame.Grows at *
  rw [h₂, h₁]

instance : Std.Refl Region.Grows := ⟨fun _ => ⟨rfl, List.prefix_refl _⟩⟩

/-- A region gets calls in two steps as in one. -/
theorem Region.Grows.trans {a b c : Region} (h₁ : a.Grows b) (h₂ : b.Grows c) : a.Grows c := by
  refine ⟨?_, h₁.sites.trans h₂.sites⟩
  rw [h₂.same, h₁.same]

/-- What is related row by row in two steps is so in one. -/
theorem forall₂_trans {α : Type} {R : α → α → Prop} (trans : ∀ a b c, R a b → R b c → R a c)
    {a b c : List α} (h₁ : List.Forall₂ R a b) (h₂ : List.Forall₂ R b c) : List.Forall₂ R a c := by
  induction h₁ generalizing c with
  | nil => exact h₂
  | cons h _ ih =>
    cases h₂ with
    | cons h' rest => exact .cons (trans _ _ _ h h') (ih rest)

namespace UnitState

variable {s t u : UnitState}

/-- The list and what is open at a place do not count. -/
theorem Grows.elsewhere (s : UnitState) (list : ActionList) (scopes : List Scope)
    (loops : LoopStack) (frames : List Frame) (regions : List Region) (span : Source.Span) :
    s.Grows { s with list, scopes, loops, frames, regions, span } :=
  ⟨rfl, rfl, .refl _, List.suffix_refl _, Nat.le_refl _, id⟩

theorem Grows.refl (s : UnitState) : s.Grows s := .elsewhere ..

/-- A unit grows through two steps. -/
theorem Grows.trans (h₁ : s.Grows t) (h₂ : t.Grows u) : s.Grows u :=
  ⟨h₂.unit.trans h₁.unit, h₂.pool.trans h₁.pool, h₁.session.trans h₂.session,
    h₁.symbols.trans h₂.symbols, Nat.le_trans h₁.hidden h₂.hidden,
      fun h => h₁.deferred (h₂.deferred h)⟩

/-- Its list has no part in that. -/
theorem Grows.withList (s : UnitState) (list : ActionList) :
    s.Grows { s with list } := .elsewhere ..

/-- Its scopes have none, either. -/
theorem Grows.withScopes (s : UnitState) (scopes : List Scope) : s.Grows { s with scopes } :=
  .elsewhere ..

theorem Steady.refl (s : UnitState) : s.Steady s :=
  ⟨.refl s, .refl _, List.forall₂_refl _, List.forall₂_refl _, List.forall₂_refl _⟩

/-- What is open is kept through two steps. -/
theorem Steady.trans (h₁ : s.Steady t) (h₂ : t.Steady u) : s.Steady u :=
  ⟨h₁.grows.trans h₂.grows, h₁.scopes.trans h₂.scopes,
    forall₂_trans (R := LoopFrame.Grows) (fun _ _ _ => LoopFrame.Grows.trans) h₁.loops h₂.loops,
    forall₂_trans (R := Frame.Grows) (fun _ _ _ => Frame.Grows.trans) h₁.frames h₂.frames,
    forall₂_trans (R := Region.Grows) (fun _ _ _ => Region.Grows.trans) h₁.regions h₂.regions⟩

end UnitState

end SkipCode
