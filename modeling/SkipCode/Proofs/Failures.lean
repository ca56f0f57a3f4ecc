import SkipCode.Proofs.LoopSteps
import SkipCode.Proofs.Layouts
import SkipCode.Proofs.Loans
import SkipCode.Proofs.Skips

/-!
# Failures that are no defect of lowering

Lowering may fail because a pool is exhausted, because a construct has no counterpart, or because of
a mistake in the program: a name that does not resolve or a wrong number of arguments. A failure for
such a reason is *regular*. The look-ups of a program fail regularly (`FailsRegularly`), and what
the steps of lowering write is contained in itself (`contained_set`, `contained_acquire`).
-/

namespace SkipCode

open Source (Expr Span)

/-- Whether a defect lies in the program: a name that does not resolve, or a wrong number of
arguments. All others would lie in the lowering. -/
def Defect.inProgram : Defect → Bool
  | unresolvedName _ | unknownClass _ | unknownFunction _ | noInstanceField .. | noStaticField ..
  | noMethod .. | noConstructor .. | wrongArgumentCount .. | wrongConstructorArgumentCount .. =>
    true
  | _ => false

/-- A failure that is no defect of the lowering. -/
def LowerError.Regular (e : LowerError) : Prop := ∀ d, e.cause = .defect d → d.inProgram = true

namespace LowerError.Regular

theorem unsupported (c : Unsupported) : (LowerError.unsupported c).Regular := nofun

theorem exhausted (pool : Pool) (capacity : UInt32) (owner : String) :
    (LowerError.exhausted pool capacity owner).Regular := nofun

/-- A defect of the program is regular. -/
theorem defect {d : Defect} (h : d.inProgram = true) : (LowerError.defect d).Regular := by
  rintro _ ⟨⟩
  exact h

theorem withSpan {e : LowerError} (h : e.Regular) (span : Span) : (e.withSpan span).Regular := h

end LowerError.Regular

/-! ## Look-ups -/

/-- A value, or a regular failure. -/
def FailsRegularly {α : Type} (x : Except LowerError α) : Prop := ∀ e, x = .error e → e.Regular

namespace FailsRegularly

variable {α β : Type} {x : Except LowerError α} {f : α → Except LowerError β}

theorem ok (a : α) : FailsRegularly (.ok a) := nofun

theorem error {e : LowerError} (h : e.Regular) :
    FailsRegularly (.error e : Except LowerError α) := by
  rintro _ ⟨⟩
  exact h

/-- What fails regularly does so behind what does. -/
theorem bind (hx : FailsRegularly x) (hf : ∀ a, x = .ok a → FailsRegularly (f a)) :
    FailsRegularly (x >>= f) := by
  cases x with
  | error e => exact error (hx e rfl)
  | ok a => exact hf a rfl

/-- A row of results fails regularly when each does. -/
theorem mapM {f : α → Except LowerError β} (xs : List α) (h : ∀ a ∈ xs, FailsRegularly (f a)) :
    FailsRegularly (xs.mapM f) := by
  induction xs with
  | nil => exact ok _
  | cons a rest ih =>
    rw [List.mapM_cons]
    exact (h a (List.mem_cons_self ..)).bind fun _ _ =>
      (ih fun b mem => h b (List.mem_cons_of_mem _ mem)).bind fun _ _ => ok _

variable {t : ClassTable}

/-- A class that is not there is a regular failure. -/
theorem layout (className : String) : FailsRegularly (t.layout className) := by
  unfold ClassTable.layout
  split
  · exact ok _
  · exact error (.defect rfl)

theorem decl (className : String) : FailsRegularly (t.decl className) := by
  unfold ClassTable.decl
  split
  · exact ok _
  · exact error (.defect rfl)

/-- So is a missing class on the way up. -/
theorem walkUp (className : String) : FailsRegularly (t.walkUp className) :=
  (layout className).bind fun _ _ => ok _

theorem allFields (className : String) : FailsRegularly (t.allFields className) :=
  (layout className).bind fun _ _ => (mapM _ fun name _ => (layout name).bind fun _ _ => ok _).bind
    fun _ _ => ok _

/-- So is a missing field. -/
theorem findField (className field : String) : FailsRegularly (t.findField className field) := by
  refine (layout className).bind fun _ _ => (mapM _ fun name _ => layout name).bind fun _ _ => ?_
  split
  · exact ok _
  · exact error (.defect rfl)

theorem findStatic (className field : String) : FailsRegularly (t.findStatic className field) := by
  refine (walkUp className).bind fun _ _ => ?_
  dsimp only
  split
  · exact ok _
  · exact error (.defect rfl)

/-- So is a missing method. -/
theorem findMethod (className method : String) :
    FailsRegularly (t.findMethod className method) := by
  refine (walkUp className).bind fun _ _ => ?_
  dsimp only
  split
  · exact ok _
  · exact error (.defect rfl)

/-- So is a missing constructor. -/
theorem constructor (className : String) (index : Nat) :
    FailsRegularly (t.constructor className index) := by
  refine (decl className).bind fun d _ => ?_
  split
  · exact ok _
  · split
    · exact ok _
    · exact error (.defect rfl)

/-- So is a missing function. -/
theorem findFunction (σ : Session) (name : String) : FailsRegularly (σ.findFunction name) := by
  unfold Session.findFunction
  split
  · exact ok _
  · exact error (.defect rfl)

/-- The fields of a class have declarations, so their initial values are found. -/
theorem fieldInitials (built : t.Built) (className : String) :
    FailsRegularly (Lower.fieldInitials t className) := by
  refine (allFields className).bind fun fields found => mapM _ fun slot mem => ?_
  obtain ⟨chain, hchain, rfl⟩ := built.allFields found
  obtain ⟨f, hf⟩ := ClassTable.Built.fieldDecl hchain mem
  rw [hf]
  exact ok _

/-- So is a variable that other actors do not have. -/
theorem setFor (v : Variable) (name : String) (value : Element) (actor : Option Element)
    (extra : List Element) : FailsRegularly (v.setFor name value actor extra) := by
  cases v with
  | indexed v => exact ok _
  | recursive v => exact ok _
  | reference e => exact error (.unsupported _)

/-- So is a pool without room. -/
theorem allocate (p : SlotPool) (owner : String) : FailsRegularly (p.allocate owner) := by
  unfold SlotPool.allocate
  split
  · exact ok _
  · split
    · exact ok _
    · exact error (.exhausted _ _ _)

end FailsRegularly

/-- The stacks of the initial values of a class are below the end of its layout. -/
theorem fst_lt_of_fieldInitials {t : ClassTable} {className : String}
    {fields : List (Nat × Option Expr)} {layout : ClassLayout} (built : t.Built)
    (h : Lower.fieldInitials t className = .ok fields) (hl : t.layout className = .ok layout)
    {p : Nat × Option Expr} (mem : p ∈ fields) : p.1 < layout.stackEnd := by
  obtain ⟨slots, found, h⟩ := except_bind_ok.1 h
  obtain ⟨chain, hchain, rfl⟩ := built.allFields found
  have all := except_mapM_ok.1 h
  obtain ⟨i, hi, rfl⟩ := List.getElem_of_mem mem
  have hi' := all.length_eq ▸ hi
  obtain ⟨f, -, e⟩ := except_bind_ok.1 (all.get hi' hi)
  have same := congrArg Prod.fst (Except.ok.inj e)
  rw [List.get_eq_getElem, List.get_eq_getElem] at same
  rw [← same]
  exact built.stack_lt hl hchain (List.getElem_mem hi')

/-! ## Actions -/

/-- A write has no skips. -/
theorem straight_set (v : IndexedVar) (value : Element) (actor : Option Element)
    (extra : List Element) : ∀ a ∈ v.set value actor extra, a.Straight := by
  intro a mem
  unfold IndexedVar.set at mem
  split at mem <;>
  · rw [List.mem_singleton.1 mem]
    rfl

/-- Whatever the kind of the variable. -/
theorem straight_setFor {v : Variable} {name : String} {value : Element} {actor : Option Element}
    {extra : List Element} {actions : List Action}
    (h : v.setFor name value actor extra = .ok actions) : ∀ a ∈ actions, a.Straight := by
  cases v with
  | indexed v =>
    cases h
    exact straight_set _ _ _ _
  | recursive v =>
    cases h
    exact straight_set _ _ _ _
  | reference e => cases h

theorem contained_set (v : IndexedVar) (value : Element) (actor : Option Element)
    (extra : List Element) : Contained (v.set value actor extra) := .straight (straight_set _ _ _ _)

theorem contained_push (v : RecursiveVar) (initial : Element) (actor : Option Element) :
    Contained (v.pushActions initial actor) := contained_set _ _ _ _

/-- The stacks of a scope are popped without skips. -/
theorem straight_exits (exits : List RecursiveVar) :
    ∀ a ∈ exits.flatMap fun v => v.popActions none, a.Straight := by
  intro a mem
  obtain ⟨v, -, mem⟩ := List.mem_flatMap.1 mem
  exact straight_set _ _ _ _ a mem

/-- So are all stacks on the way out of a body. -/
theorem straight_pendingPops (s : UnitState) (depth : Nat) :
    ∀ a ∈ Lower.pendingPops s depth, a.Straight := by
  intro a mem
  obtain ⟨scope, -, mem⟩ := List.mem_flatMap.1 mem
  exact straight_exits _ a mem

theorem contained_scopePops (scope : Scope) : Contained (Lower.scopePops scope) :=
  .straight (straight_exits _)

/-- What is flattened out of code without skips has none. -/
theorem contained_flatMap {γ : Type} {f : γ → List Action} (h : ∀ x, ∀ a ∈ f x, a.Straight)
    (l : List γ) : Contained (l.flatMap f) := by
  refine .straight fun a mem => ?_
  obtain ⟨x, -, mem⟩ := List.mem_flatMap.1 mem
  exact h x a mem

/-- A call from inside a region has no skips before the one back. -/
theorem contained_callEntry (region : Region) (receiver : Option Element)
    (arguments : List Element) : Contained (Lower.callEntry region receiver arguments) := by
  refine .append
    (.append (.append (.append (contained_flatMap (fun _ => straight_set _ _ _ _) _) ?_)
    (contained_flatMap (fun _ => straight_set _ _ _ _) _)) ?_) (contained_push _ _ _)
  · split
    · exact contained_set _ _ _ _
    · exact .nothing
  · split
    · exact contained_push _ _ _
    · exact .nothing

/-- A push is one action. -/
theorem length_pushActions (v : RecursiveVar) (initial : Element) (actor : Option Element) :
    (v.pushActions initial actor).length = 1 := by
  unfold RecursiveVar.pushActions IndexedVar.set
  split <;> rfl

/-- The code that takes a handle skips over its own parts only. -/
theorem contained_acquire {config : LowerConfig} {handle : Variable} {table : IndexedVar}
    {first : Option (List Action × Element)} {next : List Action} {full : Element}
    {mark : List Action} (h : Lower.Acquires config handle table first next full mark) :
    Contained (Lower.acquireActions first next full mark) := by
  -- taking the next handle is one write, so the guard before it skips one action
  have one : next.length = 1 := by
    have := h.next
    cases handle with
    | indexed v =>
      cases this
      unfold IndexedVar.set
      split <;> rfl
    | recursive v =>
      cases this
      unfold RecursiveVar.set IndexedVar.set
      split <;> rfl
    | reference e => cases this
  have write : Contained next := .straight (straight_setFor h.next)
  have abort : Contained [.abort] := .straight fun a mem => by
    rw [List.mem_singleton.1 mem]
    rfl
  have last : Contained ([.skipIf full (some 1), .abort] ++ mark) := by
    rw [h.mark]
    exact (abort.guarded full (by decide)).append (contained_set _ _ _ _)
  -- with or without a search for a freed handle
  have start := h.first
  cases first with
  | none => exact write.append last |> cast (by simp [Lower.acquireActions])
  | some p =>
    have tried := (Contained.straight (straight_setFor start.1)).append
      ((write.guarded p.2 (by omega)).append last)
    exact tried |> cast (by simp [Lower.acquireActions])

end SkipCode
