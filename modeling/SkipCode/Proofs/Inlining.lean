import SkipCode.Proofs.Writes

/-!
# Calls that are expanded in place

The body of a method that is not recursive is lowered again for each of its calls, with a slot for
its result. Inside a scope of its own the body is bound to the receiver and the arguments.

* `inlines_of_run`: outside of recursive bodies the code of the call is that of the body, and its
  result stays in the slot;
* `Lowers.bodyIn`: what the body is bound to tells where it writes to.
-/

namespace SkipCode

open Lower
open Source (Stmt)

/-- The code of a call whose body is expanded in place. -/
def inlineCode (entry : List Action) (body : Code) (pops : List Action) : Code :=
  .seq (.frame (.seq (.acts entry) (.seq body (.acts pops)))) (.acts [])

/-- The lowering of a body in the place of a call. The slot of the result is taken first. Inside a
scope of its own the body is bound to the receiver and the arguments, and its statements are lowered
behind that. -/
inductive Inlines (callee : Callee) (receiver : Option Element) (arguments : List Element)
    (s : UnitState) :
    IndexedVar → List Action → UnitState → Code → List Action → UnitState → Prop
  | mk {result s₁ entry inside body s₂ pops s₃} (list) : Emits (temp "ret") s [] result s₁ →
      Emits (bindCall receiver callee.decl.params arguments)
        (s₁.opened.entered (s₁.expanded (some callee.key) (some result))) entry () inside →
      Lowers (.block callee.decl.body) inside body [] s₂ → Closes s₂ pops s₃ →
      Inlines callee receiver arguments s result entry inside body pops (s₃.left list)

section

variable {callee : Callee} {receiver : Option Element} {arguments : List Element}
  {s inside t : UnitState} {result : IndexedVar} {entry pops : List Action} {body : Code}
  {x : Element}

theorem UnitState.Steady.inRecursiveFrame (steady : s.Steady t) :
    t.inRecursiveFrame = s.inRecursiveFrame := by
  have frames := steady.frames
  unfold UnitState.inRecursiveFrame
  generalize s.frames = before at frames
  generalize t.frames = behind at frames
  cases frames with
  | nil => rfl
  | cons grown _ => rw [grown]

/-- A call of a method that is not recursive is expanded in place. -/
theorem inlines_of_run {depth : Nat} (inlined : callee.decl.recursive = false)
    (plain : s.inRecursiveFrame = false)
    (lowered : run (expandCall (expander depth) callee receiver arguments) s = some (.ok x, t))
    (clean : t.deferred = []) :
    ∃ result entry inside body pops, Inlines callee receiver arguments s result entry inside body
      pops t ∧
      x = result.get none ∧ Lowers (.call callee receiver arguments) s
        (inlineCode entry body pops) [x] t ∧
        Laid s (inlineCode entry body pops) t := by
  obtain ⟨c, derived, laid⟩ :=
    yields_call (yields_expander depth) callee receiver arguments s x t lowered clean
  have whole := derived
  cases derived with
  | reenter _ _ recursive | region _ _ _ recursive => simp [inlined] at recursive
  | inline _ e h kept =>
    have plain' := (e.extends'.steady.trans h.steady).inRecursiveFrame.trans plain
    cases h with
    | body list bound h closes =>
      -- outside of recursive bodies the result stays in its slot
      have keep := kept.run
      unfold materialize at keep
      obtain ⟨_, _, ⟨⟩, keep⟩ := run_bind_ok.1 keep
      rw [if_neg (by rw [plain']; nofun)] at keep
      cases keep
      obtain rfl := List.append_cancel_left (kept.extends'.list.symm.trans (List.append_nil _).symm)
      exact ⟨_, _, _, _, _, .mk list e bound h closes, rfl, whole, laid⟩

/-- A body whose bindings are places of a kind writes to such places, but for its result. -/
theorem Lowers.bodyIn {α : Type} {m : Lower α} {r : α} {P : Location → Prop} {N : String → Prop}
    {R : Option IndexedVar} {base : List Symbol} {u s₂ s₃ : UnitState} {statements : List Stmt}
    {actions : List Action} (h : Lowers (.block statements) inside body [] s₂)
    (closes : Closes s₂ pops s₃) (e : Emits m u actions r inside) (stays : Stays P base m)
    (grants : s₃.Grants P base) (behind : u.Behind P base)
    (assigns : Assigns N (Source.kindsOf statements)) (own : u.Own N P R) :
    ActsIn P actions ∧ body.ReturnsIn P R ∧ ActsIn P pops := by
  have grants₂ := grants.of_grows closes.grows
  have bound := e.held R stays (grants₂.of_grows h.steady.grows) behind
  have own₁ := own.next e.extends'.steady (bound.top N own.top)
  have held := h.stays R grants₂ (behind.next e.extends'.steady) (.within rfl assigns own₁)
  exact ⟨bound.code, held.code, closes.acts_in (held.top N own₁.top)⟩

/-! ## Temporaries -/

/-- A temporary is a slot of its own, which is noted. -/
theorem Lower.Emits.temp {what : String} {v : IndexedVar} (e : Emits (temp what) s [] v t) :
    v.path = [] ∧ t.symbols.map Symbol.location = v.location :: s.symbols.map Symbol.location := by
  obtain ⟨slot, rfl, takes⟩ := run_temp_ok e.run e.clean
  obtain ⟨p, scope, rest, -, -, rfl⟩ := takes.taken
  exact ⟨rfl, rfl⟩

theorem IndexedVar.confined_get_of_plain {v : IndexedVar} {Q : Cell → Prop} (plain : v.path = [])
    (place : ∀ cell : Cell, cell.location = v.location → Q cell) : (v.get none).Confined Q := by
  refine IndexedVar.Confined.get_none ⟨place _ (Location.location_cell _), ?_⟩
  rw [plain]
  exact .nil

end

end SkipCode
