import SkipCode.Proofs.Arrivals
import SkipCode.Proofs.Inlining
import SkipCode.Proofs.Operands
import SkipCode.Proofs.Pieces
import SkipCode.Proofs.Straight

/-!
# What `this` is in an expanded body

A receiver that is a plain read is bound as it is and read again wherever the body says `this`. Any
other receiver is computed once, into a variable.

* `receiver_kept`: either way `this` is throughout the body what the receiver was when the call
  began, unless what is read again is in the storage of classes;
* `Replaced.receiver_replaced`: a receiver in a static field is another instance once the body
  assigns the field.
-/

namespace SkipCode

open Engine (Host Memory)
open Lower
open Source (ClassDecl Expr FieldDecl MethodDecl Program Stmt StmtKind)

section

variable {callee : Callee} {r : Element} {arguments : List Element} {s t u w : UnitState}

/-! ## Binding `this` -/

/-- A name is bound in the innermost scope, which belongs to the body. -/
theorem UnitState.bound?_head {scope : Scope} {rest : List Scope} {name : String} {v : Variable}
    (inside : s.lookupFloor ≤ rest.length) (e : s.scopes = scope :: rest)
    (found : scope.bindings.lookup name = some v) : s.bound? name = some v := by
  rw [UnitState.bound?, UnitState.scopesFrom_cons inside e, List.findSome?_cons, found]

/-- The innermost scope may bind anything under another name. -/
theorem UnitState.Top.bound {N : String → Prop} {P : Location → Prop} {a b : Scope}
    {rest : List Scope} {name : String} {v : Variable} (top : u.Top N P)
    (before : u.scopes = a :: rest) (after : w.scopes = b :: rest)
    (bindings : b.bindings = (name, v) :: a.bindings) (exits : b.exits = a.exits)
      (other : ¬ N name) :
    w.Top N P := by
  have inside := top.head before
  refine UnitState.top_cons ⟨fun x hx => ?_, exits ▸ inside.exits⟩ after
  rw [bindings] at hx
  rcases List.mem_cons.1 hx with rfl | hx
  · exact fun named => absurd named other
  · exact inside.bindings x hx

/-- The variable that a receiver is bound to, and the actions of that. It is the receiver itself, or
a new slot for its value. -/
inductive Receives (r : Element) (u w : UnitState) : Variable → List Action → Prop
  | reference : isStable r = true → w.symbols = u.symbols → Receives r u w (.reference r) []
  | copy {v : IndexedVar} : v.path = [] →
      w.symbols.map Symbol.location = v.location :: u.symbols.map Symbol.location →
      Receives r u w (.indexed v) (v.set r none [])

namespace Receives

variable {v : Variable} {actions : List Action}

/-- What the variable reads are slots that the unit has by then, or what a receiver that is bound as
it is reads. -/
theorem confined {Q : Cell → Prop} (receives : Receives r u w v actions)
    (distinct : (w.symbols.map Symbol.location).Nodup) (stable : isStable r = true → r.Confined Q)
    (new : ∀ cell : Cell, cell.location ∈ w.symbols.map Symbol.location →
      cell.location ∉ u.symbols.map Symbol.location → Q cell) : v.get.Confined Q := by
  cases receives with
  | reference h _ => exact stable h
  | @copy v plain symbols =>
    rw [symbols, List.nodup_cons] at distinct
    refine IndexedVar.confined_get_of_plain plain fun cell place => new cell ?_ (place ▸ distinct.1)
    rw [symbols, place]
    exact List.mem_cons_self

/-- The slot of a result that was noted just before is not what the variable reads. -/
theorem known {result : IndexedVar} (receives : Receives r u w v actions)
    (grown : u.symbols <:+ w.symbols) (distinct : (w.symbols.map Symbol.location).Nodup)
    (noted : u.symbols.map Symbol.location = result.location :: s.symbols.map Symbol.location)
    (stable : isStable r = true → r.Confined fun cell =>
      cell.location ∈ s.symbols.map Symbol.location) :
    v.get.Confined fun cell =>
      cell.location ∈ w.symbols.map Symbol.location ∧ cell.location ≠ result.location := by
  have before : u.symbols.map Symbol.location <:+ w.symbols.map Symbol.location := grown.map _
  have new := distinct.sublist before.sublist
  rw [noted, List.nodup_cons] at new
  refine receives.confined distinct (fun h cell hc => ⟨before.subset ?_, fun same => ?_⟩)
    fun cell mem old => ⟨mem, fun same => old ?_⟩
  · exact noted ▸ List.mem_cons_of_mem _ (stable h cell hc)
  · exact new.1 (same ▸ stable h cell hc)
  · exact noted ▸ same ▸ List.mem_cons_self

/-- Behind the actions the variable is what the receiver was. -/
theorem eval_eq {h : Host} {m m' : Memory} (receives : Receives r u w v actions)
    (done : h.acts m actions = some m') :
    Engine.eval (h.context m') v.get = Engine.eval (h.context m) r := by
  cases receives with
  | reference _ _ =>
    cases done
    rfl
  | copy plain _ => exact IndexedVar.eval_set plain done

end Receives

/-- Outside of recursive bodies `this` is bound in the scope of the body, and nothing else is. -/
theorem run_bindThis_ok (plain : u.inRecursiveFrame = false)
    (floor : u.lookupFloor < u.scopes.length) (bound : run (bindThis r) u = some (.ok (), w))
    (clean : w.deferred = []) :
    ∃ v actions, Extends u actions w ∧ Receives r u w v actions ∧ w.bound? "this" = some v ∧
      ∀ N P R, ¬ N "this" → u.Own N P R → w.Own N P R := by
  obtain ⟨actions, extends'⟩ := Plain.rules.bindThis r u () w bound
  have grown {N P R} (own : u.Own N P R) (top : w.Top N P) : w.Own N P R :=
    own.next extends'.steady top
  have floor' : w.lookupFloor = u.lookupFloor := by
    rw [UnitState.lookupFloor, UnitState.lookupFloor, extends'.frames]
  unfold bindThis at bound
  split at bound
  · next stable =>
    -- a receiver that is stable is bound by reference, and nothing is written
    obtain ⟨scope, rest, e, rfl⟩ := run_modifyScope_ok.1 bound
    rw [e, List.length_cons, Nat.lt_succ_iff] at floor
    obtain rfl : actions = [] := by simpa using extends'.list
    exact ⟨.reference r, [], extends', .reference stable rfl,
      UnitState.bound?_head floor rfl List.lookup_cons_self,
      fun N P R other own => grown own (own.top.bound e rfl rfl rfl other)⟩
  · -- any other is copied to a variable
    obtain ⟨v, declared, -⟩ := run_map_ok.1 bound
    obtain ⟨v, rfl, taken⟩ := run_declare_plain declared plain
    obtain ⟨slot, rfl, takes⟩ := run_declarePlain_ok taken clean
    have list := (takes.extends (.flatMap (fun _ => settled_set _ _ _ _) _) (Nat.le_refl _)).list
    obtain rfl := List.append_cancel_left (extends'.list.symm.trans list)
    obtain ⟨p, scope, rest, -, e, rfl⟩ := takes.taken
    rw [e, List.length_cons, Nat.lt_succ_iff] at floor
    refine ⟨_, _, extends', ?_, UnitState.bound?_head floor rfl List.lookup_cons_self,
      fun N P R other own => grown own (own.top.bound e rfl rfl rfl other)⟩
    rw [Option.toList_some, List.flatMap_singleton]
    exact .copy rfl rfl

/-- A body with a receiver is bound to it first, and then to its arguments. -/
theorem Lower.Emits.receives {params : List String} {entry : List Action}
    (bound : Emits (bindCall (some r) params arguments) s entry () t)
    (plain : s.inRecursiveFrame = false) (floor : s.lookupFloor < s.scopes.length) :
    ∃ v w first second, entry = first ++ second ∧ Extends s first w ∧ Receives r s w v first ∧
      w.bound? "this" = some v ∧ (∀ N P R, ¬ N "this" → s.Own N P R → w.Own N P R) ∧
        Emits (declareParams params arguments) w second () t := by
  obtain ⟨_, w, this, rest⟩ := run_bind_ok.1 bound.run
  obtain ⟨second, others⟩ := Plain.rules.declareParams _ _ w () t rest
  obtain ⟨v, first, binding, receives, found, keeps⟩ :=
    run_bindThis_ok plain floor this (others.deferred bound.clean)
  have list := (binding.trans others).list
  obtain rfl := List.append_cancel_left (bound.extends'.list.symm.trans list)
  exact ⟨v, w, first, second, rfl, binding, receives, found, keeps, rest, others, bound.clean⟩

/-! ## `this` in a body -/

/-- Statements that neither declare nor assign a variable. -/
def Spares (name : String) (kinds : List StmtKind) : Prop :=
  ∀ k ∈ kinds, name ∉ k.declared ∧ k.assigned? ≠ some name

instance (name : String) (kinds : List StmtKind) : Decidable (Spares name kinds) :=
  inferInstanceAs (Decidable (∀ k ∈ kinds, name ∉ k.declared ∧ k.assigned? ≠ some name))

theorem Lowers.this_eq {c : Code} {x : Element} {v : Variable} (h : Lowers (.expr .this) s c [x] t)
    (bound : s.bound? "this" = some v) : x = v.get := by
  cases h with
  | node node _ => cases node
  | this e =>
    cases (Lower.run_lookup_eq.1 e.run).1.symm.trans bound
    rfl

/-- A body that leaves the name alone says `this` for what was bound to it before the parameters. -/
theorem this_bound {params : List String} {body : List Stmt} {actions : List Action}
    {inside s' : UnitState} {v : Variable}
    (declares : Emits (declareParams params arguments) w actions () inside)
    (found : w.bound? "this" = some v) (other : "this" ∉ params)
    (spares : Spares "this" (Source.kindsOf body))
    (comes : (Task.block body).ComesInBody inside (.expr .this) s') :
    s'.bound? "this" = some v := by
  have binds :=
    declares.binds (.declareParams (N := (· ≠ "this")) (fun p hp same => other (same ▸ hp)) _)
  have bound := binds.lookup declares.extends'.steady.frames (not_not.2 rfl) found
  refine comes.bound? (N := (· ≠ "this")) ?_ (not_not.2 rfl) id ?_ bound
  · rintro name hidden rfl
    exact absurd hidden (by decide)
  · exact fun _ k hk name declared same => (spares k hk).1 (same ▸ declared)

/-- Outside of recursive bodies `this` is one element throughout an expanded body, and the body
leaves what that element reads alone. -/
theorem Inlines.this_kept {result : IndexedVar} {entry pops : List Action} {inside : UnitState}
    {body : Code} {past : List Symbol}
    (inlines : Inlines callee (some r) arguments s result entry inside body pops t)
    (outside : s.regions = []) (plain : s.inRecursiveFrame = false) (orderly : t.Orderly past)
    (stable : isStable r = true → r.Confined fun cell =>
      cell.location ∈ s.symbols.map Symbol.location)
    (params : "this" ∉ callee.decl.params)
    (spares : Spares "this" (Source.kindsOf callee.decl.body)) :
    ∃ y, (∀ s' c z s'', (Task.block callee.decl.body).ComesInBody inside (.expr .this) s' →
        Lowers (.expr .this) s' c [z] s'' → z = y) ∧
      ∀ (h : Host) (m m₁ m' : Memory) (σ : List Routine) (d : Code), h.acts m entry = some m₁ →
        Arrives h [] body m₁ σ d m' → Engine.eval (h.context m') y =
          Engine.eval (h.context m) r := by
  cases inlines with
  | @mk s₁ _ _ _ s₂ _ s₃ list e bound h closes =>
    have plain₁ :
      (s₁.opened.entered (s₁.expanded (some callee.key) (some result))).inRecursiveFrame = false :=
      e.extends'.steady.inRecursiveFrame.trans plain
    obtain ⟨v, w, first, second, rfl, binding, receives, found, keeps, params'⟩ :=
      bound.receives plain₁ (Nat.lt_succ_self _)
    -- what `this` reads is noted by then, and is not the slot of the result
    have later : w.symbols <:+ s₃.symbols :=
      (params'.extends'.steady.grows.trans (h.steady.grows.trans closes.grows)).symbols
    have orderly₃ : s₃.Orderly past := orderly.congr rfl rfl rfl
    have distinct : (w.symbols.map Symbol.location).Nodup :=
      (orderly₃.distinct closes.clean).sublist (later.map _).sublist
    have known := receives.known binding.grows.symbols distinct e.temp.2 stable
    -- so the parameters and the body leave it alone
    have grants :=
      orderly₃.grants (P := fun l => v.get.Confined fun cell => cell.location ≠ l) closes.clean
      later fun l read => by_contra fun new => read fun cell hc same =>
        new (same ▸ (known cell hc).1)
    have regions : w.regions = [] := binding.regions.trans (e.extends'.regions.trans outside)
    have assigns : Assigns (· ≠ "this") (Source.kindsOf callee.decl.body) :=
      fun k hk name assigned same => (spares k hk).2 (same ▸ assigned)
    obtain ⟨secondIn, bodyIn, -⟩ := h.bodyIn closes params' (Stays.rules.declareParams _ _) grants
      ⟨List.suffix_refl _, fun region mem => by simp [regions] at mem⟩ assigns
      (keeps (· ≠ "this") _ (some result) (not_not.2 rfl)
        (.entered rfl .empty rfl (Nat.le_refl _) rfl rfl))
    have writes := bodyIn.writesIn fun v h => by
      cases h
      exact fun cell hc => (known cell hc).2
    refine ⟨v.get, fun s' c z s'' comes lowers =>
      lowers.this_eq (this_bound params' found params spares comes),
        fun h m m₁ m' σ d entered arrives => ?_⟩
    have apart : v.get.Confined fun cell => ¬ v.get.Confined fun other =>
      other.location ≠ cell.location :=
      fun cell hc spared => spared cell hc rfl
    obtain ⟨m₂, start, rest⟩ := acts_append entered
    rw [arrives.eval_kept writes nofun apart,
      (Exec.acts (ρ := []) rest).eval_kept secondIn nofun apart,
      receives.eval_eq start]

/-- Wherever the body of a call that is expanded in place says `this`, it is one element, and
whenever an execution of the body comes anywhere the element is what the receiver was when the call
began. A receiver that is bound as it is must not read the storage of classes for that, and the body
must leave the name alone. -/
theorem receiver_kept {depth : Nat} {object : Expr} {operands : List Expr} {x : Element}
    {past : List Symbol} (outside : s.regions = []) (plain : s.inRecursiveFrame = false)
    (orderly : s.Orderly past) (placed : s.Confined fun cell => cell.location ∈ u.places)
    (lowered : run (lowerExprs (expander depth) (object :: operands)) s =
      some (.ok (r :: arguments), u))
    (inlined : callee.decl.recursive = false)
    (own : isStable r = true → r.Confined fun cell => cell.location ∉ u.session.classData.locations)
    (params : "this" ∉ callee.decl.params)
    (spares : Spares "this" (Source.kindsOf callee.decl.body))
    (called : run (expandCall (expander depth) callee (some r) arguments) u = some (.ok x, t))
    (clean : t.deferred = []) :
    ∃ result entry inside body pops, Inlines callee
      (some r) arguments u result entry inside body pops t ∧
      Laid u (inlineCode entry body pops) t ∧
      ∃ y, (∀ s' c z s'', (Task.block callee.decl.body).ComesInBody inside (.expr .this) s' →
          Lowers (.expr .this) s' c [z] s'' → z = y) ∧
        ∀ (h : Host) (m m₁ m' : Memory) (σ : List Routine) (d : Code), h.acts m entry = some m₁ →
          Arrives h [] body m₁ σ d m' → Engine.eval (h.context m') y =
            Engine.eval (h.context m) r := by
  have bodies := yields_expander depth
  obtain ⟨_, derived, -⟩ := yields_call bodies callee (some r) arguments u x t called clean
  obtain ⟨_, operands, -⟩ := yields_exprs bodies _ s _ u lowered (derived.clean clean)
  have composed := Expander.Composed.expander depth
  have orderly' : t.Orderly past :=
    (composed.expandCall callee (some r) arguments).preserves _ _ _ called
    ((Lower.Composed.exprs composed _).preserves _ _ _ lowered orderly)
  -- lowering the receiver and the arguments leaves the same things open
  have outside' : u.regions = [] := by
    have same := operands.steady.regions
    rw [outside] at same
    exact List.forall₂_nil_left_iff.1 same
  have plain' : u.inRecursiveFrame = false := operands.steady.inRecursiveFrame.trans plain
  obtain ⟨result, entry, inside, body, pops, inlines, -, -, laid⟩ :=
    inlines_of_run inlined plain' called clean
  have reads := lowerExprs_placed placed lowered r List.mem_cons_self
  exact ⟨result, entry, inside, body, pops, inlines, laid,
    inlines.this_kept outside' plain' orderly'
    (fun stable cell hc => (List.mem_append.1 (reads cell hc)).resolve_right (own stable cell hc))
    params spares⟩

end

namespace Replaced

/-- `swap(other)` assigns the static field `A.current` and returns the field `v` of its instance. -/
def swap : MethodDecl :=
  .named "swap" ["other"]
    [.ofKind (.assign (.staticField "A" "current") [] .set (.var "other")),
      .ofKind (.return (some (.field .this "A" "v")))]

def program : Program :=
  ⟨[.named "A" none [.static "current" none, .instance "v" none] [] [swap]], [], []⟩

def callee : Callee := ⟨"A.swap", swap, true⟩

/-- What the receiver, the argument and the call become where `swap` is called on a new instance. -/
def called? (σ : Session) : Option (Element × List Element × UnitState × Element × UnitState) :=
  match run (lowerExprs (expander (expansionBound σ)) [.new "A" 0 [], .new "A" 0 []])
    (σ.start "rule" .global) with
  | some (.ok (r :: arguments), u) =>
    match run (expandCall (expander (expansionBound σ)) callee (some r) arguments) u with
    | some (.ok x, t) => some (r, arguments, u, x, t)
    | _ => none
  | _ => none

theorem called?_some {σ : Session} {r x : Element} {arguments : List Element} {u t : UnitState}
    (h : called? σ = some (r, arguments, u, x, t)) :
    run (lowerExprs (expander (expansionBound σ)) [.new "A" 0 [], .new "A" 0 []])
      (σ.start "rule" .global) =
      some (.ok (r :: arguments), u) ∧
      run (expandCall (expander (expansionBound σ)) callee (some r) arguments) u =
        some (.ok x, t) := by
  unfold called? at h
  split at h
  · next operands =>
    split at h
    · next call =>
      cases h
      exact ⟨operands, call⟩
    · cases h
  · cases h

/-- On a new instance `this` is the handle of the instance, also behind the assignment. -/
theorem receiver_kept_new : ∃ σ r arguments u x t, Session.new .default program = .ok σ ∧
    called? σ = some (r, arguments, u, x, t) ∧ r.cells ≠ [] ∧
      ∃ result entry inside body pops, Inlines callee
        (some r) arguments u result entry inside body pops t ∧
        ∃ y, (∀ s' c z s'', (Task.block swap.body).ComesInBody inside (.expr .this) s' →
            Lowers (.expr .this) s' c [z] s'' → z = y) ∧
          ∀ (h : Host) (m m₁ m' : Memory) (ρ : List Routine) (d : Code), h.acts m entry = some m₁ →
            Arrives h [] body m₁ ρ d m' → Engine.eval (h.context m') y =
              Engine.eval (h.context m) r := by
  obtain ⟨σ, new, orderly, computed⟩ := exists_start .default program "rule" .global
    (fun σ => (called? σ).any fun p => p.2.2.2.2.deferred.isEmpty && !p.1.cells.isEmpty &&
      p.1.cells.all fun cell => !p.2.2.1.session.classData.locations.contains cell.location)
    rfl (by decide +kernel)
  obtain ⟨⟨r, arguments, u, x, t⟩, found, computed⟩ := (Option.any_eq_true _ _).1 computed
  simp only [Bool.and_eq_true, List.isEmpty_iff, List.all_eq_true, Bool.not_eq_true',
    List.contains_eq_mem,
    decide_eq_false_iff_not] at computed
  obtain ⟨⟨clean, cells⟩, apart⟩ := computed
  -- what was computed discharges the hypotheses of the general theorem
  obtain ⟨operands, call⟩ := called?_some found
  have history : History .default program [] σ := .start new
  obtain ⟨result, entry, inside, body, pops, inlines, -, kept⟩ := receiver_kept rfl rfl orderly
    (σ.start_confined history.whole (fun _ _ _ known => known) _ _) operands rfl (fun _ => apart)
    (by decide) (by decide) call clean
  exact ⟨σ, r, arguments, u, x, t, new, found, fun e => by simp [e] at cells,
    result, entry, inside, body, pops, inlines, kept⟩

/-- A rule that calls `swap` on the instance in `A.current`, of which `v` is 1, with one of which it
is 2. -/
def rule : List Stmt :=
  [.define "a" (some (.new "A" 0 [])), .define "b" (some (.new "A" 0 [])),
    .ofKind (.assign (.field (.var "a") "A" "v") [] .set (.number (.ofNat 1))),
    .ofKind (.assign (.field (.var "b") "A" "v") [] .set (.number (.ofNat 2))),
    .ofKind (.assign (.staticField "A" "current") [] .set (.var "a")),
    .define "out" (some (.call (some "A") "swap" (some (.staticField "A" "current")) [.var "b"]))]

/-- Whether the rule ends with 2 as the result of the call. -/
def replaced (output : UnitOutput) (e : Engine) : Bool :=
  output.symbols.any fun sym => sym.name == "out" && decide
    ((e.global sym.slot).asNumber = .ofNat 2)

/-- When the call begins the receiver is the first instance, of which `v` is 1. The call gives 2,
since the `this` behind the assignment is what `A.current` is by then. -/
theorem receiver_replaced : ∃ σ output list e,
    FirstRun .default program rule (.new .default) σ output list e ∧ output.deferred = [] ∧
      replaced output e = true := by
  obtain ⟨σ, output, list, e, first, h⟩ := exists_firstRun .default program rule (.new .default)
    (fun output _ e => output.deferred.isEmpty && replaced output e) (by decide +kernel)
  simp only [Bool.and_eq_true, List.isEmpty_iff] at h
  exact ⟨σ, output, list, e, first, h⟩

end Replaced

end SkipCode
