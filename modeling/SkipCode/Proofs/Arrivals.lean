import SkipCode.Proofs.Writes

/-!
# What an execution comes to

`Exec` relates the memory before a tree to the memory behind it. `Arrives` is about what lies
between: an execution, which need not end, comes to a part of its tree with a memory.

* `Arrives.keeps`: on the way to any part a tree writes only where all of it does;
* `Exec.returned`: a tree that ends with a return came to one, and its result is what that return
  leaves.
-/

namespace SkipCode

open Engine (Host Memory StoreKey)
open Lower

/-- With a memory and regions that are open, a tree comes to a part of itself, or of a region that
it calls back into, with another memory and the regions that are open there. -/
inductive Arrives (h : Host) : List Routine → Code → Memory → List Routine → Code → Memory → Prop
  | here {ρ c m} : Arrives h ρ c m ρ c m
  | acts {ρ done rest m m'} : h.acts m done = some m' →
      Arrives h ρ (.acts (done ++ rest)) m ρ (.acts rest) m'
  | first {ρ a b m σ d m'} : Arrives h ρ a m σ d m' → Arrives h ρ (.seq a b) m σ d m'
  | second {ρ a b m m₁ σ d m'} : Exec h ρ a m .next m₁ → Arrives h ρ b m₁ σ d m' →
      Arrives h ρ (.seq a b) m σ d m'
  | arm {ρ exit body m σ d m'} : h.guard m exit = some false → Arrives h ρ body m σ d m' →
      Arrives h ρ (.arm exit body) m σ d m'
  | other {ρ exit body other m σ d m'} : h.guard m exit = some true → Arrives h ρ other m σ d m' →
      Arrives h ρ (.choice exit body other) m σ d m'
  | choice {ρ exit body other m σ d m'} : h.guard m exit = some false → Arrives h ρ body m σ d m' →
      Arrives h ρ (.choice exit body other) m σ d m'
  -- in the first round of a loop, in a later one, or behind the last one
  | pass {ρ pass step tail m σ d m'} : Arrives h ρ pass m σ d m' →
      Arrives h ρ (.loop pass step tail) m σ d m'
  | step {ρ pass step tail m x m₁ σ d m'} : Exec h ρ pass m x m₁ → x = .next ∨ x = .again 0 →
      Arrives h ρ step m₁ σ d m' → Arrives h ρ (.loop pass step tail) m σ d m'
  | round {ρ pass step tail m x m₁ m₂ σ d m'} : Exec h ρ pass m x m₁ → x = .next ∨ x = .again 0 →
      Exec h ρ step m₁ .next m₂ → Arrives h ρ (.loop pass step tail) m₂ σ d m' →
      Arrives h ρ (.loop pass step tail) m σ d m'
  | tail {ρ pass step tail m m₁ σ d m'} : Exec h ρ pass m .ended m₁ →
      Arrives h ρ (.acts tail) m₁ σ d m' → Arrives h ρ (.loop pass step tail) m σ d m'
  | frame {ρ body m σ d m'} : Arrives h ρ body m σ d m' → Arrives h ρ (.frame body) m σ d m'
  | entry {ρ entry body finish address m σ d m'} : Arrives h ρ (.acts entry) m σ d m' →
      Arrives h ρ (.region entry body finish address) m σ d m'
  | region {ρ entry body finish address m m₁ σ d m'} : h.acts m entry = some m₁ →
      Arrives h (⟨body, finish, address⟩ :: ρ) body m₁ σ d m' →
      Arrives h ρ (.region entry body finish address) m σ d m'
  | finish {ρ entry body finish address m m₁ x m₂ σ d m'} : h.acts m entry = some m₁ →
      Exec h (⟨body, finish, address⟩ :: ρ) body m₁ x m₂ → x = .next ∨ x = .ret →
      Arrives h ρ (.acts finish) m₂ σ d m' → Arrives h ρ
        (.region entry body finish address) m σ d m'
  -- a call back into a region: its entry, the body of the region, and what ends it
  | call {ρ index number entry m σ d m'} : Arrives h ρ (.acts entry) m σ d m' →
      Arrives h ρ (.reenter index number entry) m σ d m'
  | called {ρ index number entry routine m m₁ σ d m'} : ρ[index]? = some routine →
      h.acts m entry = some m₁ → Arrives h (ρ.drop index) routine.body m₁ σ d m' →
      Arrives h ρ (.reenter index number entry) m σ d m'
  | answered {ρ index number entry routine m m₁ x m₂ σ d m'} : ρ[index]? = some routine →
      h.acts m entry = some m₁ → Exec h (ρ.drop index) routine.body m₁ x m₂ → x = .next ∨ x = .ret →
      Arrives h ρ (.acts routine.finish) m₂ σ d m' →
        Arrives h ρ (.reenter index number entry) m σ d m'

section

variable {P : Location → Prop} {h : Host} {ρ σ : List Routine} {c d : Code} {m m' : Memory}
  {key : StoreKey} {slot : UInt32}

/-- Wherever a tree comes to, what it does not write to is what it was. -/
theorem Arrives.keeps (arrives : Arrives h ρ c m σ d m') (inside : c.WritesIn P)
    (routines : RoutinesIn P ρ) (other : ¬ P ⟨key.pool, slot⟩) :
    m'.get key slot = m.get key slot := by
  -- what lies before the place is an execution or the start of one, so the way there is cut at
  -- these
  induction arrives with
  | here => rfl
  | acts done =>
    exact acts_keep (fun st slot index value mem =>
      inside st slot index value (List.mem_append_left _ mem))
      other done
  | first _ ih => exact ih inside.1 routines
  | second before _ ih => exact (ih inside.2 routines).trans (before.keeps inside.1 routines other)
  | arm _ _ ih => exact ih inside routines
  | other _ _ ih => exact ih inside.2 routines
  | choice _ _ ih => exact ih inside.1 routines
  | pass _ ih => exact ih inside.1 routines
  | step pass _ _ ih => exact (ih inside.2.1 routines).trans (pass.keeps inside.1 routines other)
  | round pass _ step _ ih =>
    exact (ih inside routines).trans
      ((step.keeps inside.2.1 routines other).trans (pass.keeps inside.1 routines other))
  | tail pass _ ih => exact (ih inside.2.2 routines).trans (pass.keeps inside.1 routines other)
  | frame _ ih => exact ih inside routines
  | entry _ ih => exact ih inside.1 routines
  | region entered _ ih =>
    obtain ⟨entry, body, finish⟩ := inside
    exact (ih body (List.forall_mem_cons.2 ⟨⟨body, finish⟩, routines⟩)).trans
      (acts_keep entry other entered)
  | finish entered exec _ _ ih =>
    obtain ⟨entry, body, finish⟩ := inside
    exact (ih finish routines).trans
      ((exec.keeps body (List.forall_mem_cons.2 ⟨⟨body, finish⟩, routines⟩) other).trans
        (acts_keep entry other entered))
  | call _ ih => exact ih inside routines
  | called found entered _ ih =>
    obtain ⟨body, -⟩ := routines _ (List.mem_of_getElem? found)
    exact (ih body fun r hr => routines r (List.mem_of_mem_drop hr)).trans
      (acts_keep inside other entered)
  | answered found entered exec _ _ ih =>
    obtain ⟨body, finish⟩ := routines _ (List.mem_of_getElem? found)
    exact (ih finish routines).trans
      ((exec.keeps body (fun r hr => routines r (List.mem_of_mem_drop hr)) other).trans
        (acts_keep inside other entered))

/-- So is the value of an element that mentions nothing else. -/
theorem Arrives.eval_kept (arrives : Arrives h ρ c m σ d m') (inside : c.WritesIn P)
    (routines : RoutinesIn P ρ) {e : Element} (apart : e.Confined fun cell => ¬ P cell.location) :
    Engine.eval (h.context m') e = Engine.eval (h.context m) e := by
  refine Engine.eval_agrees (c := h.context m) (fun cell key other found => ?_) e apart
  refine arrives.keeps inside routines ?_
  rw [Engine.storeKey_pool found]
  exact other

end

/-! ## Results -/

/-- What a tree does not write to has the value that it had. -/
theorem Exec.value_kept {P : Location → Prop} {h : Host} {ρ : List Routine} {c : Code}
    {m m' : Memory} {x : Exit} {l : Location} (exec : Exec h ρ c m x m') (inside : c.WritesIn P)
    (routines : RoutinesIn P ρ) (other : ¬ P l) : h.value m' l = h.value m l :=
  exec.keeps inside routines (by rwa [h.pool_key])

/-- A variable that is a whole slot is read as what the slot holds. -/
theorem IndexedVar.eval_get_congr {h : Host} {m m' : Memory} {v : IndexedVar} (plain : v.path = [])
    (same : h.value m' v.location = h.value m v.location) :
    Engine.eval (h.context m') (v.get none) = Engine.eval (h.context m) (v.get none) := by
  rw [IndexedVar.get, plain]
  change Engine.eval (h.context m') (v.location.root none) =
    Engine.eval (h.context m) (v.location.root none)
  have checked : (h.context m').checkSlot (h.key v.location.pool) v.location.slot =
      (h.context m).checkSlot (h.key v.location.pool) v.location.slot := rfl
  simp only [Location.root, Engine.eval, Location.storeKey_eq, Engine.Context.read, Bind.bind,
    Except.bind,
    checked]
  cases (h.context m).checkSlot (h.key v.location.pool) v.location.slot with
  | error f => rfl
  | ok u => exact congrArg Except.ok same

/-- What is written to a whole slot is read from it. -/
theorem IndexedVar.eval_set {h : Host} {m m' : Memory} {v : IndexedVar} {value : Element}
    (plain : v.path = []) (done : h.acts m (v.set value none []) = some m') :
    Engine.eval (h.context m') (v.get none) = Engine.eval (h.context m) value := by
  rw [IndexedVar.set, plain] at done
  obtain ⟨m₁, one, rest⟩ := Option.bind_eq_some_iff.1 done
  cases rest
  obtain ⟨key, w, found, value', inside, -, rfl⟩ := Host.write_none_iff.1 one
  cases (Location.storeKey_eq h m v.location).symm.trans found
  rw [IndexedVar.get, plain, value']
  refine (Location.eval_root (l := v.location) (Host.holds_of_checkSlot inside)).trans
    (congrArg _ ?_)
  rw [Host.value, Memory.get_set]
  exact if_pos ⟨rfl, rfl⟩

/-- What becomes of a place that a tree writes to as its result only. A tree that ends with a return
has come to one that writes to the result and goes on elsewhere. Until then the place is as it was,
unless calls back into open regions write to it. -/
structure Leaves (P : Location → Prop) (result : Option IndexedVar) (h : Host) (ρ : List Routine)
    (c : Code) (m : Memory) (x : Exit) (m' : Memory) (l : Location) : Prop where
  kept : x ≠ .ret → RoutinesIn P ρ → h.value m' l = h.value m l
  returned : x = .ret → ∃ values others m₁,
    Arrives h ρ c m ρ (.seq (.acts (storeResult result values ++ others)) .ret) m₁ ∧
      (RoutinesIn P ρ → h.value m₁ l = h.value m l) ∧ ActsIn P others ∧
        h.acts m₁ (storeResult result values ++ others) = some m'

section

variable {P : Location → Prop} {result : Option IndexedVar} {h : Host} {ρ : List Routine}
  {a c : Code} {m m₁ m' : Memory} {x y : Exit} {l : Location}

/-- Behind code that keeps the place. -/
theorem Leaves.after (rest : Leaves P result h ρ a m₁ x m' l)
    (kept : RoutinesIn P ρ → h.value m₁ l = h.value m l)
    (lift : ∀ d m₂, Arrives h ρ a m₁ ρ d m₂ → Arrives h ρ c m ρ d m₂) :
    Leaves P result h ρ c m x m' l := by
  refine ⟨fun other routines => (rest.kept other routines).trans (kept routines), fun ret => ?_⟩
  obtain ⟨values, others, m₂, arrives, same, inside, done⟩ := rest.returned ret
  exact ⟨values, others, m₂, lift _ _ arrives,
    fun routines => (same routines).trans (kept routines), inside,
    done⟩

theorem Leaves.ends (leaves : Leaves P result h ρ c m x m' l) (same : x = .ret ↔ y = .ret) :
    Leaves P result h ρ c m y m' l :=
  ⟨fun other => leaves.kept (mt same.1 other), fun ret => leaves.returned (same.2 ret)⟩

theorem Leaves.of_kept (kept : RoutinesIn P ρ → h.value m' l = h.value m l) (other : x ≠ .ret) :
    Leaves P result h ρ c m x m' l :=
  ⟨fun _ => kept, fun ret => absurd ret other⟩

theorem Exit.beyond_eq_ret (beyond : x.beyond = some y) : x = .ret ↔ y = .ret := by
  cases x with
  | leave k | again k =>
    cases k with
    | zero => cases beyond
    | succ k =>
      cases beyond
      simp
  | ret =>
    cases beyond
    exact Iff.rfl
  | _ => cases beyond

/-- A tree leaves the place of its result alone until it returns. -/
theorem Exec.returned (exec : Exec h ρ c m x m') (inside : c.ReturnsIn P result) (other : ¬ P l) :
    Leaves P result h ρ c m x m' l := by
  induction exec with
  | acts done =>
    exact .of_kept (fun routines => (Exec.acts done).value_kept inside routines other) nofun
  | seq first second ih₁ ih₂ =>
    rcases inside with ⟨inside₁, inside₂⟩ | ⟨values, others, rfl, rfl, inside⟩
    · exact (ih₂ inside₂).after ((ih₁ inside₁).kept nofun) fun _ _ => .second first
    · cases first with
      | acts done =>
        cases second
        exact ⟨fun other => absurd rfl other,
          fun _ => ⟨values, others, _, .here, fun _ => rfl, inside, done⟩⟩
  | seq_exit first next ih =>
    rcases inside with ⟨inside, -⟩ | ⟨values, others, rfl, rfl, -⟩
    · exact (ih inside).after (fun _ => rfl) fun _ _ => .first
    · cases first
      exact absurd rfl next
  | arm_skip _ => exact .of_kept (fun _ => rfl) nofun
  | arm_body passes _ ih => exact (ih inside).after (fun _ => rfl) fun _ _ => .arm passes
  | choice_other fails _ ih => exact (ih inside.2).after (fun _ => rfl) fun _ _ => .other fails
  | choice_body passes _ ih => exact (ih inside.1).after (fun _ => rfl) fun _ _ => .choice passes
  | loop_over _ done ih =>
    refine .of_kept (fun routines => ?_) nofun
    have tail := (Exec.acts done).value_kept (c := .acts _) inside.2.2 routines other
    exact tail.trans ((ih inside.1).kept nofun routines)
  | loop_leave _ ih => exact .of_kept ((ih inside.1).kept nofun) nofun
  | loop_beyond pass beyond ih =>
    exact ((ih inside.1).ends (Exit.beyond_eq_ret beyond)).after (fun _ => rfl) fun _ _ => .pass
  | loop_step pass next _ _ ih₁ ih₂ =>
    have kept := (ih₁ inside.1).kept (by rcases next with rfl | rfl <;> nofun)
    exact (ih₂ inside.2.1).after kept fun _ _ => .step pass next
  | loop_round pass next step _ ih₁ ih₂ ih₃ =>
    have kept := (ih₁ inside.1).kept (by rcases next with rfl | rfl <;> nofun)
    exact (ih₃ inside).after (fun routines =>
      ((ih₂ inside.2.1).kept nofun routines).trans (kept routines))
      fun _ _ => .round pass next step
  | test_over _ | test_next _ | leave | again => exact .of_kept (fun _ => rfl) nofun
  | ret => exact inside.elim
  -- what is called ends with a return of its own
  | frame body ends _ =>
    exact .of_kept (fun routines => body.value_kept inside routines other) nofun
  | region entered body ends done address _ =>
    refine .of_kept (fun routines => ?_) nofun
    exact Exec.value_kept (.region entered body ends done address) inside routines other
  | reenter found entered body ends done address _ =>
    refine .of_kept (fun routines => ?_) nofun
    exact Exec.value_kept (.reenter found entered body ends done address) inside routines other

end

end SkipCode
