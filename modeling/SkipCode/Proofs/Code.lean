import SkipCode.Proofs.Host
import SkipCode.Storage.Variable

/-!
# Structured code

A finished list is flat, and its skips say nothing of what they are for. `Code` is the same list as
the tree it was written from: conditionals, loops, bodies with their returns, and regions with the
calls that lead back into them.

* `Lays`: where the parts of a tree stand in a list, with every skip leading where its part says;
* `Exec`: what a tree does, by itself and without positions.

That a list does what its tree does is in `Proofs.Adequacy`.
-/

namespace SkipCode

open Engine (Host Memory)

/-- How a piece of code ends. -/
inductive Exit where
  /-- At its end. -/
  | next
  /-- At the test of the innermost loop, which failed. -/
  | ended
  /-- On the way out of the loop `k` loops out. -/
  | leave (k : Nat)
  /-- On the way to the next round of the loop `k` loops out. -/
  | again (k : Nat)
  /-- On the way to the end of its body. -/
  | ret
deriving DecidableEq

/-- How a loop ends when its pass does not let it go on, stop or start again. -/
def Exit.beyond : Exit → Option Exit
  | leave (k + 1) => some (leave k)
  | again (k + 1) => some (again k)
  | ret => some ret
  | _ => none

/-- Code as a tree. -/
inductive Code where
  /-- Writes, one after the other. -/
  | acts (actions : List Action)
  | abort
  | seq (first second : Code)
  /-- A body that is skipped when `exit` holds. -/
  | arm (exit : Element) (body : Code)
  /-- A body, or when `exit` holds another one. -/
  | choice (exit : Element) (body other : Code)
  /-- Passes until a test fails, with a step between them and a tail behind the last one. -/
  | loop (pass step : Code) (tail : List Action)
  /-- Ends the innermost loop when `exit` holds. -/
  | test (exit : Element)
  | leave (k : Nat)
  | again (k : Nat)
  | ret
  /-- A body; its returns lead to its end. -/
  | frame (body : Code)
  /-- A body that calls inside it lead back into. Behind its finish it goes on where the address
  says, one of `sites` places or the end. -/
  | region (entry : List Action) (body : Code) (finish : List Action) (address : Element)
  /-- A call back into the region `index` regions out. -/
  | reenter (index number : Nat) (entry : List Action)

/-- What a call back into a region runs. -/
structure Routine where
  body : Code
  finish : List Action
  address : Element

/-- What the outermost call of a region leaves as its return address. -/
def outermost : Value := .number (.ofInt (-1))

/-- What the call of a number leaves as its return address. -/
def callNumber (number : Nat) : Value := .number (.ofNat number)

/-! ## What a tree does -/

/-- The effect of a tree on the memory and how it ends; `ρ` are the regions that are open, innermost
first. -/
inductive Exec (h : Host) : List Routine → Code → Memory → Exit → Memory → Prop
  | acts {ρ actions m m'} : h.acts m actions = some m' → Exec h ρ (.acts actions) m .next m'
  | seq {ρ a b m m' m'' x} : Exec h ρ a m .next m' → Exec h ρ b m' x m'' →
      Exec h ρ (.seq a b) m x m''
  | seq_exit {ρ a b m m' x} : Exec h ρ a m x m' → x ≠ .next → Exec h ρ (.seq a b) m x m'
  | arm_skip {ρ exit body m} : h.guard m exit = some true → Exec h ρ (.arm exit body) m .next m
  | arm_body {ρ exit body m m' x} : h.guard m exit = some false → Exec h ρ body m x m' →
      Exec h ρ (.arm exit body) m x m'
  | choice_other {ρ exit body other m m' x} : h.guard m exit = some true →
      Exec h ρ other m x m' → Exec h ρ (.choice exit body other) m x m'
  | choice_body {ρ exit body other m m' x} : h.guard m exit = some false →
      Exec h ρ body m x m' → Exec h ρ (.choice exit body other) m x m'
  -- a pass ends with the condition, for a reason of its own, or for one outside of the loop
  | loop_over {ρ pass step tail m m' m''} : Exec h ρ pass m .ended m' →
      h.acts m' tail = some m'' → Exec h ρ (.loop pass step tail) m .next m''
  | loop_leave {ρ pass step tail m m'} : Exec h ρ pass m (.leave 0) m' →
      Exec h ρ (.loop pass step tail) m .next m'
  | loop_beyond {ρ pass step tail m m' x y} : Exec h ρ pass m x m' → x.beyond = some y →
      Exec h ρ (.loop pass step tail) m y m'
  | loop_step {ρ pass step tail m m' m'' x y} : Exec h ρ pass m x m' →
      x = .next ∨ x = .again 0 → Exec h ρ step m' y m'' → y ≠ .next →
      Exec h ρ (.loop pass step tail) m y m''
  | loop_round {ρ pass step tail m m' m'' m''' x y} : Exec h ρ pass m x m' →
      x = .next ∨ x = .again 0 → Exec h ρ step m' .next m'' →
      Exec h ρ (.loop pass step tail) m'' y m''' → Exec h ρ (.loop pass step tail) m y m'''
  | test_over {ρ exit m} : h.guard m exit = some true → Exec h ρ (.test exit) m .ended m
  | test_next {ρ exit m} : h.guard m exit = some false → Exec h ρ (.test exit) m .next m
  | leave {ρ k m} : Exec h ρ (.leave k) m (.leave k) m
  | again {ρ k m} : Exec h ρ (.again k) m (.again k) m
  | ret {ρ m} : Exec h ρ .ret m .ret m
  | frame {ρ body m m' x} : Exec h ρ body m x m' → x = .next ∨ x = .ret →
      Exec h ρ (.frame body) m .next m'
  -- the address says which call the body was run for
  | region {ρ entry body finish address m m' m'' m''' x} : h.acts m entry = some m' →
      Exec h (⟨body, finish, address⟩ :: ρ) body m' x m'' → x = .next ∨ x = .ret →
      h.acts m'' finish = some m''' → Engine.eval (h.context m''') address = .ok outermost →
      Exec h ρ (.region entry body finish address) m .next m'''
  | reenter {ρ index number entry routine m m' m'' m''' x} : ρ[index]? = some routine →
      h.acts m entry = some m' → Exec h (ρ.drop index) routine.body m' x m'' →
      x = .next ∨ x = .ret →
      h.acts m'' routine.finish = some m''' →
      Engine.eval (h.context m''') routine.address = .ok (callNumber number) →
      Exec h ρ (.reenter index number entry) m .next m'''

/-! ## Where a tree stands -/

/-- Where the exits of a loop lead. -/
structure LoopTargets where
  ended : Nat
  again : Nat
  leave : Nat

/-- Where the body of a region starts, and where the calls inside go on. -/
structure RegionTargets where
  start : Nat
  sites : List Nat

/-- Where exits and calls lead; innermost first. -/
structure Targets where
  loops : List LoopTargets
  ret : Nat
  regions : List RegionTargets

namespace Targets

def inLoop (T : Targets) (loop : LoopTargets) : Targets := { T with loops := loop :: T.loops }

/-- Inside a body of its own. -/
def inBody (T : Targets) (ret : Nat) : Targets := { T with loops := [], ret := ret }

def inRegion (T : Targets) (ret : Nat) (region : RegionTargets) : Targets :=
  ⟨[], ret, region :: T.regions⟩

/-- Where a piece of code that ends at `q` goes on. -/
def exit (T : Targets) (q : Nat) : Exit → Option Nat
  | .next => some q
  | .ended => (T.loops[0]?).map (·.ended)
  | .leave k => (T.loops[k]?).map (·.leave)
  | .again k => (T.loops[k]?).map (·.again)
  | .ret => some T.ret

end Targets

/-- The actions from a position on. -/
def ActsAt (list : ActionList) (p : Nat) (actions : List Action) : Prop :=
  ∀ i, i < actions.length → list.get? (p + i) = actions[i]?

/-- A skip that is always taken. -/
def SkipAt (list : ActionList) (p target : Nat) : Prop :=
  ∃ count, list.get? p = some (.skip (some count)) ∧
    Action.skipTarget? p count list.length = some target

/-- A skip that is taken when `exit` holds. -/
def GuardAt (list : ActionList) (p : Nat) (exit : Element) (target : Nat) : Prop :=
  ∃ count, list.get? p = some (.skipIf exit (some count)) ∧
    Action.skipTarget? p count list.length = some target

/-- What tells the calls of a region apart, from `number` on. -/
def DispatchAt (list : ActionList) (address : Element) : Nat → Nat → List Nat → Nat → Prop
  | p, _, [], q => q = p
  | p, number, site :: rest, q =>
    GuardAt list p (.compare address .notEqual (.ofNat number)) (p + 2) ∧
      SkipAt list (p + 1) site ∧ DispatchAt list address (p + 2) (number + 1) rest q

/-- A tree stands from `p` to `q`. -/
def Lays (list : ActionList) : Targets → Nat → Code → Nat → Prop
  | _, p, .acts actions, q => ActsAt list p actions ∧ q = p + actions.length
  | _, p, .abort, q => list.get? p = some .abort ∧ q = p + 1
  | T, p, .seq a b, q => ∃ r, Lays list T p a r ∧ Lays list T r b q
  | T, p, .arm exit body, q => GuardAt list p exit q ∧ Lays list T (p + 1) body q
  | T, p, .choice exit body other, q =>
    ∃ r, GuardAt list p exit (r + 1) ∧ Lays list T (p + 1) body r ∧ SkipAt list r q ∧
      Lays list T (r + 1) other q
  | T, p, .loop pass step tail, q =>
    ∃ r s, Lays list (T.inLoop ⟨s + 1, r, q⟩) p pass r ∧ Lays list T r step s ∧
      SkipAt list s p ∧ ActsAt list (s + 1) tail ∧ q = s + 1 + tail.length
  | T, p, .test exit, q => ∃ t, T.exit q .ended = some t ∧ GuardAt list p exit t ∧ q = p + 1
  | T, p, .leave k, q => ∃ t, T.exit q (.leave k) = some t ∧ SkipAt list p t ∧ q = p + 1
  | T, p, .again k, q => ∃ t, T.exit q (.again k) = some t ∧ SkipAt list p t ∧ q = p + 1
  | T, p, .ret, q => SkipAt list p T.ret ∧ q = p + 1
  | T, p, .frame body, q => Lays list (T.inBody q) p body q
  | T, p, .region entry body finish address, q =>
    ∃ sites r, ActsAt list p entry ∧
      Lays list (T.inRegion r ⟨p + entry.length, sites⟩) (p + entry.length) body r ∧
      ActsAt list r finish ∧ DispatchAt list address (r + finish.length) 0 sites q
  | T, p, .reenter index number entry, q =>
    ∃ region, T.regions[index]? = some region ∧ region.sites[number]? = some q ∧
      ActsAt list p entry ∧ SkipAt list (p + entry.length) region.start ∧
      q = p + entry.length + 1

/-- The routines of the regions that are open stand where their regions do. -/
inductive RoutinesAt (list : ActionList) : List RegionTargets → List Routine → Prop
  | nil : RoutinesAt list [] []
  | cons {regions ρ region routine r q} :
      Lays list ⟨[], r, region :: regions⟩ region.start routine.body r →
      ActsAt list r routine.finish →
      DispatchAt list routine.address (r + routine.finish.length) 0 region.sites q →
      RoutinesAt list regions ρ → RoutinesAt list (region :: regions) (routine :: ρ)

/-- The routines from one of them on stand as well. -/
theorem RoutinesAt.drop {list : ActionList} {regions : List RegionTargets} {ρ : List Routine}
    (at' : RoutinesAt list regions ρ) (n : Nat) :
    RoutinesAt list (regions.drop n) (ρ.drop n) := by
  induction at' generalizing n with
  | nil => simpa using RoutinesAt.nil
  | cons body finish dispatch rest ih =>
    cases n with
    | zero => exact .cons body finish dispatch rest
    | succ n => simpa using ih n

namespace ActsAt

variable {list : ActionList} {p : Nat}

theorem nil (list : ActionList) (p : Nat) :
    ActsAt list p [] := fun _ h => absurd h (Nat.not_lt_zero _)

theorem head {a : Action} {rest : List Action} (h : ActsAt list p (a :: rest)) :
    list.get? p = some a := h 0 (Nat.succ_pos _)

theorem tail {a : Action} {rest : List Action} (h : ActsAt list p (a :: rest)) :
    ActsAt list (p + 1) rest := by
  intro i hi
  have := h (i + 1) (Nat.succ_lt_succ hi)
  rwa [show p + (i + 1) = p + 1 + i by omega, List.getElem?_cons_succ] at this

theorem append {first second : List Action} :
    ActsAt list p (first ++ second) ↔
      ActsAt list p first ∧ ActsAt list (p + first.length) second := by
  constructor
  · intro h
    constructor
    · intro i hi
      rw [h i (by simp; omega), List.getElem?_append_left hi]
    · intro i hi
      rw [show p + first.length + i = p + (first.length + i) by omega,
        h (first.length + i) (by simp; omega), List.getElem?_append_right (by omega)]
      congr 1
      omega
  · rintro ⟨h₁, h₂⟩ i hi
    by_cases h : i < first.length
    · rw [h₁ i h, List.getElem?_append_left h]
    · have := h₂ (i - first.length) (by simp at hi; omega)
      rw [show p + first.length + (i - first.length) = p + i by omega] at this
      rw [this, List.getElem?_append_right (by omega)]

end ActsAt

end SkipCode
