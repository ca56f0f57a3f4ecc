import SkipCode.Proofs.Code
import SkipCode.Proofs.Whole

/-!
# A list does what its tree does

`reaches_of_exec`: where a tree stands in a list, the list can be run from the start of the tree to
where its exit leads, with the same effect on the memory. Behind a region that takes the dispatch:
the return address is compared with the number of every call, so it has to be known which numbers
differ.
-/

namespace SkipCode

open Engine (Context Host Memory)
open Engine.Host (Reaches Runs)

variable {h : Host} {list : ActionList} {T : Targets} {p q t n : Nat} {m m' : Memory}

theorem step_skip (at' : SkipAt list p t) : h.step list p m = some (t, m) := by
  obtain ⟨count, found, leads⟩ := at'
  simp [Host.step, found, leads]

theorem step_guard_true {exit : Element} (at' : GuardAt list p exit t)
    (holds : h.guard m exit = some true) : h.step list p m = some (t, m) := by
  obtain ⟨count, found, leads⟩ := at'
  simp [Host.step, found, holds, leads]

theorem step_guard_false {exit : Element} (at' : GuardAt list p exit t)
    (fails : h.guard m exit = some false) : h.step list p m = some (p + 1, m) := by
  obtain ⟨count, found, leads⟩ := at'
  simp [Host.step, found, fails]

/-- A skip over some of the actions behind it. -/
theorem guardAt_over {exit : Element} {count : Nat} (short : list.length < 2 ^ 63)
    (small : count < 2 ^ 31) (found : list.get? p = some (.skipIf exit (some (Int32.ofNat count))))
    (room : p + 1 + count ≤ list.length) : GuardAt list p exit (p + 1 + count) := by
  refine ⟨_, found, (Action.skipTarget?_eq_some_iff short (by omega)).2 ⟨?_, room⟩⟩
  rw [Int32.toInt_ofNat_of_lt small]
  omega

/-- An action that writes is a step to the next position. -/
theorem step_act {a : Action} (found : list.get? p = some a) (writes : h.act m a = some m') :
    h.step list p m = some (p + 1, m') := by
  cases a with
  | set st slot index value =>
    have : h.write m st slot index value = some m' := writes
    simp [Host.step, found, this]
  | skipIf _ _ => cases writes
  | skip _ => cases writes
  | abort => cases writes

/-- Several writes are that many steps. -/
theorem runs_acts {actions : List Action} (at' : ActsAt list p actions)
    (writes : h.acts m actions = some m') :
    Runs h list actions.length p m (p + actions.length) m' := by
  induction actions generalizing p m with
  | nil =>
    cases writes
    exact .refl _ _
  | cons a rest ih =>
    obtain ⟨m₁, first, others⟩ := Option.bind_eq_some_iff.1 writes
    have := Runs.next (step_act at'.head first) (ih at'.tail others)
    rwa [show p + 1 + rest.length = p + (a :: rest).length by simp; omega] at this

theorem reaches_acts {actions : List Action} (at' : ActsAt list p actions)
    (writes : h.acts m actions = some m') :
    Reaches h list p m (p + actions.length) m' :=
  ⟨_, runs_acts at' writes⟩

theorem actsAt_ofList (actions : List Action) : ActsAt (.ofList actions) 0 actions := fun i _ => by
  rw [Nat.zero_add, ActionList.get?_eq_toList]
  rfl

theorem get?_behind (actions : List Action) :
    (ActionList.ofList actions).get? actions.length = none := by
  rw [ActionList.get?_eq_toList]
  exact List.getElem?_eq_none (Nat.le_refl _)

/-- Writes have nothing that a list is refused for. -/
theorem check_of_acts {actions : List Action} (writes : h.acts m actions = some m') :
    (ActionList.ofList actions).check = .ok () := by
  suffices ∀ len ip, ActionList.checkFrom len ip actions = .ok () from this _ 0
  induction actions generalizing m with
  | nil => exact fun _ _ => rfl
  | cons a rest ih =>
    intro len ip
    obtain ⟨m₁, first, others⟩ := Option.bind_eq_some_iff.1 writes
    cases a with
    | set => exact ih others len (ip + 1)
    | skipIf | skip | abort => cases first

/-- A list of writes that can all be done completes, if there are enough steps for them. -/
theorem runList_of_acts {e : Engine} {runner : Int64} {actions : List Action}
    (enough : actions.length < Engine.fuel e.config)
    (done : (Host.mk e.config runner).acts e.memory actions = some m') :
    e.runList (.ofList actions) runner =
      some (.ok .completed, (Host.mk e.config runner).engine m' actions.length) := by
  have allowed : (Host.mk e.config runner).Allows (0 + actions.length) := by
    intro limit known
    have known : e.config.maxSteps = some limit := known
    rw [Engine.fuel, known] at enough
    exact Nat.zero_add _ ▸ Nat.le_of_lt_succ enough
  -- the last of the fuel sees the end
  obtain ⟨more, fuel⟩ : ∃ more, Engine.fuel e.config = actions.length + (more + 1) :=
    ⟨Engine.fuel e.config - actions.length - 1, by omega⟩
  have ran := Host.execute_of_runs (runs_acts (actsAt_ofList actions) done) allowed (more + 1)
  rw [Engine.runList, check_of_acts done]
  show Engine.execute _ (Engine.fuel e.config) 0 ((Host.mk e.config runner).engine e.memory 0) = _
  rw [fuel, ran, Nat.zero_add, Host.execute_at_end _ more (get?_behind actions)]

/-! ## The dispatch -/

theorem guard_notEqual {address : Element} {x y : Binary64}
    (found : Engine.eval (h.context m) address = .ok (.number x)) :
    h.guard m (.compare address .notEqual (.number y)) = some (!x.equal y) := by
  have hy : Engine.eval (h.context m) (.number y) = .ok (.number y) := by rw [Engine.eval]
  have : Engine.eval (h.context m) (.compare address .notEqual (.number y)) =
      .ok (.bool (!x.equal y)) := by
    rw [Engine.eval, found, hy]
    rfl
  rw [Host.guard, this]
  rfl

/-- The outermost call goes on behind the dispatch. -/
theorem reaches_dispatch_end {address : Element} {sites : List Nat}
    (short : n + sites.length ≤ 2 ^ 53) (at' : DispatchAt list address p n sites q)
    (found : Engine.eval (h.context m) address = .ok outermost) : Reaches h list p m q m := by
  induction sites generalizing p n with
  | nil =>
    cases at'
    exact .refl _ _
  | cons site rest ih =>
    obtain ⟨guard, -, others⟩ := at'
    have holds : h.guard m (.compare address .notEqual (.ofNat n)) = some true := by
      rw [Element.ofNat, guard_notEqual found,
        Binary64.not_equal_ofNat n (by simp at short; omega)]
      rfl
    exact (Reaches.step (step_guard_true guard holds)).trans
      (ih (by simp at short ⊢; omega) others)

/-- A call inside goes on where its number says. -/
theorem reaches_dispatch_site {address : Element} {sites : List Nat} {number site : Nat}
    (short : n + sites.length ≤ 2 ^ 53) (at' : DispatchAt list address p n sites q)
    (found : Engine.eval (h.context m) address = .ok (callNumber (n + number)))
    (call : sites[number]? = some site) : Reaches h list p m site m := by
  induction sites generalizing p n number with
  | nil => cases call
  | cons first rest ih =>
    obtain ⟨guard, skip, others⟩ := at'
    simp only [List.length_cons] at short
    have bound : number < (first :: rest).length := (List.getElem?_eq_some_iff.1 call).1
    simp only [List.length_cons] at bound
    have value : h.guard m (.compare address .notEqual (.ofNat n)) =
        some (!(Binary64.ofNat (n + number)).equal (.ofNat n)) := guard_notEqual found
    have equal := Binary64.equal_ofNat_iff (n := n + number) (k := n) (by omega) (by omega)
    cases number with
    | zero =>
      -- this guard is for the number, so the skip behind it is taken
      cases call
      rw [equal.2 (by omega)] at value
      exact (Reaches.step (step_guard_false guard value)).trans (.step (step_skip skip))
    | succ number =>
      have differ : (Binary64.ofNat (n + (number + 1))).equal (.ofNat n) = false := by
        rw [Bool.eq_false_iff]
        intro e
        have := equal.1 e
        omega
      -- and this one is not, so the next one is tried
      rw [differ] at value
      refine (Reaches.step (step_guard_true guard value)).trans (ih (by omega) others ?_ call)
      rwa [show n + 1 + number = n + (number + 1) by omega]

/-- A dispatch has two actions for every call. -/
theorem DispatchAt.length_le {address : Element} {sites : List Nat}
    (at' : DispatchAt list address p n sites q) : sites.length ≤ list.length - p := by
  induction sites generalizing p n with
  | nil => exact Nat.zero_le _
  | cons site rest ih =>
    obtain ⟨-, ⟨count, found, -⟩, others⟩ := at'
    have inside : p + 1 < list.length := by
      have := (Array.getElem?_eq_some_iff.1 found).1
      exact this
    have := ih others
    simp only [List.length_cons]
    omega

theorem RoutinesAt.get {regions : List RegionTargets} {ρ : List Routine}
    (at' : RoutinesAt list regions ρ) {index : Nat} {routine : Routine}
    (found : ρ[index]? = some routine) :
    ∃ region r q, regions[index]? = some region ∧
      Lays list ⟨[], r, regions.drop index⟩ region.start routine.body r ∧
      ActsAt list r routine.finish ∧
      DispatchAt list routine.address (r + routine.finish.length) 0 region.sites q := by
  induction at' generalizing index with
  | nil => cases found
  | @cons regions ρ region _ r q body finish dispatch _ ih =>
    cases index with
    | zero =>
      cases found
      exact ⟨region, r, q, rfl, body, finish, dispatch⟩
    | succ index => simpa using ih (by simpa using found)

/-! ## Trees -/

theorem Targets.exit_beyond {loop : LoopTargets} {x y : Exit} (e : x.beyond = some y) (q r : Nat) :
    (T.inLoop loop).exit q x = T.exit r y := by
  cases x with
  | next => cases e
  | ended => cases e
  | leave k => cases k <;> cases e; rfl
  | again k => cases k <;> cases e; rfl
  | ret => cases e; rfl

theorem Targets.exit_of_ne_next {x : Exit} (hx : x ≠ .next) (q r : Nat) :
    T.exit q x = T.exit r x := by
  cases x with
  | next => exact absurd rfl hx
  | _ => rfl

/-- A list goes from the start of a tree to where the tree's exit leads, as the tree does. -/
theorem reaches_of_exec {ρ : List Routine} {c : Code} {x : Exit} (short : list.length ≤ 2 ^ 53)
    (exec : Exec h ρ c m x m') (lays : Lays list T p c q)
    (routines : RoutinesAt list T.regions ρ) :
    ∃ t, T.exit q x = some t ∧ Reaches h list p m t m' := by
  induction exec generalizing T p q with
  | acts writes =>
    obtain ⟨at', rfl⟩ := lays
    exact ⟨_, rfl, reaches_acts at' writes⟩
  | seq _ _ ih₁ ih₂ =>
    obtain ⟨r, first, second⟩ := lays
    obtain ⟨t, ht, reach⟩ := ih₁ first routines
    cases ht
    obtain ⟨t, ht, reach'⟩ := ih₂ second routines
    exact ⟨t, ht, reach.trans reach'⟩
  | seq_exit _ hx ih =>
    obtain ⟨r, first, -⟩ := lays
    obtain ⟨t, ht, reach⟩ := ih first routines
    exact ⟨t, (Targets.exit_of_ne_next hx q r).trans ht, reach⟩
  | arm_skip holds =>
    obtain ⟨guard, -⟩ := lays
    exact ⟨q, rfl, .step (step_guard_true guard holds)⟩
  | arm_body fails _ ih =>
    obtain ⟨guard, body⟩ := lays
    obtain ⟨t, ht, reach⟩ := ih body routines
    exact ⟨t, ht, (Reaches.step (step_guard_false guard fails)).trans reach⟩
  | choice_other holds _ ih =>
    obtain ⟨r, guard, -, -, other⟩ := lays
    obtain ⟨t, ht, reach⟩ := ih other routines
    exact ⟨t, ht, (Reaches.step (step_guard_true guard holds)).trans reach⟩
  | @choice_body _ _ _ _ _ _ x fails _ ih =>
    obtain ⟨r, guard, body, skip, -⟩ := lays
    obtain ⟨t, ht, reach⟩ := ih body routines
    have reach := (Reaches.step (step_guard_false guard fails)).trans reach
    -- only the end of the body has the skip over the other one
    by_cases hx : x = .next
    · subst hx
      cases ht
      exact ⟨q, rfl, reach.trans (.step (step_skip skip))⟩
    · exact ⟨t, (Targets.exit_of_ne_next hx q r).trans ht, reach⟩
  | loop_over _ writes ih =>
    obtain ⟨r, s, pass, -, -, tail, rfl⟩ := lays
    obtain ⟨t, ht, reach⟩ := ih pass routines
    cases ht
    exact ⟨_, rfl, reach.trans (reaches_acts tail writes)⟩
  | loop_leave _ ih =>
    obtain ⟨r, s, pass, -, -, -, -⟩ := lays
    obtain ⟨t, ht, reach⟩ := ih pass routines
    cases ht
    exact ⟨_, rfl, reach⟩
  | loop_beyond _ hy ih =>
    obtain ⟨r, s, pass, -, -, -, -⟩ := lays
    obtain ⟨t, ht, reach⟩ := ih pass routines
    exact ⟨t, (Targets.exit_beyond hy r q).symm.trans ht, reach⟩
  | loop_step _ hx _ hy ih₁ ih₂ =>
    obtain ⟨r, s, pass, step, -, -, -⟩ := lays
    obtain ⟨t, ht, reach⟩ := ih₁ pass routines
    obtain rfl : r = t := by rcases hx with rfl | rfl <;> exact Option.some.inj ht
    obtain ⟨t, ht, reach'⟩ := ih₂ step routines
    exact ⟨t, (Targets.exit_of_ne_next hy q s).trans ht, reach.trans reach'⟩
  | loop_round _ hx _ _ ih₁ ih₂ ih₃ =>
    have whole := lays
    obtain ⟨r, s, pass, step, back, -, -⟩ := lays
    obtain ⟨t, ht, reach⟩ := ih₁ pass routines
    obtain rfl : r = t := by rcases hx with rfl | rfl <;> exact Option.some.inj ht
    obtain ⟨t, ht, reach'⟩ := ih₂ step routines
    cases ht
    obtain ⟨t, ht, reach''⟩ := ih₃ whole routines
    exact ⟨t, ht, reach.trans (reach'.trans ((Reaches.step (step_skip back)).trans reach''))⟩
  | test_over holds =>
    obtain ⟨t, ht, guard, -⟩ := lays
    exact ⟨t, ht, .step (step_guard_true guard holds)⟩
  | test_next fails =>
    obtain ⟨t, ht, guard, rfl⟩ := lays
    exact ⟨_, rfl, .step (step_guard_false guard fails)⟩
  | leave =>
    obtain ⟨t, ht, skip, -⟩ := lays
    exact ⟨t, ht, .step (step_skip skip)⟩
  | again =>
    obtain ⟨t, ht, skip, -⟩ := lays
    exact ⟨t, ht, .step (step_skip skip)⟩
  | ret =>
    obtain ⟨skip, -⟩ := lays
    exact ⟨_, rfl, .step (step_skip skip)⟩
  | frame _ hx ih =>
    obtain ⟨t, ht, reach⟩ := ih lays routines
    obtain rfl : q = t := by rcases hx with rfl | rfl <;> exact Option.some.inj ht
    exact ⟨q, rfl, reach⟩
  | region entry _ hx finish found ih =>
    obtain ⟨sites, r, at₁, body, at₂, dispatch⟩ := lays
    obtain ⟨t, ht, reach⟩ := ih (T := T.inRegion r ⟨p + _, sites⟩) body
      (.cons body at₂ dispatch routines)
    obtain rfl : r = t := by rcases hx with rfl | rfl <;> exact Option.some.inj ht
    have := dispatch.length_le
    exact ⟨q, rfl, (reaches_acts at₁ entry).trans (reach.trans ((reaches_acts at₂ finish).trans
      (reaches_dispatch_end (by omega) dispatch found)))⟩
  | @reenter _ index number _ _ _ _ _ _ _ routine entry _ hx finish found ih =>
    obtain ⟨region, here, site, at₁, skip, -⟩ := lays
    obtain ⟨region', r, q', here', body, at₂, dispatch⟩ := routines.get routine
    rw [here] at here'
    cases here'
    obtain ⟨t, ht, reach⟩ := ih (T := ⟨[], r, T.regions.drop index⟩) body (routines.drop index)
    obtain rfl : r = t := by rcases hx with rfl | rfl <;> exact Option.some.inj ht
    have := dispatch.length_le
    rw [show number = 0 + number by omega] at found
    exact ⟨q, rfl, (reaches_acts at₁ entry).trans ((Reaches.step (step_skip skip)).trans
      (reach.trans ((reaches_acts at₂ finish).trans
        (reaches_dispatch_site (by omega) dispatch found site))))⟩

end SkipCode
