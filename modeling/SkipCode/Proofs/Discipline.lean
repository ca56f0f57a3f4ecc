import SkipCode.Proofs.Adequacy
import SkipCode.Proofs.Location

/-!
# Stack discipline

`Balanced` is a typing of structured code: the type of a position is the list of the stacks that
were pushed and not popped yet, latest first. A piece of code may push, pop what is on the list,
write the tops of stacks on the list, and write whatever is no stack. A body starts with an empty
list, so it cannot reach what its callers pushed; a region starts with its parameters and cannot
reach the return address.

* `Balanced.preserved`: code that is typed keeps the lower part of every stack;
* `exec_of_runs`: it lets a completed run of the list be read as an execution of the tree. What
  takes the discipline there is the dispatch: that a call goes on behind itself hangs on the return
  address, which the body has to leave alone.
-/

namespace SkipCode

open Engine (Host Memory)

/-- The pool of a store. -/
def Store.pool : Store → Pool
  | .global => .global
  | .actor _ => .actor

/-- The kind of a store. -/
def Engine.StoreKey.pool : Engine.StoreKey → Pool
  | global => .global
  | actor _ => .actor

/-- A store's key is of the store's pool. -/
theorem Engine.storeKey_pool {c : Engine.Context} {st : Store} {key : Engine.StoreKey}
    (h : Engine.storeKey c st = .ok key) : key.pool = st.pool := by
  cases st with
  | global =>
    cases h
    rfl
  | actor who =>
    rw [storeKey] at h
    cases found : eval c who with
    | error f => simp [found, bind, Except.bind] at h
    | ok v =>
      rw [found] at h
      cases h
      rfl

/-- So is the key a host uses for a pool. -/
theorem Engine.Host.pool_key (h : Host) (pool : Pool) : (h.key pool).pool = pool := by
  cases pool <;> rfl

variable (S : Location → Prop)

/-! ## Types -/

/-- The stacks that a write finds and leaves. -/
inductive Touches : Action → List Location → List Location → Prop
  /-- A write to what is no stack. -/
  | plain {st slot index value Δ} : ¬ S ⟨st.pool, slot⟩ → Touches (.set st slot index value) Δ Δ
  | push {l value Δ} : S l → Touches (l.push value) Δ (l :: Δ)
  | pop {l Δ} : S l → Touches l.pop (l :: Δ) Δ
  | setTop {l actor value Δ} : l ∈ Δ → Touches (l.setTop actor value) Δ Δ

inductive TouchesAll : List Action → List Location → List Location → Prop
  | nil {Δ} : TouchesAll [] Δ Δ
  | cons {a rest Δ Δ' Δ''} : Touches S a Δ Δ' → TouchesAll rest Δ' Δ'' →
      TouchesAll (a :: rest) Δ Δ''

/-- The stacks at the places where the exits of a loop lead. -/
structure LoopType where
  ended : List Location
  again : List Location
  leave : List Location

/-- The stacks of a region: its parameters, latest first, and its return addresses; and where the
address goes on which it decides how to go on. -/
structure RoutineType where
  params : List Location
  ret : Location
  address : Location

/-- The stacks where a piece of code goes on. -/
def Exit.stackPlaces (L : List LoopType) (R Δ : List Location) : Exit → Option (List Location)
  | .next => some Δ
  | .ended => (L[0]?).map (·.ended)
  | .leave k => (L[k]?).map (·.leave)
  | .again k => (L[k]?).map (·.again)
  | .ret => some R

/-- How a call begins: its arguments are pushed, and at last the number it is told by. -/
structure Enters (type : RoutineType) (number : Value) (entry : List Action)
    (Δ : List Location) : Prop where
  split : ∃ first x, entry = first ++ [type.ret.push (.number x)] ∧ number = .number x ∧
    TouchesAll S first Δ (type.params ++ Δ)

/-- How a region ends: it takes the return address down and pops what its calls push. -/
structure Finishes (type : RoutineType) (finish : List Action) (address : Element) : Prop where
  actions : finish = .set (type.address.store none) type.address.slot none
    (.lastOf (type.ret.root none)) :: (type.ret :: type.params).map Location.pop
  address : address = type.address.root none
  plain : ¬ S type.address
  ret : S type.ret
  params : ∀ l ∈ type.params, S l
  fresh : type.ret ∉ type.params

/-- Code that keeps the discipline: it finds the stacks `Δ` and leaves `Δ'` at its end. -/
inductive Balanced : List RoutineType → List LoopType → List Location → List Location → Code →
    List Location → Prop
  | acts {τ L R actions Δ Δ'} : TouchesAll S actions Δ Δ' → Balanced τ L R Δ (.acts actions) Δ'
  | abort {τ L R Δ Δ'} : Balanced τ L R Δ .abort Δ'
  | seq {τ L R a b Δ Δ' Δ''} : Balanced τ L R Δ a Δ' → Balanced τ L R Δ' b Δ'' →
      Balanced τ L R Δ (.seq a b) Δ''
  | arm {τ L R exit body Δ} : Balanced τ L R Δ body Δ → Balanced τ L R Δ (.arm exit body) Δ
  | choice {τ L R exit body other Δ Δ'} : Balanced τ L R Δ body Δ' →
      Balanced τ L R Δ other Δ' → Balanced τ L R Δ (.choice exit body other) Δ'
  | loop {τ L R pass step tail Δ Δ'} : Balanced τ (⟨Δ', Δ, Δ⟩ :: L) R Δ pass Δ →
      Balanced τ L R Δ step Δ → TouchesAll S tail Δ' Δ →
      Balanced τ L R Δ (.loop pass step tail) Δ
  | test {τ L R exit Δ} : Exit.ended.stackPlaces L R Δ = some Δ → Balanced τ L R Δ (.test exit) Δ
  | leave {τ L R k Δ Δ'} : (Exit.leave k).stackPlaces L R Δ = some Δ →
      Balanced τ L R Δ (.leave k) Δ'
  | again {τ L R k Δ Δ'} : (Exit.again k).stackPlaces L R Δ = some Δ →
      Balanced τ L R Δ (.again k) Δ'
  | ret {τ L R Δ'} : Balanced τ L R R .ret Δ'
  | frame {τ L R body Δ} : Balanced τ [] [] [] body [] → Balanced τ L R Δ (.frame body) Δ
  | region {τ L R type entry body finish address Δ} : Enters S type outermost entry Δ →
      Balanced (type :: τ) [] type.params type.params body type.params →
      Finishes S type finish address →
      Balanced τ L R Δ (.region entry body finish address) Δ
  | reenter {τ L R type index number entry Δ} : τ[index]? = some type →
      Enters S type (callNumber number) entry Δ → Balanced τ L R Δ (.reenter index number entry) Δ

/-- The routines of the open regions keep the discipline. -/
inductive RoutinesBalanced : List Routine → List RoutineType → Prop
  | nil : RoutinesBalanced [] []
  | cons {ρ τ body finish address type} :
      Balanced S (type :: τ) [] type.params type.params body type.params →
      Finishes S type finish address → RoutinesBalanced ρ τ →
      RoutinesBalanced (⟨body, finish, address⟩ :: ρ) (type :: τ)

/-! ## What a type says of the memory -/

/-- Every stack has what `base` says at its bottom, and above it an item for each time that `Δ`
names it. -/
def Based (h : Host) (base : Location → List Value) (Δ : List Location) (m : Memory) : Prop :=
  ∀ l, S l → ∃ own, (h.value m l).items = base l ++ own ∧ own.length = Δ.count l ∧
    (own ≠ [] → (h.value m l).items.length ≤ 2 ^ 53)

variable {S} {h : Host} {base : Location → List Value} {Δ Δ' : List Location} {m m' : Memory}

/-- The lower part of each stack, without the items that `A` names. -/
def below (h : Host) (m : Memory) (A : List Location) (l : Location) : List Value :=
  (h.value m l).items.take ((h.value m l).items.length - A.count l)

namespace Based

/-- Every memory is based on itself. -/
theorem self (h : Host) (m : Memory) : Based S h (below h m []) [] m := by
  intro l _
  refine ⟨[], ?_, rfl, fun e => absurd rfl e⟩
  simp [below]

/-- The items that the first part of a list names can be taken as all there is to reach. -/
theorem shift {A : List Location} (based : Based S h base (A ++ Δ) m) :
    Based S h (below h m A) A m := by
  intro l hl
  obtain ⟨own, items, count, small⟩ := based l hl
  rw [List.count_append] at count
  refine ⟨own.drop (Δ.count l), ?_, by rw [List.length_drop]; omega, fun e => small ?_⟩
  · have : (h.value m l).items.length - A.count l = (base l).length + Δ.count l := by
      rw [items, List.length_append]
      omega
    rw [below, this, items, List.take_append, List.take_of_length_le (by omega), List.append_assoc,
      show (base l).length + Δ.count l - (base l).length = Δ.count l by omega,
      List.take_append_drop]
  · rintro rfl
    simp at e

/-- What was done to the upper part of the stacks, seen from the whole. -/
theorem unshift {A A' : List Location} (based : Based S h base (A ++ Δ) m)
    (upper : Based S h (below h m A) A' m') : Based S h base (A' ++ Δ) m' := by
  intro l hl
  obtain ⟨own, items, count, small⟩ := based l hl
  obtain ⟨own', items', count', small'⟩ := upper l hl
  rw [List.count_append] at count
  -- what is below the upper part is the base and the lower part
  have hb : below h m A l = base l ++ own.take (Δ.count l) := by
    have : (h.value m l).items.length - A.count l = (base l).length + Δ.count l := by
      rw [items, List.length_append]
      omega
    rw [below, this, items, List.take_append, List.take_of_length_le (by omega),
      show (base l).length + Δ.count l - (base l).length = Δ.count l by omega]
  refine ⟨own.take (Δ.count l) ++ own', ?_, ?_, fun e => ?_⟩
  · rw [items', hb, List.append_assoc]
  · rw [List.length_append, List.length_take, List.count_append, count']
    omega
  · by_cases h' : own' = []
    · have hne : own ≠ [] := by
        rintro rfl
        rw [h'] at e
        simp at e
      have := small hne
      have hlen : (h.value m' l).items.length ≤ (h.value m l).items.length := by
        rw [items', h', List.append_nil, below, List.length_take]
        omega
      omega
    · exact small' h'

/-- Memories that agree on the stacks are typed alike. -/
theorem congr (based : Based S h base Δ m)
    (same : ∀ l, S l → (h.value m' l).items = (h.value m l).items) : Based S h base Δ m' := by
  intro l hl
  rw [same l hl]
  exact based l hl

/-- Only how often a stack is named counts. -/
theorem reorder (based : Based S h base Δ m) (same : ∀ l, Δ'.count l = Δ.count l) :
    Based S h base Δ' m := by
  intro l hl
  rw [same l]
  exact based l hl

/-- Nothing was pushed and kept: the stacks are what they were at the start. -/
theorem items_eq (based : Based S h (below h m []) [] m') {l : Location} (hl : S l) :
    (h.value m' l).items = (h.value m l).items := by
  obtain ⟨own, items, count, -⟩ := based l hl
  have : own = [] := List.eq_nil_of_length_eq_zero (by simpa using count)
  rw [items, this, below]
  simp

end Based

/-! ## Writes -/

/-- A value that is put in a place is there, and every other place is as it was. -/
theorem value_put (h : Host) (m : Memory) (l l' : Location) (v : Value) :
    h.value (m.put (h.key l.pool) l.slot v) l' = if l' = l then v else h.value m l' := by
  unfold Host.value
  rw [Engine.Memory.get_put]
  by_cases e : l' = l
  · subst e
    simp
  · have : ¬ (h.key l'.pool = h.key l.pool ∧ l'.slot = l.slot) := by
      rintro ⟨hp, hs⟩
      have hp := h.key_injective hp
      obtain ⟨p, s⟩ := l
      obtain ⟨p', s'⟩ := l'
      cases hp
      cases hs
      exact e rfl
    simp [e, this]

/-- So is a value that a place is set to. -/
theorem value_set (h : Host) (m : Memory) (l l' : Location) (v : Value) :
    h.value (m.set (h.key l.pool) l.slot v) l' = if l' = l then v else h.value m l' := by
  rw [← value_put h m l l' v, Host.value, Host.value, Engine.Memory.get_put,
    Engine.Memory.get_set]

/-- A write changes nothing but the slot it names, of one store of its pool. -/
theorem write_elsewhere {st : Store} {slot : UInt32} {index : Option Element} {value : Element}
    (written : h.write m st slot index value = some m') {l : Location}
    (other : l ≠ ⟨st.pool, slot⟩) : h.value m' l = h.value m l := by
  obtain ⟨key, found, only⟩ := Host.write_at written
  refine only _ _ ?_
  rintro ⟨rfl, rfl⟩
  apply other
  rw [← Engine.storeKey_pool found, h.pool_key]

/-- A typed write keeps the lower part of every stack. -/
theorem Touches.preserved (limit : h.config.maxArrayLength ≤ 2 ^ 53) {a : Action}
    (typed : Touches S a Δ Δ') (done : h.act m a = some m') (based : Based S h base Δ m) :
    Based S h base Δ' m' := by
  cases typed with
  | @plain st slot _ _ _ free =>
    apply based.congr
    intro l hl
    rw [write_elsewhere done (l := l) (by rintro rfl; exact free hl)]
  | @push l value _ hl =>
    obtain ⟨v, -, small, rfl⟩ := Location.push_inv limit done
    intro l' hl'
    obtain ⟨own, items, count, bound⟩ := based l' hl'
    rw [value_put]
    by_cases e : l' = l
    · subst e
      refine ⟨own ++ [v], ?_, ?_, fun _ => ?_⟩
      · rw [if_pos rfl, items, List.append_assoc]
        rfl
      · simp [count]
      · rw [if_pos rfl]
        simp only [Value.items_array, List.length_append, List.length_singleton]
        omega
    · have : Δ.count l' = (l :: Δ).count l' := by simp [Ne.symm e]
      rw [if_neg e, ← this]
      exact ⟨own, items, count, bound⟩
  | @pop l _ hl =>
    obtain ⟨own, items, count, bound⟩ := based l hl
    rw [List.count_cons_self] at count
    have hne : own ≠ [] := by
      rintro rfl
      simp at count
    obtain rfl := Location.pop_inv (bound hne) done
    intro l' hl'
    obtain ⟨own', items', count', bound'⟩ := based l' hl'
    rw [value_set]
    by_cases e : l' = l
    · subst e
      refine ⟨own.dropLast, ?_, by simp [count], fun _ => ?_⟩
      · rw [if_pos rfl, items]
        exact List.dropLast_append_of_ne_nil hne
      · rw [if_pos rfl]
        have := bound hne
        simp only [Value.items_array, List.length_dropLast]
        omega
    · have : (l :: Δ').count l' = Δ'.count l' := by simp [Ne.symm e]
      rw [if_neg e, ← this]
      exact ⟨own', items', count', bound'⟩
  | @setTop l actor value _ hmem =>
    intro l' hl'
    obtain ⟨own, items, count, bound⟩ := based l' hl'
    by_cases e : l' = l
    · subst e
      have hne : own ≠ [] := by
        rintro rfl
        have := List.count_pos_iff.2 hmem
        rw [← count] at this
        simp at this
      obtain ⟨key, v, hk, -, change⟩ := Location.setTop_inv done
      -- another actor's copy may be meant, and then this one is not written
      by_cases hkey : key = h.key l'.pool
      · subst hkey
        have split : (base l' ++ own.dropLast) ++ [own.getLast hne] = base l' ++ own := by
          rw [List.append_assoc, List.dropLast_concat_getLast hne]
        have small := bound hne
        rw [items, ← split] at small
        have := change _ _ (items.trans split.symm) small
        subst this
        refine ⟨own.dropLast ++ [v], ?_, ?_, fun _ => ?_⟩
        · rw [value_put, if_pos rfl]
          simp
        · rw [List.length_append, List.length_dropLast, List.length_singleton, ← count]
          have := List.length_pos_iff.2 hne
          omega
        · rw [value_put, if_pos rfl]
          simpa using small
      · have keep : h.value m' l' = h.value m l' := by
          obtain ⟨key', v', i, hk', -, -, -, -, -, -, -, rfl⟩ := Host.write_some_iff.1 done
          rw [hk] at hk'
          cases hk'
          rw [Host.value, Engine.Memory.get_put, if_neg (by rintro ⟨e, -⟩; exact hkey e.symm)]
          rfl
        rw [keep]
        exact ⟨own, items, count, bound⟩
    · have keep : h.value m' l' = h.value m l' := by
        apply write_elsewhere done
        obtain ⟨pool, slot⟩ := l
        cases pool <;> exact e
      rw [keep]
      exact ⟨own, items, count, bound⟩

/-- A list of actions that keeps to the discipline keeps memory based, with what it pushed on top.
-/
theorem TouchesAll.preserved (limit : h.config.maxArrayLength ≤ 2 ^ 53) {actions : List Action}
    (typed : TouchesAll S actions Δ Δ') (done : h.acts m actions = some m')
    (based : Based S h base Δ m) : Based S h base Δ' m' := by
  induction typed generalizing m with
  | nil =>
    cases done
    exact based
  | cons first _ ih =>
    obtain ⟨m₁, one, rest⟩ := Option.bind_eq_some_iff.1 done
    exact ih rest (first.preserved limit one based)

/-- Disciplined lists compose. -/
theorem TouchesAll.append {first second : List Action} {Δ'' : List Location}
    (h₁ : TouchesAll S first Δ Δ') (h₂ : TouchesAll S second Δ' Δ'') :
    TouchesAll S (first ++ second) Δ Δ'' := by
  induction h₁ with
  | nil => exact h₂
  | cons one _ ih => exact .cons one (ih h₂)

/-- The pops of a list of stacks take the list away. -/
theorem touchesAll_pops {A : List Location} (stackPlaces : ∀ l ∈ A, S l) (Δ : List Location) :
    TouchesAll S (A.map Location.pop) (A ++ Δ) Δ := by
  induction A with
  | nil => exact .nil
  | cons l A ih =>
    exact .cons (.pop (stackPlaces l (by simp))) (ih fun l hl => stackPlaces l (by simp [hl]))

/-- Actions one behind the other are done one after the other. -/
theorem acts_append {first second : List Action} (done : h.acts m (first ++ second) = some m') :
    ∃ m₁, h.acts m first = some m₁ ∧ h.acts m₁ second = some m' :=
  Option.bind_eq_some_iff.1 ((Host.acts_append_eq h m first second).symm.trans done)

/-! ## Calls -/

/-- Behind its entry a call has its parameters to reach, and below them its number. -/
theorem Enters.based (limit : h.config.maxArrayLength ≤ 2 ^ 53) {type : RoutineType}
    {number : Value} {entry : List Action} (enters : Enters S type number entry Δ)
    (ret : S type.ret) (done : h.acts m entry = some m') (based : Based S h base Δ m) :
    Based S h base (type.ret :: type.params ++ Δ) m' ∧
      ∃ below, (h.value m' type.ret).items = below ++ [number] := by
  obtain ⟨first, x, rfl, rfl, typed⟩ := enters.split
  obtain ⟨m₁, h₁, h₂⟩ := acts_append done
  obtain ⟨m₂, h₂, rest⟩ := Option.bind_eq_some_iff.1 h₂
  cases rest
  refine ⟨(Touches.push ret).preserved limit h₂ (typed.preserved limit h₁ based), ?_⟩
  obtain ⟨v, hv, -, rfl⟩ := Location.push_inv limit h₂
  rw [Location.eval_number] at hv
  cases hv
  exact ⟨_, by rw [value_put, if_pos rfl]; rfl⟩

/-- Entering a routine pushes its parameters and its address, in whatever order. -/
theorem RoutineType.count_enter (type : RoutineType) (Δ : List Location) (l : Location) :
    (type.params ++ type.ret :: Δ).count l = (type.ret :: type.params ++ Δ).count l := by
  simp only [List.count_append, List.count_cons, List.cons_append]
  omega

/-- The body of a call reaches the parameters and not the return address. -/
theorem Based.protect {type : RoutineType}
    (based : Based S h base (type.ret :: type.params ++ Δ) m) :
    Based S h (below h m type.params) type.params m :=
  (based.reorder (type.count_enter Δ)).shift

/-- Pops elsewhere leave a place alone. -/
theorem acts_pops_elsewhere {A : List Location} {l : Location} (other : l ∉ A)
    (done : h.acts m (A.map Location.pop) = some m') : h.value m' l = h.value m l := by
  induction A generalizing m with
  | nil =>
    cases done
    rfl
  | cons a A ih =>
    obtain ⟨m₁, one, rest⟩ := Option.bind_eq_some_iff.1 done
    rw [ih (fun hl => other (by simp [hl])) rest]
    apply write_elsewhere one
    rintro rfl
    apply other
    obtain ⟨pool, slot⟩ := a
    cases pool <;> simp [Store.pool, Location.store]

/-- A place is the same for every actor. -/
theorem Location.store_pool (l : Location) (actor : Option Element) :
    (⟨(l.store actor).pool, l.slot⟩ : Location) = l := by
  obtain ⟨pool, slot⟩ := l
  cases pool <;> rfl

/-- Once the body of a call has kept the discipline, its finish gives its number as the address, and
leaves the stacks as they were before the call. -/
theorem Finishes.based (limit : h.config.maxArrayLength ≤ 2 ^ 53) {type : RoutineType}
    {number : Value} {finish : List Action} {address : Element} {m₁ m₂ : Memory}
    (finishes : Finishes S type finish address)
    (entered : Based S h base (type.ret :: type.params ++ Δ) m)
    (top : ∃ below, (h.value m type.ret).items = below ++ [number])
    (body : Based S h (below h m type.params) type.params m₁)
    (done : h.acts m₁ finish = some m₂) :
    Based S h base Δ m₂ ∧ Engine.eval (h.context m₂) address = .ok number := by
  obtain ⟨items, htop⟩ := top
  obtain ⟨actions, rfl, plain, ret, params, fresh⟩ := finishes
  have whole : Based S h base (type.ret :: type.params ++ Δ) m₁ :=
    ((entered.reorder (type.count_enter Δ)).unshift body).reorder
      fun l => (type.count_enter Δ l).symm
  have stackPlaces : ∀ l ∈ type.ret :: type.params, S l := by
    intro l hl
    rcases List.mem_cons.1 hl with rfl | hl
    · exact ret
    · exact params l hl
  rw [actions] at done
  obtain ⟨m', first, pops⟩ := Option.bind_eq_some_iff.1 done
  have plain' : ¬ S ⟨(type.address.store none).pool, type.address.slot⟩ := by
    rwa [Location.store_pool]
  have based' := (Touches.plain plain').preserved limit first whole
  refine ⟨(touchesAll_pops stackPlaces Δ).preserved limit pops based', ?_⟩
  -- the body left the return address alone
  have kept : (h.value m₁ type.ret).items = items ++ [number] := by
    obtain ⟨own, hi, count, -⟩ := body type.ret ret
    rw [List.count_eq_zero_of_not_mem fresh] at count
    rw [hi, List.eq_nil_of_length_eq_zero count, List.append_nil, below,
      List.count_eq_zero_of_not_mem fresh, Nat.sub_zero, List.take_length, htop]
  obtain ⟨key, v, hk, hv, hc, -, rfl⟩ := Host.write_none_iff.1 first
  rw [Location.storeKey_eq] at hk
  cases hk
  have hv' : v = number := by
    obtain ⟨w, hr, rfl⟩ := Location.eval_lastOf_inv hv
    obtain ⟨key, hk, -, rfl⟩ := Location.eval_root_inv hr
    rw [Location.storeKey_eq] at hk
    cases hk
    show (h.value m₁ type.ret).items.getLastD _ = number
    rw [kept]
    simp
  subst hv'
  rw [Location.eval_root (Host.holds_of_checkSlot hc), acts_pops_elsewhere
    (fun hl => plain (stackPlaces _ hl)) pops, value_set, if_pos rfl]

/-! ## Code -/

/-- The inner routines are balanced among themselves. -/
theorem RoutinesBalanced.drop {ρ : List Routine} {τ : List RoutineType}
    (typed : RoutinesBalanced S ρ τ) (n : Nat) : RoutinesBalanced S (ρ.drop n) (τ.drop n) := by
  induction typed generalizing n with
  | nil => simpa using RoutinesBalanced.nil
  | cons body finish rest ih =>
    cases n with
    | zero => exact .cons body finish rest
    | succ n => simpa using ih n

/-- A routine that is there is balanced over its parameters. -/
theorem RoutinesBalanced.get {ρ : List Routine} {τ : List RoutineType}
    (typed : RoutinesBalanced S ρ τ) {index : Nat} {type : RoutineType}
    (found : τ[index]? = some type) :
    ∃ routine, ρ[index]? = some routine ∧
      Balanced S (τ.drop index) [] type.params type.params routine.body type.params ∧
      Finishes S type routine.finish routine.address := by
  induction typed generalizing index with
  | nil => cases found
  | cons body finish _ ih =>
    cases index with
    | zero =>
      cases found
      exact ⟨_, rfl, body, finish⟩
    | succ index => simpa using ih (by simpa using found)

/-- A loop's exit to the outside leaves the same stacks. -/
theorem Exit.stacks_beyond {L : List LoopType} {R : List Location} {type : LoopType}
    {x y : Exit} (e : x.beyond = some y) (Δ Δ' : List Location) :
    x.stackPlaces (type :: L) R Δ = y.stackPlaces L R Δ' := by
  cases x with
  | next => cases e
  | ended => cases e
  | leave k => cases k <;> cases e; rfl
  | again k => cases k <;> cases e; rfl
  | ret => cases e; rfl

/-- Only code that is run through depends on the stacks pushed in between. -/
theorem Exit.stacks_of_ne_next {L : List LoopType} {R : List Location} {x : Exit}
    (hx : x ≠ .next) (Δ Δ' : List Location) : x.stackPlaces L R Δ = x.stackPlaces L R Δ' := by
  cases x with
  | next => exact absurd rfl hx
  | _ => rfl

/-- A call whose body keeps the discipline leaves the stacks as they were before it, and gives its
number as the address. -/
theorem Finishes.called (limit : h.config.maxArrayLength ≤ 2 ^ 53) {type : RoutineType}
    {number : Value} {entry finish : List Action} {address : Element} {x : Exit}
    {m₁ m₂ m₃ : Memory} (finishes : Finishes S type finish address)
    (enters : Enters S type number entry Δ) (based : Based S h base Δ m)
    (first : h.acts m entry = some m₁) (hx : x = .next ∨ x = .ret)
    (body : ∀ base, Based S h base type.params m₁ →
      ∃ Δ'', x.stackPlaces [] type.params type.params = some Δ'' ∧ Based S h base Δ'' m₂)
    (last : h.acts m₂ finish = some m₃) :
    Based S h base Δ m₃ ∧ Engine.eval (h.context m₃) address = .ok number := by
  obtain ⟨entered, top⟩ := enters.based limit finishes.ret first based
  obtain ⟨Δ₁, e, based₁⟩ := body _ entered.protect
  obtain rfl : type.params = Δ₁ := by rcases hx with rfl | rfl <;> exact Option.some.inj e
  exact finishes.based limit entered top based₁ last

/-- Code that keeps the discipline keeps the lower part of every stack, however it ends. -/
theorem Balanced.preserved (limit : h.config.maxArrayLength ≤ 2 ^ 53) {ρ : List Routine}
    {c : Code} {x : Exit} (exec : Exec h ρ c m x m') {τ : List RoutineType} {L : List LoopType}
    {R : List Location} (routines : RoutinesBalanced S ρ τ) (typed : Balanced S τ L R Δ c Δ')
    (based : Based S h base Δ m) :
    ∃ Δ'', x.stackPlaces L R Δ' = some Δ'' ∧ Based S h base Δ'' m' := by
  -- on the execution: each rule hands the stacks that are known at its exit on to the part behind
  -- it
  induction exec generalizing τ L R Δ Δ' base with
  | acts done =>
    cases typed with
    | acts typed => exact ⟨_, rfl, typed.preserved limit done based⟩
  | seq _ _ ih₁ ih₂ =>
    cases typed with
    | seq first second =>
      obtain ⟨Δ₁, e, based₁⟩ := ih₁ routines first based
      cases e
      exact ih₂ routines second based₁
  | seq_exit _ hx ih =>
    cases typed with
    | seq first second =>
      obtain ⟨Δ₁, e, based₁⟩ := ih routines first based
      exact ⟨Δ₁, (Exit.stacks_of_ne_next hx _ _).trans e, based₁⟩
  | arm_skip _ =>
    cases typed with
    | arm body => exact ⟨_, rfl, based⟩
  | arm_body _ _ ih =>
    cases typed with
    | arm body => exact ih routines body based
  | choice_other _ _ ih =>
    cases typed with
    | choice body other => exact ih routines other based
  | choice_body _ _ ih =>
    cases typed with
    | choice body other => exact ih routines body based
  | loop_over _ done ih =>
    cases typed with
    | loop pass step tail =>
      obtain ⟨Δ₁, e, based₁⟩ := ih routines pass based
      cases e
      exact ⟨_, rfl, tail.preserved limit done based₁⟩
  | loop_leave _ ih =>
    cases typed with
    | loop pass step tail =>
      obtain ⟨Δ₁, e, based₁⟩ := ih routines pass based
      cases e
      exact ⟨_, rfl, based₁⟩
  | loop_beyond _ hy ih =>
    cases typed with
    | loop pass step tail =>
      obtain ⟨Δ₁, e, based₁⟩ := ih routines pass based
      exact ⟨Δ₁, (Exit.stacks_beyond hy _ _).symm.trans e, based₁⟩
  | loop_step _ hx _ hy ih₁ ih₂ =>
    cases typed with
    | loop pass step tail =>
      obtain ⟨Δ₁, e, based₁⟩ := ih₁ routines pass based
      obtain rfl : Δ = Δ₁ := by rcases hx with rfl | rfl <;> exact Option.some.inj e
      exact ih₂ routines step based₁
  | loop_round _ hx _ _ ih₁ ih₂ ih₃ =>
    have whole := typed
    cases typed with
    | loop pass step tail =>
      obtain ⟨Δ₁, e, based₁⟩ := ih₁ routines pass based
      obtain rfl : Δ = Δ₁ := by rcases hx with rfl | rfl <;> exact Option.some.inj e
      obtain ⟨Δ₂, e, based₂⟩ := ih₂ routines step based₁
      cases e
      exact ih₃ routines whole based₂
  | test_over _ =>
    cases typed with
    | test e => exact ⟨_, e, based⟩
  | test_next _ =>
    cases typed with
    | test e => exact ⟨_, rfl, based⟩
  | leave =>
    cases typed with
    | leave e => exact ⟨_, e, based⟩
  | again =>
    cases typed with
    | again e => exact ⟨_, e, based⟩
  | ret =>
    cases typed with
    | ret => exact ⟨_, rfl, based⟩
  | frame _ hx ih =>
    cases typed with
    | frame body =>
      -- the body counts its stacks from its own start, and what was there is put back under them
      obtain ⟨Δ₁, e, based₁⟩ := ih routines body (Based.self h _)
      obtain rfl : [] = Δ₁ := by rcases hx with rfl | rfl <;> exact Option.some.inj e
      exact ⟨_, rfl, Based.unshift (A := []) based based₁⟩
  | region entry _ hx finish _ ih =>
    cases typed with
    | region enters body finishes =>
      exact ⟨_, rfl, (finishes.called limit enters based entry hx
        (fun _ based => ih (.cons body finishes routines) body based) finish).1⟩
  | reenter found entry _ hx finish _ ih =>
    cases typed with
    | reenter found' enters =>
      -- what runs is the body of a region around this place, inside the regions that were open
      -- there
      obtain ⟨routine, here, body, finishes⟩ := routines.get found'
      rw [found] at here
      cases here
      exact ⟨_, rfl, (finishes.called limit enters based entry hx
        (fun _ based => ih (routines.drop _) body based) finish).1⟩

/-! ## Reading a run as an execution -/

/-- Whether an action is a write. -/
def Action.Writes (a : Action) : Prop := ∃ st slot index value, a = .set st slot index value

/-- Disciplined actions are writes. -/
theorem Touches.writes {a : Action} (typed : Touches S a Δ Δ') : a.Writes := by
  cases typed <;> exact ⟨_, _, _, _, rfl⟩

/-- So are lists of them. -/
theorem TouchesAll.writes {actions : List Action} (typed : TouchesAll S actions Δ Δ') :
    ∀ a ∈ actions, a.Writes := by
  induction typed with
  | nil => simp
  | cons one _ ih =>
    intro a ha
    rcases List.mem_cons.1 ha with rfl | ha
    · exact one.writes
    · exact ih a ha

/-- The entry of a routine consists of writes. -/
theorem Enters.writes {type : RoutineType} {number : Value} {entry : List Action}
    (enters : Enters S type number entry Δ) : ∀ a ∈ entry, a.Writes := by
  obtain ⟨first, x, rfl, -, typed⟩ := enters.split
  intro a ha
  rcases List.mem_append.1 ha with ha | ha
  · exact typed.writes a ha
  · rw [List.mem_singleton.1 ha]
    exact ⟨_, _, _, _, rfl⟩

/-- So does its end. -/
theorem Finishes.writes {type : RoutineType} {finish : List Action} {address : Element}
    (finishes : Finishes S type finish address) : ∀ a ∈ finish, a.Writes := by
  intro a ha
  rw [finishes.actions] at ha
  rcases List.mem_cons.1 ha with rfl | ha
  · exact ⟨_, _, _, _, rfl⟩
  · obtain ⟨l, -, rfl⟩ := List.mem_map.1 ha
    exact ⟨_, _, _, _, rfl⟩

section Runs

open Engine.Host (Runs Reaches)

variable {list : ActionList} {n p q pe : Nat} {me : Memory}

/-- A run that is not at the end of the list takes a step. -/
theorem Runs.first {a : Action} (runs : Runs h list n p m pe me) (past : list.get? pe = none)
    (found : list.get? p = some a) :
    ∃ k p' m', n = k + 1 ∧ h.step list p m = some (p', m') ∧ Runs h list k p' m' pe me := by
  cases runs with
  | refl =>
    rw [found] at past
    cases past
  | next one rest => exact ⟨_, _, _, rfl, one, rest⟩

/-- Running through actions does them. -/
theorem Runs.acts {actions : List Action} (writes : ∀ a ∈ actions, a.Writes)
    (runs : Runs h list n p m pe me) (past : list.get? pe = none)
    (here : ActsAt list p actions) :
    ∃ k m', h.acts m actions = some m' ∧ Runs h list k (p + actions.length) m' pe me ∧ k ≤ n := by
  induction actions generalizing n p m with
  | nil => exact ⟨n, m, rfl, runs, Nat.le_refl n⟩
  | cons a rest ih =>
    obtain ⟨k, p', m', rfl, one, runs⟩ := Runs.first runs past here.head
    obtain ⟨st, slot, index, value, rfl⟩ := writes a (by simp)
    simp only [Host.step, here.head, Option.map_eq_some_iff] at one
    obtain ⟨m₁, one, e⟩ := one
    cases e
    obtain ⟨k', m₂, done, runs, le⟩ := ih (fun a ha => writes a (by simp [ha])) runs here.tail
    refine ⟨k', m₂, Option.bind_eq_some_iff.2 ⟨m', one, done⟩, ?_, by omega⟩
    rwa [show p + (Action.set st slot index value :: rest).length = p + 1 + rest.length by
      simp; omega]

/-- Running through a skip takes a step. -/
theorem Runs.skip {t : Nat} (runs : Runs h list n p m pe me) (past : list.get? pe = none)
    (here : SkipAt list p t) : ∃ k, n = k + 1 ∧ Runs h list k t m pe me := by
  obtain ⟨count, found, -⟩ := id here
  obtain ⟨k, p', m', rfl, one, runs⟩ := Runs.first runs past found
  rw [step_skip here] at one
  cases one
  exact ⟨k, rfl, runs⟩

/-- Running through a guard decides it. -/
theorem Runs.guard {exit : Element} {t : Nat} (runs : Runs h list n p m pe me)
    (past : list.get? pe = none) (here : GuardAt list p exit t) :
    ∃ k, n = k + 1 ∧
      (h.guard m exit = some true ∧ Runs h list k t m pe me ∨
        h.guard m exit = some false ∧ Runs h list k (p + 1) m pe me) := by
  obtain ⟨count, found, -⟩ := id here
  obtain ⟨k, p', m', rfl, one, runs⟩ := Runs.first runs past found
  refine ⟨k, rfl, ?_⟩
  cases hg : h.guard m exit with
  | none => simp [Host.step, found, hg] at one
  | some b =>
    cases b with
    | true =>
      rw [step_guard_true here hg] at one
      cases one
      exact Or.inl ⟨rfl, runs⟩
    | false =>
      rw [step_guard_false here hg] at one
      cases one
      exact Or.inr ⟨rfl, runs⟩

/-- Running takes whatever way the code reaches. -/
theorem Runs.reach {t : Nat} (runs : Runs h list n p m pe me) (past : list.get? pe = none)
    (reach : Reaches h list p m t m') : ∃ k, Runs h list k t m' pe me ∧ k ≤ n := by
  obtain ⟨k, part⟩ := reach
  obtain ⟨-, rest⟩ := runs.rest (by simp [Host.step, past]) part
  exact ⟨_, rest, by omega⟩

/-- A body is left at its end or by a return. -/
theorem Targets.exit_body {T : Targets} {x : Exit} {t : Nat} (loops : T.loops = [])
    (e : T.exit q x = some t) (ret : T.ret = q) : (x = .next ∨ x = .ret) ∧ t = q := by
  cases x with
  | next => exact ⟨Or.inl rfl, (Option.some.inj e).symm⟩
  | ret => exact ⟨Or.inr rfl, (Option.some.inj e).symm.trans ret⟩
  | ended => simp [Targets.exit, loops] at e
  | leave k => simp [Targets.exit, loops] at e
  | again k => simp [Targets.exit, loops] at e

/-- A completed run that comes to the start of a tree executes the tree and goes on where its exit
leads. -/
theorem exec_of_runs (limit : h.config.maxArrayLength ≤ 2 ^ 53) (short : list.length ≤ 2 ^ 53)
    (past : list.get? pe = none) (N : Nat) (le : n ≤ N) {T : Targets} {c : Code} {ρ : List Routine}
    {τ : List RoutineType} {L : List LoopType} {R : List Location}
    (runs : Runs h list n p m pe me) (lays : Lays list T p c q)
    (routines : RoutinesAt list T.regions ρ) (types : RoutinesBalanced S ρ τ)
    (typed : Balanced S τ L R Δ c Δ') (based : Based S h base Δ m) :
    ∃ x m' t k, Exec h ρ c m x m' ∧ T.exit q x = some t ∧ Runs h list k t m' pe me ∧ k ≤ n := by
  -- on the number of steps, for rounds and calls, and inside that on the tree
  induction N using Nat.strongRecOn generalizing n p m c T ρ τ L R Δ Δ' base q with
  | ind N ihN =>
    induction c generalizing n p m T ρ τ L R Δ Δ' base q with
    | acts actions =>
      obtain ⟨here, rfl⟩ := lays
      cases typed with
      | acts touched =>
        obtain ⟨k, m', done, runs, le'⟩ := Runs.acts touched.writes runs past here
        exact ⟨.next, m', _, k, .acts done, rfl, runs, le'⟩
    | abort =>
      obtain ⟨found, rfl⟩ := lays
      obtain ⟨k, p', m', rfl, one, -⟩ := Runs.first runs past found
      simp [Host.step, found] at one
    | seq a b iha ihb =>
      obtain ⟨r, first, second⟩ := lays
      cases typed with
      | seq ta tb =>
        obtain ⟨x, m₁, t, k, exec, ht, runs, le₁⟩ := iha le runs first routines types ta based
        by_cases hx : x = .next
        · subst hx
          cases ht
          obtain ⟨Δ₁, e, based₁⟩ := ta.preserved limit exec types based
          cases e
          obtain ⟨x, m₂, t, k', exec', ht, runs, le₂⟩ :=
            ihb (by omega) runs second routines types tb based₁
          exact ⟨x, m₂, t, k', .seq exec exec', ht, runs, by omega⟩
        · exact ⟨x, m₁, t, k, .seq_exit exec hx, (Targets.exit_of_ne_next hx q r).trans ht, runs,
            le₁⟩
    | arm exit body ih =>
      obtain ⟨guard, lays⟩ := lays
      cases typed with
      | arm tbody =>
        obtain ⟨k, rfl, ⟨holds, runs⟩ | ⟨fails, runs⟩⟩ := Runs.guard runs past guard
        · exact ⟨.next, m, q, k, .arm_skip holds, rfl, runs, by omega⟩
        · obtain ⟨x, m₁, t, k', exec, ht, runs, le'⟩ :=
            ih (by omega) runs lays routines types tbody based
          exact ⟨x, m₁, t, k', .arm_body fails exec, ht, runs, by omega⟩
    | choice exit body other ihb iho =>
      obtain ⟨r, guard, lays, skip, lays'⟩ := lays
      cases typed with
      | choice tbody tother =>
        obtain ⟨k, rfl, ⟨holds, runs⟩ | ⟨fails, runs⟩⟩ := Runs.guard runs past guard
        · obtain ⟨x, m₁, t, k', exec, ht, runs, le'⟩ :=
            iho (by omega) runs lays' routines types tother based
          exact ⟨x, m₁, t, k', .choice_other holds exec, ht, runs, by omega⟩
        · obtain ⟨x, m₁, t, k', exec, ht, runs, le'⟩ :=
            ihb (by omega) runs lays routines types tbody based
          by_cases hx : x = .next
          · subst hx
            cases ht
            obtain ⟨k'', rfl, rest⟩ := Runs.skip runs past skip
            exact ⟨.next, m₁, q, k'', .choice_body fails exec, rfl, rest, by omega⟩
          · exact ⟨x, m₁, t, k', .choice_body fails exec,
              (Targets.exit_of_ne_next hx q r).trans ht, runs, by omega⟩
    | loop pass step tail ihp ihs =>
      have whole := lays
      have twhole := typed
      obtain ⟨r, s, lpass, lstep, back, ltail, rfl⟩ := lays
      cases typed with
      | loop tpass tstep ttail =>
        obtain ⟨x, m₁, t, k, exec, ht, runs, le₁⟩ := ihp le runs lpass routines types tpass based
        obtain ⟨Δ₁, e, based₁⟩ := tpass.preserved limit exec types based
        -- from the end of a pass: the step, and then the loop once more
        have round (hx : x = .next ∨ x = .again 0) (here : t = r) (hΔ : Δ₁ = Δ) :
            ∃ y m' t k, Exec h ρ (.loop pass step tail) m y m' ∧
              T.exit (s + 1 + tail.length) y = some t ∧ Runs h list k t m' pe me ∧ k ≤ n := by
          subst here hΔ
          obtain ⟨y, m₂, t', k', exec', ht', runs, le₂⟩ :=
            ihs (by omega) runs lstep routines types tstep based₁
          by_cases hy : y = .next
          · subst hy
            cases ht'
            obtain ⟨Δ₂, e', based₂⟩ := tstep.preserved limit exec' types based₁
            cases e'
            obtain ⟨k'', rfl, rest⟩ := Runs.skip runs past back
            obtain ⟨z, m₃, t'', k₃, exec'', ht'', runs, le₃⟩ :=
              ihN k'' (by omega) (Nat.le_refl _) rest whole routines types twhole based₂
            exact ⟨z, m₃, t'', k₃, .loop_round exec hx exec' exec'', ht'', runs, by omega⟩
          · exact ⟨y, m₂, t', k', .loop_step exec hx exec' hy,
              (Targets.exit_of_ne_next hy _ _).trans ht', runs, by omega⟩
        have beyond {y : Exit} (hy : x.beyond = some y) :
            ∃ y m' t k, Exec h ρ (.loop pass step tail) m y m' ∧
              T.exit (s + 1 + tail.length) y = some t ∧ Runs h list k t m' pe me ∧ k ≤ n :=
          ⟨y, m₁, t, k, .loop_beyond exec hy, (Targets.exit_beyond hy _ _).symm.trans ht, runs, le₁⟩
        cases x with
        | next => exact round (Or.inl rfl) (Option.some.inj ht).symm (Option.some.inj e).symm
        | ended =>
          cases ht
          cases e
          obtain ⟨k', m₂, done, runs, le₂⟩ := Runs.acts ttail.writes runs past ltail
          exact ⟨.next, m₂, _, k', .loop_over exec done, rfl, runs, by omega⟩
        | leave j =>
          cases j with
          | zero =>
            cases ht
            exact ⟨.next, m₁, _, k, .loop_leave exec, rfl, runs, le₁⟩
          | succ j => exact beyond rfl
        | again j =>
          cases j with
          | zero => exact round (Or.inr rfl) (Option.some.inj ht).symm (Option.some.inj e).symm
          | succ j => exact beyond rfl
        | ret => exact beyond rfl
    | test exit =>
      obtain ⟨t, ht, guard, rfl⟩ := lays
      obtain ⟨k, rfl, ⟨holds, runs⟩ | ⟨fails, runs⟩⟩ := Runs.guard runs past guard
      · exact ⟨.ended, m, t, k, .test_over holds, ht, runs, by omega⟩
      · exact ⟨.next, m, _, k, .test_next fails, rfl, runs, by omega⟩
    | leave j =>
      obtain ⟨t, ht, skip, rfl⟩ := lays
      obtain ⟨k, rfl, rest⟩ := Runs.skip runs past skip
      exact ⟨.leave j, m, t, k, .leave, ht, rest, by omega⟩
    | again j =>
      obtain ⟨t, ht, skip, rfl⟩ := lays
      obtain ⟨k, rfl, rest⟩ := Runs.skip runs past skip
      exact ⟨.again j, m, t, k, .again, ht, rest, by omega⟩
    | ret =>
      obtain ⟨skip, rfl⟩ := lays
      obtain ⟨k, rfl, rest⟩ := Runs.skip runs past skip
      exact ⟨.ret, m, _, k, .ret, rfl, rest, by omega⟩
    | frame body ih =>
      cases typed with
      | frame tbody =>
        obtain ⟨x, m₁, t, k, exec, ht, runs, le₁⟩ :=
          ih le runs lays routines types tbody (Based.self h m)
        obtain ⟨hx, rfl⟩ := Targets.exit_body rfl ht rfl
        exact ⟨.next, m₁, t, k, .frame exec hx, rfl, runs, le₁⟩
    | region entry body finish address ih =>
      obtain ⟨sites, r, lentry, lbody, lfinish, dispatch⟩ := lays
      cases typed with
      | region enters tbody finishes =>
        obtain ⟨k, m₁, done, runs, le₁⟩ := Runs.acts enters.writes runs past lentry
        have entered := (enters.based limit finishes.ret done based).1
        have inside : RoutinesAt list (⟨p + entry.length, sites⟩ :: T.regions)
          (⟨body, finish, address⟩ :: ρ) := .cons lbody lfinish dispatch routines
        obtain ⟨x, m₂, t, k', exec, ht, runs, le₂⟩ :=
          ih (by omega) runs lbody inside (.cons tbody finishes types) tbody entered.protect
        obtain ⟨hx, rfl⟩ := Targets.exit_body rfl ht rfl
        obtain ⟨k'', m₃, done', runs, le₃⟩ := Runs.acts finishes.writes runs past lfinish
        obtain ⟨-, found⟩ := finishes.called limit enters based done hx
          (fun _ based => tbody.preserved limit exec (.cons tbody finishes types) based) done'
        have := dispatch.length_le
        obtain ⟨k₃, runs, le₄⟩ := Runs.reach runs past
          (reaches_dispatch_end (by omega) dispatch found)
        exact ⟨.next, m₃, q, k₃, .region done exec hx done' found, rfl, runs, by omega⟩
    | reenter index number entry =>
      obtain ⟨region, here, site, lentry, skip, -⟩ := lays
      cases typed with
      | reenter found enters =>
        obtain ⟨routine, hroutine, tbody, finishes⟩ := types.get found
        obtain ⟨region', r, q', here', lbody, lfinish, dispatch⟩ := routines.get hroutine
        rw [here] at here'
        cases here'
        obtain ⟨k, m₁, done, runs, le₁⟩ := Runs.acts enters.writes runs past lentry
        have entered := (enters.based limit finishes.ret done based).1
        obtain ⟨k, rfl, rest⟩ := Runs.skip runs past skip
        -- the body is run again from its start, with fewer steps to go
        obtain ⟨x, m₂, t, k', exec, ht, runs, le₂⟩ :=
          ihN k (by omega) (Nat.le_refl _) rest lbody (routines.drop index) (types.drop index)
            tbody entered.protect
        obtain ⟨hx, rfl⟩ := Targets.exit_body rfl ht rfl
        obtain ⟨k'', m₃, done', runs, le₃⟩ := Runs.acts finishes.writes runs past lfinish
        obtain ⟨-, address⟩ := finishes.called limit enters based done hx
          (fun _ based => tbody.preserved limit exec (types.drop index) based) done'
        have := dispatch.length_le
        have address' := address
        rw [show number = 0 + number by omega] at address'
        obtain ⟨k₃, runs, le₄⟩ := Runs.reach runs past
          (reaches_dispatch_site (by omega) dispatch address' site)
        exact ⟨.next, m₃, q, k₃, .reenter hroutine done exec hx done' address, rfl, runs, by omega⟩

end Runs

end SkipCode
