import SkipCode.Proofs.Issued
import SkipCode.Proofs.Outcomes

/-!
# The accounts of the pools

At every point of a lowering each slot that an open scope owns, and each slot of the storage of
instances, is a slot of its own that is live in its pool (`UnitState.Accounted`). All that lowering
is composed of keeps that, whatever its outcome, and where it succeeds no slot gets lost on the way.

* `SlotPool.Accounts`: what is kept for one pool, with the number of slots that nobody will give
  back;
* `Lower.Visits`: the states that a run goes through, those in the middle of a step among them;
* `History.slots_accounted`: the accounts are right wherever a run passes, and behind a unit that
  succeeds a pool has as many more live slots as the storage of instances has got from it.
-/

namespace SkipCode

open Lower
open Source (ClassDecl Program Span Stmt)

/-! ## One pool -/

/-- The slots of `taken` are on loan. With reuse all others are free, but for some that are lost. -/
structure SlotPool.Accounts (p : SlotPool) (lost : Nat) (taken : List UInt32) : Prop where
  lends : p.Lends taken
  total : p.reuse = true → p.next.toNat = p.free.length + taken.length + lost

namespace SlotPool.Accounts

variable {p q : SlotPool} {lost : Nat} {taken taken' : List UInt32} {owner : String} {slot : UInt32}

/-- Accounts do not depend on an order. -/
theorem perm (h : p.Accounts lost taken) (e : taken.Perm taken') : p.Accounts lost taken' := by
  have all := e.append_right p.free
  refine ⟨⟨all.nodup h.lends.nodup, fun slot mem => h.lends.below slot (all.mem_iff.2 mem)⟩, ?_⟩
  rw [← e.length_eq]
  exact h.total

/-- A slot that was handed out is accounted for. -/
theorem allocate (h : p.Accounts lost taken) (ok : p.allocate owner = .ok (slot, q)) :
    q.Accounts lost (slot :: taken) := by
  refine ⟨h.lends.allocate ok, ?_⟩
  -- the slot was free, or it is one more that was handed out
  obtain ⟨rest, free, rfl⟩ | ⟨free, room, rfl, rfl⟩ := allocate_ok ok
  · intro reuse
    have total := h.total reuse
    rw [free, List.length_cons] at total
    show p.next.toNat = rest.length + (taken.length + 1) + lost
    omega
  · intro reuse
    have total := h.total reuse
    show (p.next + 1).toNat = p.free.length + (taken.length + 1) + lost
    rw [toNat_next_succ room]
    omega

/-- A slot that was given back is accounted for no longer. -/
theorem release (h : p.Accounts lost (slot :: taken)) (ok : p.release slot = .ok q) :
    q.Accounts lost taken := by
  obtain ⟨q', ok', lends⟩ := h.lends.release
  cases ok'.symm.trans ok
  refine ⟨lends, ?_⟩
  obtain ⟨noReuse, rfl⟩ | ⟨reuse, -, -, rfl⟩ := release_ok_iff.1 ok
  · intro reuse
    cases noReuse.symm.trans reuse
  · have total := h.total reuse
    rw [List.length_cons] at total
    intro _
    show p.next.toNat = (insertSorted slot p.free).length + taken.length + lost
    rw [(insertSorted_perm slot p.free).length_eq, List.length_cons]
    omega

/-- Loans that are forgotten are lost. -/
theorem forget {some rest : List UInt32} (h : p.Accounts lost (some ++ rest)) :
    p.Accounts (lost + some.length) rest := by
  have sub : (rest ++ p.free).Sublist (some ++ rest ++ p.free) :=
    (List.sublist_append_right some rest).append_right p.free
  refine ⟨⟨sub.nodup h.lends.nodup, fun slot mem => h.lends.below slot (sub.subset mem)⟩, ?_⟩
  intro reuse
  have total := h.total reuse
  rw [List.length_append] at total
  omega

/-- Whatever is on loan, there is a number of slots that are lost. -/
theorem of_lends (h : p.Lends taken) : ∃ lost, p.Accounts lost taken := by
  have inside : (taken ++ p.free).map UInt32.toNat ⊆ List.range p.next.toNat := by
    intro n mem
    obtain ⟨slot, known, rfl⟩ := List.mem_map.1 mem
    exact List.mem_range.2 (UInt32.lt_iff_toNat_lt.1 (h.below slot known))
  -- slots that differ are no more than there are numbers below the next one
  have distinct : ((taken ++ p.free).map UInt32.toNat).Nodup :=
    h.nodup.map fun a b same => UInt32.toNat_inj.1 same
  have few := (List.subperm_of_subset distinct inside).length_le
  rw [List.length_map, List.length_append, List.length_range] at few
  exact ⟨p.next.toNat - (taken.length + p.free.length), h, fun _ => by omega⟩

/-- With reuse the live slots are those taken and those lost. -/
theorem live_eq (h : p.Accounts lost taken) (reuse : p.reuse = true) :
    p.live.toNat = taken.length + lost := by
  have total := h.total reuse
  have bound := p.next.toNat_lt
  have free : (UInt32.ofNat p.free.length).toNat = p.free.length :=
    UInt32.toNat_ofNat_of_lt' (by show _ < 2 ^ 32; omega)
  rw [SlotPool.live, UInt32.toNat_sub_of_le _ _ (UInt32.le_iff_toNat_le.2 (by omega)), free]
  omega

end SlotPool.Accounts

/-! ## A session -/

/-- The accounts of both pools. -/
def Session.Accounts (σ : Session) (lost : Pool → Nat) (taken : List (Pool × UInt32)) : Prop :=
  ∀ pool, (σ.slotPool pool).Accounts (lost pool) (slotsIn pool taken)

namespace Session.Accounts

variable {σ τ : Session} {lost : Pool → Nat} {taken taken' rest : List (Pool × UInt32)}
  {pool : Pool} {slot : UInt32}

/-- Accounts lend what they hold. -/
theorem lends (h : σ.Accounts lost taken) : σ.Lends taken := fun pool => (h pool).lends

/-- They do not depend on an order. -/
theorem perm (h : σ.Accounts lost taken) (e : taken.Perm taken') : σ.Accounts lost taken' :=
  fun pool => (h pool).perm (e.filterMap _)

/-- They depend on the pools alone. -/
theorem congr (h : σ.Accounts lost taken) (same : ∀ pool, τ.slotPool pool = σ.slotPool pool) :
    τ.Accounts lost taken := fun pool => (same pool).symm ▸ h pool

/-- Handing out adds to what is held. -/
theorem allocate {owner : String} {p : SlotPool} (h : σ.Accounts lost taken)
    (ok : (σ.slotPool pool).allocate owner = .ok (slot, p)) :
    (σ.setSlotPool p pool).Accounts lost ((pool, slot) :: taken) := by
  intro other
  rw [slotPool_setSlotPool, Session.Lends.slotsIn_cons]
  by_cases same : other = pool
  · subst same
    rw [if_pos rfl, if_pos rfl]
    exact (h other).allocate ok
  · rw [if_neg same, if_neg (Ne.symm same)]
    exact h other

/-- Giving back takes from it. -/
theorem free {o : Pool × UInt32} (h : σ.Accounts lost (o :: taken)) (freed : σ.free o = .ok τ) :
    τ.Accounts lost taken := by
  obtain ⟨p, released, e⟩ := except_bind_ok.1 freed
  cases e
  intro other
  have here := h other
  rw [Session.Lends.slotsIn_cons] at here
  rw [slotPool_setSlotPool]
  by_cases same : other = o.1
  · subst same
    rw [if_pos rfl] at here ⊢
    exact here.release released
  · rw [if_neg (Ne.symm same)] at here
    rw [if_neg same]
    exact here

/-- Giving back all of it takes all. -/
theorem freeAll (h : σ.Accounts lost (taken ++ rest))
    (freed : taken.foldlM Session.free σ = .ok τ) :
    τ.Accounts lost rest := by
  induction taken generalizing σ with
  | nil =>
    cases freed
    exact h
  | cons o taken ih =>
    rw [List.foldlM_cons] at freed
    obtain ⟨σ', first, others⟩ := except_bind_ok.1 freed
    exact ih (h.free first) others

/-- What is forgotten counts as lost. -/
theorem forget (h : σ.Accounts lost (taken ++ rest)) :
    σ.Accounts (fun pool => lost pool + (slotsIn pool taken).length) rest := by
  intro pool
  have here := h pool
  rw [slotsIn, List.filterMap_append] at here
  exact here.forget

end Session.Accounts

/-- Giving slots back leaves class storage alone. -/
theorem Session.classData_freeAll {σ τ : Session} {taken : List (Pool × UInt32)}
    (freed : taken.foldlM Session.free σ = .ok τ) : τ.classData = σ.classData := by
  induction taken generalizing σ with
  | nil =>
    cases freed
    rfl
  | cons o taken ih =>
    rw [List.foldlM_cons] at freed
    obtain ⟨σ', first, others⟩ := except_bind_ok.1 freed
    obtain ⟨p, -, e⟩ := except_bind_ok.1 first
    cases e
    rw [ih others, Session.classData_setSlotPool]

/-- The slots of the storage of instances. -/
def ClassData.owned (d : ClassData) : List (Pool × UInt32) := d.vars.map fun v => (v.pool, v.slot)

/-- A session with another storage of instances, and the pool that this takes its slots from. -/
def Session.withStorage (σ : Session) (storage : ClassStorage) : Session :=
  { σ with classData := storage.data, global := storage.pool }

/-- The storage of instances notes all that it takes. -/
theorem ClassStorage.Draws.accounts {s t : ClassStorage} {σ : Session} {lost : Pool → Nat}
    {owned : List (Pool × UInt32)} (h : s.Draws t)
    (start : (σ.withStorage s).Accounts lost (owned ++ s.data.owned)) :
    (σ.withStorage t).Accounts lost (owned ++ t.data.owned) := by
  induction h with
  | @keep t pool data =>
    rw [data]
    refine start.congr fun other => ?_
    cases other with
    | global => exact pool
    | actor => rfl
  | @take t u owner slot first taken noted ih =>
    have more : ((σ.withStorage t).setSlotPool u.pool .global).Accounts lost
        ((.global, slot) :: (owned ++ t.data.owned)) := ih.allocate taken
    have perm : ((.global, slot) :: (owned ++ t.data.owned)).Perm (owned ++ u.data.owned) :=
      List.perm_middle.symm.trans ((noted.map fun v : IndexedVar =>
        (v.pool, v.slot)).symm.append_left owned)
    refine (more.perm perm).congr fun other => ?_
    cases other <;> rfl

/-- Drawing storage only adds variables. -/
theorem ClassStorage.Draws.created {s t : ClassStorage} {old : List IndexedVar} (h : s.Draws t)
    (start : ∃ created, s.data.vars.Perm (created ++ old)) :
    ∃ created, t.data.vars.Perm (created ++ old) := by
  induction h with
  | keep _ data => exact data ▸ start
  | take _ _ noted ih =>
    obtain ⟨created, before⟩ := ih
    exact ⟨_ :: created, noted.trans (before.cons _)⟩

/-! ## A unit -/

/-- The slot that a variable has for itself. -/
def IndexedVar.place? (v : IndexedVar) : Option (Pool × UInt32) :=
  if v.slot = placeholderSlot then none else some (v.pool, v.slot)

/-- The slot that belongs to what a name stands for. -/
def Variable.place? : Variable → Option (Pool × UInt32)
  | .indexed v => v.place?
  | .recursive v => v.stack.place?
  | .reference _ => none

/-- The slots of what the names of a scope stand for. -/
def Scope.bound (scope : Scope) :
    List (Pool × UInt32) := scope.bindings.filterMap fun b => b.2.place?

/-- The slots that are taken for the open scopes and for the storage of instances. -/
def UnitState.taken (s : UnitState) : List (Pool × UInt32) := s.owned ++ s.session.classData.owned

/-- The accounts of both pools are right, and a scope owns a slot for each variable that a name in
it stands for. -/
structure UnitState.Accounted (lost : Pool → Nat) (s : UnitState) : Prop where
  accounts : s.session.Accounts lost s.taken
  bound : ∀ scope ∈ s.scopes, scope.bound.Sublist scope.owned

namespace UnitState.Accounted

variable {lost : Pool → Nat} {s t : UnitState}

/-- A unit's accounts depend on its session and its scopes. -/
theorem congr (h : s.Accounted lost) (session : t.session = s.session)
    (scopes : t.scopes = s.scopes) :
    t.Accounted lost := by
  refine ⟨?_, scopes ▸ h.bound⟩
  rw [taken, owned, session, scopes]
  exact h.accounts

/-- The innermost scope is another one that owns the same. -/
theorem scope {first scope : Scope} {rest : List Scope} (h : s.Accounted lost)
    (e : s.scopes = first :: rest) (owned : scope.owned = first.owned)
    (bound : scope.bound.Sublist scope.owned) :
    ({ s with scopes := scope :: rest } : UnitState).Accounted lost := by
  refine ⟨?_, fun other mem => ?_⟩
  · have accounts := h.accounts
    rw [UnitState.taken, UnitState.owned, e, List.flatMap_cons, ← owned] at accounts
    exact accounts
  · rcases List.mem_cons.1 mem with rfl | mem
    · exact bound
    · exact h.bound other (e ▸ List.mem_cons_of_mem _ mem)

end UnitState.Accounted

/-- A slot that was just taken: the innermost scope owns it, and no name stands for it yet. Where
there was none left it is the placeholder. -/
structure UnitState.Offers (lost : Pool → Nat) (pool : Pool) (slot : UInt32) (s : UnitState) :
    Prop where
  accounted : s.Accounted lost
  fresh : slot = placeholderSlot ∨ ∃ scope rest owned, s.scopes = scope :: rest ∧
    scope.owned = (pool, slot) :: owned ∧ scope.bound.Sublist owned

namespace Lower

variable {α β : Type} {lost : Pool → Nat} {pool : Pool} {slot : UInt32} {s t : UnitState}

/-- A step behind which the accounts are right whatever its outcome, and that loses no slot when it
succeeds. -/
def KeepsAccounts (m : Lower α) : Prop :=
  ∀ (s : UnitState) r t lost, run m s = some (r, t) → s.Accounted lost →
    ∃ lost', t.Accounted lost' ∧ ∀ a, r = .ok a → lost' = lost

/-- A step of a declaration, behind which the accounts are right. -/
def Settles (pool : Pool) (slot : UInt32) (m : Lower α) : Prop :=
  ∀ lost, ∀ (s : UnitState) r t, run m s = some (r, t) → s.pool = pool → s.Offers lost pool slot →
    t.Accounted lost

/-- A change of the innermost scope needs one to be open. -/
theorem run_modifyScope_cases {f : Scope → Scope} {r : Except LowerError Unit}
    (h : run (modifyScope f) s = some (r, t)) :
    (∃ scope rest, s.scopes = scope :: rest ∧ r = .ok () ∧
      t = { s with scopes := f scope :: rest }) ∨
      ∃ e, s.scopes = [] ∧ r = .error e ∧ t = s := by
  rw [modifyScope, run_bind, run_get] at h
  dsimp only at h
  split at h
  · next scope rest scopes =>
    cases h
    exact Or.inl ⟨scope, rest, scopes, rfl, rfl⟩
  · next scopes =>
    cases h
    exact Or.inr ⟨_, scopes, rfl, rfl⟩

/-- What the allocation of a slot can do. -/
theorem run_allocate_cases {owner : String} {r : Except LowerError UInt32}
    (h : run (allocate owner) s = some (r, t)) :
    (∃ slot p, (s.session.slotPool s.pool).allocate owner = .ok (slot, p) ∧
      ((∃ scope rest, s.scopes = scope :: rest ∧ r = .ok slot ∧
          t = { s with
            session := s.session.setSlotPool p s.pool
            scopes := { scope with owned := (s.pool, slot) :: scope.owned } :: rest }) ∨
        ∃ e, s.scopes = [] ∧ r = .error e ∧ t =
          { s with session := s.session.setSlotPool p s.pool })) ∨
      ∃ e, (s.session.slotPool s.pool).allocate owner = .error e ∧ r = .ok placeholderSlot ∧
        t = { s with deferred := e.withSpan s.span :: s.deferred } := by
  rw [allocate, run_bind, run_get] at h
  dsimp only at h
  split at h
  · next slot p taken =>
    refine Or.inl ⟨slot, p, taken, ?_⟩
    rw [run_bind, run_set] at h
    obtain ⟨e, failed, rfl⟩ | ⟨_, u, owned, h⟩ := run_bind_cases h
    · obtain ⟨_, _, -, e, -⟩ | ⟨e, scopes, same, rfl⟩ := run_modifyScope_cases failed
      · cases e
      · cases same
        exact Or.inr ⟨e, scopes, rfl, rfl⟩
    · cases h
      obtain ⟨scope, rest, scopes, -, rfl⟩ | ⟨_, _, e, -⟩ := run_modifyScope_cases owned
      · exact Or.inl ⟨scope, rest, scopes, rfl, rfl⟩
      · cases e
  · next e failed =>
    rw [run_bind, run_set] at h
    cases h
    exact Or.inr ⟨e, failed, rfl, rfl⟩

/-- What the closing of a scope can do: its pops may fail, and then its slots are given back. -/
theorem run_closeScope_cases {r : Except LowerError Unit} (h : run closeScope s = some (r, t)) :
    (∃ e, r = .error e ∧ t = s) ∨ ∃ scope rest, s.scopes = scope :: rest ∧
      ((∃ e, r = .error e ∧ UnitState.SameSlots { s with scopes := rest } t) ∨
        ∃ u, UnitState.SameSlots { s with scopes := rest } u ∧
          run (scope.owned.forM fun (pool, slot) => freeSlot pool slot) u = some (r, t)) := by
  rw [closeScope, run_bind, run_get] at h
  dsimp only at h
  split at h
  · cases h
    exact Or.inl ⟨_, rfl, rfl⟩
  · next scope rest scopes =>
    rw [run_bind, run_set] at h
    dsimp only at h
    have pops : Aside (scope.exits.forM fun var => do
        emit (← (var.exit none : Except LowerError _)).1) :=
      Aside.composes.forM fun _ _ => .bind (.lift _) fun _ => .modifyList _
    refine Or.inr ⟨scope, rest, scopes, ?_⟩
    obtain ⟨e, failed, rfl⟩ | ⟨a, u, popped, freed⟩ := run_bind_cases h
    · exact Or.inl ⟨e, rfl, pops _ _ _ failed⟩
    · exact Or.inr ⟨u, pops _ _ _ popped, freed⟩

/-- A slot that is taken is owned by the innermost scope. -/
theorem accounted_allocate {owner : String} {r : Except LowerError UInt32}
    (h : run (allocate owner) s = some (r, t)) (accounted : s.Accounted lost) :
    (∃ lost', t.Accounted lost') ∧ ∀ slot, r = .ok slot →
      t.pool = s.pool ∧ t.Offers lost s.pool slot := by
  obtain ⟨slot, p, taken, ⟨scope, rest, scopes, rfl, rfl⟩ | ⟨e, scopes, rfl, rfl⟩⟩ | ⟨e, -,
    rfl, rfl⟩ :=
    run_allocate_cases h
  · have bound := accounted.bound scope (scopes ▸ List.mem_cons_self)
    have after : UnitState.Accounted lost { s with
        session := s.session.setSlotPool p s.pool
        scopes := { scope with owned := (s.pool, slot) :: scope.owned } :: rest } := by
      refine ⟨?_, fun other mem => ?_⟩
      · have more := accounted.accounts.allocate taken
        rw [UnitState.taken, UnitState.owned, scopes] at more
        rw [UnitState.taken, UnitState.owned, Session.classData_setSlotPool]
        exact more
      · rcases List.mem_cons.1 mem with rfl | mem
        · exact bound.cons _
        · exact accounted.bound other (scopes ▸ List.mem_cons_of_mem _ mem)
    refine ⟨⟨lost, after⟩, fun slot' e => ⟨rfl, after, Or.inr ?_⟩⟩
    cases e
    exact ⟨_, rest, scope.owned, rfl, rfl, bound⟩
  · -- nobody owns the slot, so it is lost
    have more : (s.session.setSlotPool p s.pool).Accounts lost ([(s.pool, slot)] ++ s.taken) :=
      accounted.accounts.allocate taken
    refine ⟨⟨fun pool => lost pool + (slotsIn pool [(s.pool, slot)]).length, ?_, accounted.bound⟩,
      fun _ e => by cases e⟩
    rw [UnitState.taken, Session.classData_setSlotPool]
    exact more.forget
  · have after : UnitState.Accounted lost { s with deferred := e.withSpan s.span :: s.deferred } :=
      accounted.congr rfl rfl
    refine ⟨⟨lost, after⟩, fun slot e => ⟨rfl, after, ?_⟩⟩
    cases e
    exact Or.inl rfl

namespace KeepsAccounts

/-- What leaves session and scopes aside keeps accounts. -/
theorem aside {m : Lower α} (hm : Aside m) : KeepsAccounts m := by
  intro s r t lost h accounted
  have same := hm s r t h
  exact ⟨lost, accounted.congr same.session same.scopes, fun _ _ => rfl⟩

/-- Steps that keep accounts compose. -/
theorem bind {m : Lower α} {f : α → Lower β} (hm : KeepsAccounts m)
    (hf : ∀ a, KeepsAccounts (f a)) :
    KeepsAccounts (m >>= f) := by
  intro s r t lost h accounted
  obtain ⟨e, first, rfl⟩ | ⟨a, u, first, second⟩ := run_bind_cases h
  · obtain ⟨lost', after, -⟩ := hm s _ t lost first accounted
    exact ⟨lost', after, nofun⟩
  · obtain ⟨lost', after, kept⟩ := hm s _ u lost first accounted
    obtain rfl := kept a rfl
    exact hf a u r t lost' second after

/-- A span keeps them. -/
theorem located {m : Lower α} (span : Span) (hm : KeepsAccounts m) :
    KeepsAccounts (Lower.located span m) := by
  intro s r t lost h accounted
  obtain ⟨x, u, inside, rfl, rfl⟩ := run_located h
  obtain ⟨lost', after, kept⟩ := hm _ _ _ lost inside (accounted.congr rfl rfl)
  refine ⟨lost', after.congr rfl rfl, fun a e => ?_⟩
  cases x with
  | error _ => cases e
  | ok b => exact kept b rfl

/-- So does opening a scope. -/
theorem openScope : KeepsAccounts Lower.openScope := by
  intro s r t lost h accounted
  cases h
  refine ⟨lost, ⟨accounted.accounts, fun scope mem => ?_⟩, fun _ _ => rfl⟩
  rcases List.mem_cons.1 mem with rfl | mem
  · exact .slnil
  · exact accounted.bound scope mem

/-- A scope that is closed gives back what it owns. Where that fails it is lost. -/
theorem closeScope : KeepsAccounts Lower.closeScope := by
  intro s r t lost h accounted
  obtain ⟨e, rfl, rfl⟩ | ⟨scope, rest, scopes, ended⟩ := run_closeScope_cases h
  · exact ⟨lost, accounted, fun _ e => by cases e⟩
  · have owned : s.taken =
      scope.owned ++ (rest.flatMap Scope.owned ++ s.session.classData.owned) := by
      rw [UnitState.taken, UnitState.owned, scopes, List.flatMap_cons, List.append_assoc]
    have bound : ∀ other ∈ rest, other.bound.Sublist other.owned := fun other mem =>
      accounted.bound other (scopes ▸ List.mem_cons_of_mem _ mem)
    have accounts : s.session.Accounts lost
        (scope.owned ++ (rest.flatMap Scope.owned ++ s.session.classData.owned)) :=
      owned ▸ accounted.accounts
    obtain ⟨e, rfl, same⟩ | ⟨u, same, freed⟩ := ended
    · -- the pops fail before a slot is given back
      refine ⟨_, UnitState.Accounted.congr (s := { s with scopes := rest }) ⟨accounts.forget, bound⟩
        same.session same.scopes, fun _ e => by cases e⟩
    · have session : u.session = s.session := same.session
      obtain ⟨σ, given, -⟩ := accounts.lends.freeAll
      rw [run_freeAll (session ▸ given)] at freed
      cases freed
      have classData := Session.classData_freeAll given
      refine ⟨lost, ⟨?_, same.scopes ▸ bound⟩, fun _ _ => rfl⟩
      show σ.Accounts lost (u.scopes.flatMap Scope.owned ++ σ.classData.owned)
      rw [same.scopes, classData]
      exact accounts.freeAll given

/-- A name is bound to what has no slot of its own. -/
theorem bindReference (name : String) (e : Element) :
    KeepsAccounts (Lower.bind name (.reference e)) := by
  intro s r t lost h accounted
  obtain ⟨scope, rest, scopes, -, rfl⟩ | ⟨e, -, rfl, rfl⟩ := run_modifyScope_cases h
  · have bound := accounted.bound scope (scopes ▸ List.mem_cons_self)
    exact ⟨lost, accounted.scope scopes rfl bound, fun _ _ => rfl⟩
  · exact ⟨lost, accounted, nofun⟩

/-- So does making class storage in order. -/
theorem onStorage {m : ClassStorage.Step α} (orders : ClassStorage.Orders m) :
    KeepsAccounts (Lower.onStorage m) := by
  intro s r t lost h accounted
  cases h
  exact ⟨lost, ⟨(orders _ _ _ rfl).accounts (σ := s.session) accounted.accounts, accounted.bound⟩,
    fun _ _ => rfl⟩

end KeepsAccounts

/-! ## Declarations -/

namespace Settles

/-- What leaves scopes aside may stand before a slot is entered. -/
theorem aside {m : Lower α} (hm : Aside m) : Settles pool slot m := by
  intro lost s r t h _ offers
  have same := hm s r t h
  exact offers.accounted.congr same.session same.scopes

/-- A step before the name is bound leaves the slot to it. -/
theorem after {m : Lower α} {f : α → Lower β} (hm : Aside m) (hf : ∀ a, Settles pool slot (f a)) :
    Settles pool slot (m >>= f) := by
  intro lost s r t h here offers
  have moved {u : UnitState} (same : s.SameSlots u) : u.Offers lost pool slot :=
    ⟨offers.accounted.congr same.session same.scopes, same.scopes ▸ offers.fresh⟩
  obtain ⟨e, first, -⟩ | ⟨a, u, first, second⟩ := run_bind_cases h
  · exact (moved (hm _ _ _ first)).accounted
  · have same := hm _ _ _ first
    exact hf a lost u r t second (same.pool.trans here) (moved same)

/-- Settling may depend on the state. -/
theorem get {f : UnitState → Lower α}
    (hf : ∀ s : UnitState, s.pool = pool → Settles pool slot (f s)) :
    Settles pool slot (MonadState.get >>= f) := by
  intro lost s r t h here offers
  rw [run_bind, run_get] at h
  exact hf s here lost s r t h here offers

/-- The stack that has the slot is noted to be popped. -/
theorem exit {f : Unit → Lower α} (v : RecursiveVar) (hf : ∀ a, Settles pool slot (f a)) :
    Settles pool slot (modifyScope (fun scope => { scope with exits := v :: scope.exits }) >>=
      f) := by
  intro lost s r t h here offers
  have noted {u : UnitState} {x : Except LowerError Unit}
      (ran : run (modifyScope fun scope => { scope with exits := v :: scope.exits }) s =
        some (x, u)) :
      u.pool = pool ∧ u.Offers lost pool slot := by
    obtain ⟨scope, rest, scopes, -, rfl⟩ | ⟨_, -, -, rfl⟩ := run_modifyScope_cases ran
    · have bound := offers.accounted.bound scope (scopes ▸ List.mem_cons_self)
      refine ⟨here, offers.accounted.scope scopes rfl bound, offers.fresh.imp_right ?_⟩
      rintro ⟨_, _, owned, e, owns, free⟩
      cases scopes.symm.trans e
      exact ⟨_, rest, owned, rfl, owns, free⟩
    · exact ⟨here, offers⟩
  obtain ⟨e, first, -⟩ | ⟨a, u, first, second⟩ := run_bind_cases h
  · exact (noted first).2.accounted
  · obtain ⟨here', offers'⟩ := noted first
    exact hf a lost u r t second here' offers'

/-- The name that the slot was taken for is bound. -/
theorem bindName {v : Variable} (name : String) (a : α)
    (place : v.place? = if slot = placeholderSlot then none else some (pool, slot)) :
    Settles pool slot (do
      Lower.bind name v
      return a) := by
  intro lost s r t h _ offers
  have done {x : Except LowerError Unit} {u : UnitState}
    (ran : run (Lower.bind name v) s = some (x, u)) :
      u.Accounted lost := by
    obtain ⟨scope, rest, scopes, -, rfl⟩ | ⟨_, -, -, rfl⟩ := run_modifyScope_cases ran
    · have bound := offers.accounted.bound scope (scopes ▸ List.mem_cons_self)
      refine offers.accounted.scope scopes rfl ?_
      show List.Sublist (List.filterMap _ _) scope.owned
      rw [List.filterMap_cons, place]
      by_cases missing : slot = placeholderSlot
      · rw [if_pos missing]
        exact bound
      · rw [if_neg missing]
        obtain ⟨_, _, owned, e, owns, free⟩ := offers.fresh.resolve_left missing
        cases scopes.symm.trans e
        rw [owns]
        exact free.cons_cons _
    · exact offers.accounted
  obtain ⟨e, first, -⟩ | ⟨_, u, first, last⟩ := run_bind_cases h
  · exact done first
  · cases last
    exact done first

end Settles

namespace KeepsAccounts

/-- A slot that is handed out and then settled is accounted for. -/
theorem declared {name : String} {stacked : Bool} {f : UInt32 → Lower α}
    (hf : ∀ pool slot, Settles pool slot (f slot)) :
    KeepsAccounts (allocate name >>= fun slot => addSymbol name slot stacked >>= fun _ =>
      f slot) := by
  intro s r t lost h accounted
  obtain ⟨e, first, rfl⟩ | ⟨slot, u, first, second⟩ := run_bind_cases h
  · obtain ⟨⟨lost', after⟩, -⟩ := accounted_allocate first accounted
    exact ⟨lost', after, nofun⟩
  · obtain ⟨-, offered⟩ := accounted_allocate first accounted
    obtain ⟨here, offers⟩ := offered slot rfl
    rw [run_bind] at second
    -- the slot is noted, which changes no account
    have noted :=
      hf s.pool slot lost _ r t second here ⟨offers.accounted.congr rfl rfl, offers.fresh⟩
    exact ⟨lost, noted, fun _ _ => rfl⟩

/-- So is a temporary's. -/
theorem temp (what : String) : KeepsAccounts (Lower.temp what) :=
  .bind (.aside (Slotless.hiddenName what).aside) fun _ => .declared fun _ _ =>
    .aside (.bind .get fun _ => .pure _)

/-- So is a stack's. -/
theorem declareStack (name : String) (initial : Option Element) :
    KeepsAccounts (Lower.declareStack name initial) := by
  refine .declared fun pool slot => .get fun s here => .after (.modifyList _) fun _ =>
    .exit _ fun _ => ?_
  subst here
  exact .bindName name _ rfl

/-- So is a plain variable's. -/
theorem declarePlain (name : String) (initial : Option Element) :
    KeepsAccounts (Lower.declarePlain name initial) := by
  refine .declared fun pool slot => .get fun s here => ?_
  subst here
  cases initial with
  | none => exact .bindName name _ rfl
  | some value => exact .after (.modifyList _) fun _ => .bindName name _ rfl

end KeepsAccounts

/-- All of lowering keeps the accounts right. -/
theorem Composed.accounts {m : Lower α} (composed : Composed m) : KeepsAccounts m := by
  induction composed with
  | slotless hm => exact .aside hm.aside
  | openScope => exact .openScope
  | closeScope => exact .closeScope
  | bindReference name e => exact .bindReference name e
  | temp what => exact .temp what
  | declareStack name initial => exact .declareStack name initial
  | declarePlain name initial => exact .declarePlain name initial
  | onStorage orders _ => exact .onStorage orders
  | located span _ ih => exact .located span ih
  | bind _ _ first second => exact .bind first second

/-! ## Wherever a run passes -/

/-- The states in the middle of a step that deals with slots. -/
inductive Amidst : {α : Type} → Lower α → UnitState → UnitState → Prop
  /-- A slot was taken and is not noted yet. -/
  | temp {what : String} {s t : UnitState} {r : Except LowerError UInt32} :
      run (hiddenName what >>= allocate) s = some (r, t) → Amidst (temp what) s t
  | declareStack {name : String} {initial : Option Element} {s t : UnitState}
      {r : Except LowerError UInt32} : run (allocate name) s = some (r, t) →
      Amidst (declareStack name initial) s t
  | declarePlain {name : String} {initial : Option Element} {s t : UnitState}
      {r : Except LowerError UInt32} : run (allocate name) s = some (r, t) →
      Amidst (declarePlain name initial) s t
  /-- Some of the slots of a scope that is closed were given back. -/
  | closeScope {s : UnitState} {scope : Scope} {rest : List Scope}
      {given kept : List (Pool × UInt32)}
      {σ : Session} : s.scopes = scope :: rest → scope.owned = given ++ kept →
      given.foldlM Session.free s.session = .ok σ →
      Amidst closeScope s { s with
        scopes := rest, list := s.list.extend (scopePops scope), session := σ }
  /-- Some of the slots that the storage needs were taken. -/
  | onStorage {α : Type} {m : ClassStorage.Step α} {s : UnitState} {storage : ClassStorage} :
      ClassStorage.Draws ⟨s.session.classData, s.session.global, s.list⟩ storage →
      storage.Draws (Attempt.run m ⟨s.session.classData, s.session.global, s.list⟩).2 →
      Amidst (onStorage m) s (s.stored storage)

/-- The states that the run of a step goes through: those before and behind all that it comes to,
and those in the middle of that. -/
inductive Visits {α : Type} (m : Lower α) (s : UnitState) : UnitState → Prop
  | before {β : Type} {m' : Lower β} {u : UnitState} : ComesTo m s m' u → Visits m s u
  | behind {β : Type} {m' : Lower β} {u t : UnitState} {r : Except LowerError β} :
      ComesTo m s m' u → run m' u = some (r, t) → Visits m s t
  | amidst {β : Type} {m' : Lower β} {u t : UnitState} :
      ComesTo m s m' u → Amidst m' u t → Visits m s t

/-- Amid lowering a unit is accounted for, with what was lost so far. -/
theorem Amidst.accounted {m : Lower α} (h : Amidst m s t) (accounted : s.Accounted lost) :
    ∃ lost', t.Accounted lost' := by
  cases h with
  | temp ran =>
    obtain ⟨e, named, -⟩ | ⟨name, u, named, ran⟩ := run_bind_cases ran
    · cases named
    · cases named
      exact (accounted_allocate ran (accounted.congr rfl rfl)).1
  | declareStack ran | declarePlain ran => exact (accounted_allocate ran accounted).1
  | @closeScope _ scope rest given kept σ scopes owned freed =>
    have taken :
      s.taken = given ++ (kept ++ (rest.flatMap Scope.owned ++ s.session.classData.owned)) := by
      rw [UnitState.taken, UnitState.owned, scopes, List.flatMap_cons, owned]
      simp only [List.append_assoc]
    have accounts := accounted.accounts
    rw [taken] at accounts
    refine ⟨_, (accounts.freeAll freed).forget.perm ?_, fun other mem =>
      accounted.bound other (scopes ▸ List.mem_cons_of_mem _ mem)⟩
    rw [UnitState.taken, Session.classData_freeAll freed]
    exact .refl _
  | onStorage taken _ =>
    exact ⟨lost, taken.accounts (σ := s.session) accounted.accounts, accounted.bound⟩

/-- The accounts are right wherever a run passes. -/
theorem Visits.accounted {m : Lower α} (h : Visits m s t) (composed : Composed m)
    (start : s.Accounted lost) : ∃ lost', t.Accounted lost' := by
  have here {β : Type} {m' : Lower β} {u : UnitState} (comes : ComesTo m s m' u) :
      u.Accounted lost := by
    refine comes.holds (P := UnitState.Accounted lost) (fun part ran holds => ?_)
      (fun _ holds => holds.congr rfl rfl) start
    obtain ⟨lost', after, kept⟩ := part.accounts _ _ _ _ ran holds
    exact kept _ rfl ▸ after
  cases h with
  | before comes => exact ⟨lost, here comes⟩
  | behind comes ran =>
    obtain ⟨lost', after, -⟩ := (comes.composed composed).accounts _ _ _ _ ran (here comes)
    exact ⟨lost', after⟩
  | amidst comes amidst => exact amidst.accounted (here comes)

end Lower

/-! ## Units -/

/-- What the lowering of a unit runs in a session: a rule, or the initial values of static fields.
-/
inductive Session.Runs (σ : Session) : (unit : String) → Pool → Lower ActionList → Prop
  | rule (unit : String) (pool : Pool) (body : List Stmt) :
      σ.Runs unit pool (unitBody (lowerStmts (expander (expansionBound σ)) body))
  | statics : σ.Runs Session.staticInitUnit .global
      (unitBody (staticInitials (expander (expansionBound σ))
      (σ.classes.decls.flatMap ClassDecl.staticInitials)))

/-- Every run of a unit is composed of such steps. -/
theorem Session.Runs.composed {σ : Session} {unit : String} {pool : Pool} {m : Lower ActionList}
    (runs : σ.Runs unit pool m) : Composed m := by
  cases runs with
  | rule unit pool body => exact .unitBody (.stmts (.expander _) body)
  | statics => exact .unitBody (.staticInitials (.expander _) _)

/-- The storage of instances has what it had before, and more. -/
instance (old : List IndexedVar) :
    Invariant fun s => ∃ created, s.session.classData.vars.Perm (created ++ old) where
  congr holds session _ _ := session ▸ holds
  declared hf := by
    refine .bind (fun s r t ran holds => ?_) fun slot =>
      .bind (fun s r t ran holds => ?_) fun _ => hf slot
    · obtain ⟨-, -, ⟨_, _, -, session, -⟩ | ⟨_, -, session, -⟩⟩ := run_allocate ran
      · rw [session, Session.classData_setSlotPool]
        exact holds
      · exact session ▸ holds
    · cases ran
      exact holds
  freeSlot pool slot := by
    refine .replace fun s r t ran holds => ?_
    rw [run_bind, run_lift] at ran
    cases freed : (s.session.slotPool pool).release slot with
    | error e =>
      rw [freed] at ran
      cases ran
      exact holds
    | ok p =>
      rw [freed] at ran
      cases ran
      rw [Session.classData_setSlotPool]
      exact holds
  onStorage orders := by
    intro s r t ran holds
    cases ran
    have draws :=
      orders _ _ _
        (rfl : Attempt.run _ (⟨s.session.classData, s.session.global, s.list⟩ : ClassStorage) = _)
    exact draws.created holds

section

variable {config : LowerConfig} {program : Program} {past : List Symbol} {σ : Session}
  {unit : String} {pool : Pool} {m : Lower ActionList}

/-- What is live in a pool. -/
def SlotPool.IsLive (p : SlotPool) (slot : UInt32) : Prop := slot < p.next ∧ slot ∉ p.free

/-- No slot is taken twice, and all that are taken are live. A name of an open scope stands for a
variable with a slot that its scope has taken for it, or with none where there was none left. -/
structure UnitState.Apart (s : UnitState) : Prop where
  distinct : s.taken.Nodup
  live : ∀ o ∈ s.taken, (s.session.slotPool o.1).IsLive o.2
  bound : (s.scopes.flatMap Scope.bound).Sublist s.owned

/-- Slots that are distinct in each pool are distinct. -/
theorem nodup_of_slotsIn {taken : List (Pool × UInt32)} (h : ∀ pool, (slotsIn pool taken).Nodup) :
    taken.Nodup := by
  induction taken with
  | nil => exact .nil
  | cons o taken ih =>
    refine List.nodup_cons.2 ⟨fun mem => ?_, ih fun pool => ?_⟩
    · have first := h o.1
      rw [Session.Lends.slotsIn_cons, if_pos rfl] at first
      exact (List.nodup_cons.1 first).1 (List.mem_filterMap.2 ⟨o, mem, if_pos rfl⟩)
    · have both := h pool
      rw [Session.Lends.slotsIn_cons] at both
      split at both
      · exact (List.nodup_cons.1 both).2
      · exact both

/-- So variables of an accounted unit are apart. -/
theorem UnitState.Accounted.apart {lost : Pool → Nat} {s : UnitState} (h : s.Accounted lost) :
    s.Apart := by
  have lends := h.accounts.lends
  refine ⟨nodup_of_slotsIn fun pool => (List.nodup_append.1 (lends pool).nodup).1,
    fun o mem => ?_, ?_⟩
  · have here : o.2 ∈ slotsIn o.1 s.taken := List.mem_filterMap.2 ⟨o, mem, if_pos rfl⟩
    refine ⟨(lends o.1).below _ (List.mem_append_left _ here), fun free => ?_⟩
    exact (List.nodup_append.1 (lends o.1).nodup).2.2 _ here _ free rfl
  · have all (scopes : List Scope) (each : ∀ scope ∈ scopes, scope.bound.Sublist scope.owned) :
        (scopes.flatMap Scope.bound).Sublist (scopes.flatMap Scope.owned) := by
      induction scopes with
      | nil => exact .slnil
      | cons scope rest ih =>
        rw [List.flatMap_cons, List.flatMap_cons]
        exact (each scope List.mem_cons_self).append
          (ih fun other mem => each other (List.mem_cons_of_mem _ mem))
    exact all s.scopes h.bound

/-- Between two units the storage of instances has slots of its own. -/
theorem History.storage_lends (h : History config program past σ) : σ.Lends σ.classData.owned := by
  have next {σ : Session} {unit : String} {pool : Pool} {m : Lower ActionList}
    {r : Except LowerError ActionList}
      {last : UnitState} (runs : σ.Runs unit pool m)
        (ran : run m (.new σ unit pool) = some (r, last))
      (before : σ.Lends σ.classData.owned) : last.session.Lends last.session.classData.owned := by
    choose lost accounts using fun pool => SlotPool.Accounts.of_lends (before pool)
    have start : (UnitState.new σ unit pool).Accounted lost := ⟨accounts, nofun⟩
    obtain ⟨lost', after, -⟩ := runs.composed.accounts _ _ _ lost ran start
    exact after.accounts.forget.lends
  induction h with
  | start h =>
    obtain ⟨_, -, h⟩ := except_bind_ok.1 h
    obtain ⟨_, -, h⟩ := except_bind_ok.1 h
    cases h
    intro pool
    cases pool <;> exact SlotPool.lends_new _ _ _
  | unit _ h ih =>
    obtain ⟨⟨r, last⟩, ran, e⟩ := Option.bind_eq_some_iff.1 h
    cases e
    exact next (.rule _ _ _) ran ih
  | statics _ h ih =>
    obtain ⟨⟨r, last⟩, ran, e⟩ := Option.bind_eq_some_iff.1 h
    cases e
    exact next .statics ran ih

/-- After any history a new unit is accounted for. -/
theorem History.accounted (h : History config program past σ) (unit : String) (pool : Pool) :
    ∃ lost, (UnitState.new σ unit pool).Accounted lost := by
  choose lost accounts using fun pool => SlotPool.Accounts.of_lends (h.storage_lends pool)
  exact ⟨lost, accounts, nofun⟩

/-- Whether slots are reused does not change. -/
theorem issues_reuse (reuse : Bool) : Issues (fun _ p => p.reuse = reuse) fun _ => True where
  allocate h taken := by
    obtain ⟨rest, -, rfl⟩ | ⟨-, -, -, rfl⟩ := SlotPool.allocate_ok taken <;> exact ⟨h, trivial⟩
  release h freed := by
    obtain ⟨-, rfl⟩ | ⟨-, -, -, rfl⟩ := SlotPool.release_ok_iff.1 freed <;> exact h

/-- All pools of a program reuse slots, or none does. -/
theorem History.reuse (h : History config program past σ) :
    σ.Issued (fun _ p => p.reuse = config.reuseSlots) (fun _ => True) [] := by
  induction h with
  | start h =>
    obtain ⟨classes, -, h⟩ := except_bind_ok.1 h
    obtain ⟨_, -, h⟩ := except_bind_ok.1 h
    cases h
    refine ⟨fun pool => ?_, nofun⟩
    cases pool <;> rfl
  | unit _ h ih => exact (ih.lowered (issues_reuse _) (.rule h)).1
  | statics _ h ih => exact (ih.lowered (issues_reuse _) (.statics h)).1

/-- In each pool class storage owns as many slots as it has variables. -/
theorem length_slotsIn_owned (d : ClassData) (pool : Pool) :
    (slotsIn pool d.owned).length = (d.vars.filter (·.pool = pool)).length := by
  rw [ClassData.owned]
  induction d.vars with
  | nil => rfl
  | cons v vars ih =>
    rw [List.map_cons, Session.Lends.slotsIn_cons]
    by_cases here : v.pool = pool <;> simp [here, ih]

/-- Behind a unit that succeeds no scope is open. -/
theorem Lower.scopes_of_unitBody {body : Lower Unit} {s t : UnitState} {list : ActionList}
    (h : run (unitBody body) s = some (.ok list, t)) : t.scopes = [] := by
  obtain ⟨_, _, -, h₁⟩ := run_bind_ok.1 h
  obtain ⟨_, _, -, h₂⟩ := run_bind_ok.1 h₁
  obtain ⟨_, u, -, finished⟩ := run_bind_ok.1 h₂
  obtain ⟨_, _, ⟨⟩, h₃⟩ := run_bind_ok.1 finished
  dsimp only at h₃
  split at h₃
  · obtain ⟨_, _, h₄, -⟩ := run_bind_ok.1 h₃
    cases h₄
  · next closed =>
    have empty : u.scopes = [] := by
      by_contra scopes
      exact closed (by simp [scopes])
    split at h₃
    · cases h₃
      exact empty
    · cases h₃

/-- A temporary takes a slot for the innermost scope. -/
theorem Lower.owned_temp {what : String} {s t : UnitState} {v : IndexedVar}
    (h : run (temp what) s = some (.ok v, t)) :
    v.slot = placeholderSlot ∨ t.owned = (v.pool, v.slot) :: s.owned := by
  obtain ⟨name, u, named, h₁⟩ := run_bind_ok.1 h
  cases named
  obtain ⟨slot, u, taken, h₂⟩ := run_bind_ok.1 h₁
  obtain ⟨_, _, ⟨⟩, h₃⟩ := run_bind_ok.1 h₂
  cases h₃
  obtain ⟨_, p, -, ⟨scope, rest, scopes, e, rfl⟩ | ⟨_, -, e, -⟩⟩ | ⟨_, -, e, rfl⟩ :=
    run_allocate_cases taken
  · cases e
    have scopes : s.scopes = scope :: rest := scopes
    refine Or.inr ?_
    rw [UnitState.owned, UnitState.owned, scopes]
    rfl
  · cases e
  · cases e
    exact Or.inl rfl

/-- Wherever a lowering passes, whatever units came before it, the slots of the open scopes and of
the storage of instances are all different and live. A temporary has one of them, unless there was
none left. With reuse a unit that succeeds leaves as many more slots live in a pool as it has
created storage of instances there. -/
theorem History.slots_accounted (h : History config program past σ) (runs : σ.Runs unit pool m) :
    (∀ s, Visits m (.new σ unit pool) s → s.Apart) ∧
      (∀ what s v t, ComesTo m (.new σ unit pool) (temp what) s →
        run (temp what) s = some (.ok v, t) →
        v.slot = placeholderSlot ∨ t.owned = (v.pool, v.slot) :: s.owned) ∧
      (config.reuseSlots = true → ∀ list last, run m (.new σ unit pool) = some (.ok list, last) →
        ∃ created, last.session.classData.vars.Perm (created ++ σ.classData.vars) ∧
          ∀ pool, (last.session.slotPool pool).live.toNat =
            (σ.slotPool pool).live.toNat + (created.filter (·.pool = pool)).length) := by
  obtain ⟨lost, start⟩ := h.accounted unit pool
  refine ⟨fun s visits => ?_, fun what s v t _ ran => owned_temp ran, fun reuse list last ran => ?_⟩
  · obtain ⟨lost', here⟩ := visits.accounted runs.composed start
    exact here.apart
  · obtain ⟨lost', ends, kept⟩ := runs.composed.accounts _ _ _ lost ran start
    obtain rfl := kept list rfl
    have closed : last.scopes = [] := by
      cases runs <;> exact scopes_of_unitBody ran
    obtain ⟨created, perm⟩ := runs.composed.preserves
      (P := fun s => ∃ created, s.session.classData.vars.Perm (created ++ σ.classData.vars))
      _ _ _ ran ⟨[], .refl _⟩
    refine ⟨created, perm, fun other => ?_⟩
    have reuses : UnitState.Issued (fun _ p => p.reuse = config.reuseSlots)
      (fun _ => True) [] last :=
      have :
        Invariant (UnitState.Issued (fun _ p => p.reuse = config.reuseSlots) (fun _ => True) []) :=
        UnitState.Issued.invariant (issues_reuse _)
      runs.composed.preserves _ _ _ ran ⟨h.reuse.pools, nofun, h.reuse.storage⟩
    -- behind the unit only the storage of instances has slots, and what was lost before it
    have taken : last.taken = last.session.classData.owned := by
      rw [UnitState.taken, UnitState.owned, closed]
      rfl
    have before := (start.accounts other).live_eq ((h.reuse.pools other).trans reuse)
    have behind := (ends.accounts other).live_eq ((reuses.pools other).trans reuse)
    have first : (UnitState.new σ unit pool).taken = σ.classData.owned := rfl
    rw [taken, length_slotsIn_owned, (perm.filter _).length_eq, List.filter_append,
      List.length_append] at behind
    rw [first, length_slotsIn_owned] at before
    have same : (UnitState.new σ unit pool).session = σ := rfl
    rw [same] at before
    omega

end

open BlockBeforeStatic in
/-- With reuse the block gives the slot of its variable back, and behind the rule only the static
field has one. -/
theorem slots_accounted_block_before_static : ∃ σ list last created,
    Session.new { LowerConfig.default with reuseSlots := true } program = .ok σ ∧
      run (unitBody (lowerStmts (expander (expansionBound σ)) body)) (.new σ "rule" .global) =
        some (.ok list, last) ∧ last.Apart ∧
      last.session.classData.vars.Perm (created ++ σ.classData.vars) ∧
      ∀ pool, (last.session.slotPool pool).live.toNat =
        (σ.slotPool pool).live.toNat + (created.filter (·.pool = pool)).length := by
  obtain ⟨output, found, succeeds⟩ := exists_of_any { LowerConfig.default with reuseSlots := true }
    (fun output => output.result.isOk) (by decide +kernel)
  unfold output? at found
  split at found
  · cases found
  · next σ start =>
    obtain ⟨⟨r, last⟩, ran, e⟩ := Option.bind_eq_some_iff.1 found
    cases e
    cases r with
    | error _ => cases succeeds
    | ok list =>
      obtain ⟨visits, -, grows⟩ :=
        History.slots_accounted (.start start) (.rule "rule" .global body)
      obtain ⟨created, perm, live⟩ := grows rfl list last ran
      exact ⟨σ, list, last, created, start, ran, visits last (.behind .here ran), perm, live⟩

end SkipCode
