import SkipCode.Proofs.Entries

/-!
# A heap in the storage

A memory has a heap stored (`Heap.Stored`) when the flags tell which handles are live, and the
entries of every live instance are the values of its fields. All that happens to the memory for an
event keeps that (`Stored.written`, `Stored.deleted`, `Stored.made`), and where a heap is stored it
is shown to the code of the session (`Stored.shown`).
-/

namespace SkipCode

open Engine (Host Memory setItem)
open Lower
open Source (ClassDecl)

namespace ClassTable

variable {t : ClassTable} {className base : String}

/-- A class on the chain of another one has the same stacks for its fields. -/
theorem Built.derives (built : t.Built) (h : t.derives className base = true) :
    ∃ chain above, t.Chain className chain ∧ t.Chain base above ∧
      chainSlots 0 above ⊆ chainSlots 0 chain := by
  unfold ClassTable.derives at h
  split at h
  · next l found =>
    obtain ⟨d, chain, hchain, -, rfl⟩ := built.layout found
    obtain ⟨x, mem, rfl⟩ := List.mem_map.1 (List.contains_iff_mem.1 h)
    obtain ⟨pre, post, rfl⟩ := List.append_of_mem mem
    refine ⟨_, _, hchain, hchain.upTo, ?_⟩
    rw [show pre ++ x :: post = (pre ++ [x]) ++ post by simp, chainSlots_append 0 (pre ++ [x])]
    exact List.subset_append_left _ _
  · cases h

/-- The fields of a class are told apart by their stacks. -/
theorem stack_inj {chain : List ClassDecl} {a b : FieldSlot} (ha : a ∈ chainSlots 0 chain)
    (hb : b ∈ chainSlots 0 chain) (same : a.stack = b.stack) : a = b := by
  have distinct : ((chainSlots 0 chain).map FieldSlot.stack).Nodup := by
    rw [stack_chainSlots]
    exact List.nodup_range'
  exact List.inj_on_of_nodup_map distinct ha hb same

end ClassTable

/-- The entries at a handle are the fields of an instance. -/
def ClassData.Holds (d : ClassData) (t : ClassTable) (c : Engine.Config) (m : Memory) (k : Nat)
    (obj : Instance) : Prop :=
  ∃ chain, t.Chain obj.className chain ∧
    ∀ slot ∈ ClassTable.chainSlots 0 chain, d.entry c m slot.stack k = some (obj.fields slot)

namespace Heap

/-- The flag of a handle. -/
def flag (H : Heap) (k : Nat) : Value := .number (.ofNat (if (H (.ofNat k)).isSome then 1 else 0))

/-- The flags are those of a heap, and the entries of each live instance are its fields. -/
structure Stored (t : ClassTable) (d : ClassData) (c : Engine.Config) (m : Memory) (H : Heap) :
    Prop where
  short : (d.flags m).length ≤ 2 ^ 32
  live : ∀ x obj, H x = some obj → ∃ k < (d.flags m).length, x = .ofNat k
  flags : ∀ k ≤ 2 ^ 32, (d.flags m).getD k .neutral = H.flag k
  fields : ∀ k < 2 ^ 32, ∀ obj, H (.ofNat k) = some obj → d.Holds t c m k obj

variable {t : ClassTable} {d : ClassData} {c : Engine.Config} {m m' : Memory} {H H' : Heap}

theorem flag_congr {k : Nat} (same : (H' (.ofNat k)).isSome = (H (.ofNat k)).isSome) :
    H'.flag k = H.flag k := by
  rw [flag, same, flag]

theorem flag_of_none {k : Nat} (none : H (.ofNat k) = none) : H.flag k = .number (.ofNat 0) := by
  rw [flag, none]
  rfl

theorem flag_of_some {k : Nat} {obj : Instance} (live : H (.ofNat k) = some obj) :
    H.flag k = .number (.ofNat 1) := by
  rw [flag, live]
  rfl

theorem play_made (t : ClassTable) (H : Heap) (x : Binary64) (className : String) :
    H.play t (.made x className) x = some ⟨className, t.initialValue⟩ :=
  if_pos rfl

theorem play_deleted (t : ClassTable) (H : Heap) (x : Binary64) (className : String) :
    H.play t (.deleted x className) x = none :=
  if_pos rfl

namespace Stored

theorem empty (t : ClassTable) (d : ClassData) (c : Engine.Config) :
    Stored t d c .empty .empty := by
  have none : d.flags .empty = [] := by
    unfold ClassData.flags
    split
    · show ((Engine.Cells.empty).get _).items = []
      rw [Engine.Cells.get_empty]
      rfl
    · rfl
  refine ⟨?_, nofun, fun k _ => ?_, fun _ _ _ e => by cases e⟩
  · rw [none]
    exact Nat.zero_le _
  · rw [none, flag_of_none rfl]
    rfl

theorem same (stored : Stored t d c m H) (same : d.Same c m m') : Stored t d c m' H := by
  refine ⟨same.flags ▸ stored.short, same.flags ▸ stored.live, same.flags ▸ stored.flags,
    fun k small obj here => ?_⟩
  obtain ⟨chain, hchain, entries⟩ := stored.fields k small obj here
  exact ⟨chain, hchain, fun slot mem => (same.entry _ _).trans (entries slot mem)⟩

/-- The instance of one handle is changed. -/
theorem update (stored : Stored t d c m H) {k : Nat} (small : k < 2 ^ 32)
    (length : (d.flags m').length = max (d.flags m).length (k + 1))
    (flags : ∀ j, (d.flags m').getD j .neutral =
      if j = k then H'.flag k else (d.flags m).getD j .neutral)
    (others : ∀ x, x ≠ .ofNat k → H' x = H x)
    (entries : ∀ s j, j ≠ k → d.entry c m' s j = d.entry c m s j)
    (own : ∀ obj, H' (.ofNat k) = some obj → d.Holds t c m' k obj) : Stored t d c m' H' := by
  have apart {j : Nat} (hj : j ≤ 2 ^ 32) (ne : j ≠ k) : Binary64.ofNat j ≠ .ofNat k := fun e =>
    ne ((Binary64.ofNat_inj (by omega) (by omega)).1 e)
  have short := stored.short
  refine ⟨by omega, fun x obj here => ?_, fun j hj => ?_, fun j hj obj here => ?_⟩
  · by_cases e : x = .ofNat k
    · exact ⟨k, by omega, e⟩
    · rw [others x e] at here
      obtain ⟨i, lt, rfl⟩ := stored.live x obj here
      exact ⟨i, by omega, rfl⟩
  · rw [flags]
    split
    · next e => rw [e]
    · next ne => rw [stored.flags j hj, flag, flag, others _ (apart hj ne)]
  · by_cases e : j = k
    · subst e
      exact own obj here
    · rw [others _ (apart (Nat.le_of_lt hj) e)] at here
      obtain ⟨chain, hchain, fields⟩ := stored.fields j hj obj here
      exact ⟨chain, hchain, fun slot mem => (entries _ _ e).trans (fields slot mem)⟩

/-- A live handle is a small number. -/
theorem handle (stored : Stored t d c m H) {x : Binary64} {obj : Instance} (live : H x = some obj) :
    ∃ k, k < (d.flags m).length ∧ k < 2 ^ 32 ∧ x = .ofNat k ∧ x.toIndex = k := by
  obtain ⟨k, lt, rfl⟩ := stored.live x obj live
  have := stored.short
  exact ⟨k, lt, by omega, rfl, Binary64.toIndex_ofNat (by omega)⟩

/-- A field of a live instance is written, by a class on its chain. -/
theorem written (stored : Stored t d c m H) (built : t.Built) {x : Binary64} {obj : Instance}
    {className field : String} {slot : FieldSlot} {value : Value} (live : H x = some obj)
    (derives : t.derives obj.className className = true)
    (found : t.findField className field = .ok slot) (flags : d.flags m' = d.flags m)
    (entries : ∀ s j, d.entry c m' s j =
      if s = slot.stack ∧ j = x.toIndex then some value else d.entry c m s j) :
    Stored t d c m' (H.play t (.written x className field value)) := by
  obtain ⟨k, lt, small, rfl, index⟩ := stored.handle live
  rw [index] at entries
  -- in the heap one field of one instance changes, as one entry does in the memory
  have played : H.play t (.written (.ofNat k) className field value) = fun y =>
      if y = .ofNat k then some { obj with fields := fun s =>
        if s = slot then value else obj.fields s }
      else H y := by
    simp only [play, live, found]
  rw [played]
  refine stored.update small (by rw [flags]; omega) (fun j => ?_) (fun y ne => if_neg ne)
    (fun s j ne => by rw [entries, if_neg fun both => ne both.2]) fun changed here => ?_
  · rw [flags]
    split
    · next e => rw [e, stored.flags k (by omega), flag_congr]; simp [live]
    · rfl
  · rw [if_pos rfl] at here
    cases here
    obtain ⟨chain, above, hchain, habove, sub⟩ := built.derives derives
    obtain ⟨-, above', habove', mem⟩ := built.findField found
    obtain rfl := habove.unique habove'
    obtain ⟨chain', hchain', fields⟩ := stored.fields k small obj live
    obtain rfl := hchain.unique hchain'
    refine ⟨chain, hchain, fun other mem' => ?_⟩
    rw [entries]
    by_cases e : other = slot
    · rw [if_pos ⟨congrArg _ e, rfl⟩]
      exact congrArg some (if_pos e).symm
    · rw [if_neg fun both => e (ClassTable.stack_inj mem' (sub mem) both.1), fields other mem']
      exact congrArg some (if_neg e).symm

/-- A live instance is deleted. -/
theorem deleted (stored : Stored t d c m H) {x : Binary64} {obj : Instance} (live : H x = some obj)
    (className : String) (flags : d.flags m' = setItem (d.flags m) x.toIndex (.number (.ofNat 0)))
    (entries : ∀ s j, j ≠ x.toIndex → d.entry c m' s j = d.entry c m s j) :
    Stored t d c m' (H.play t (.deleted x className)) := by
  obtain ⟨k, lt, small, rfl, index⟩ := stored.handle live
  rw [index] at flags entries
  refine stored.update small (by rw [flags, Engine.length_setItem]) (fun j => ?_)
    (fun y ne => if_neg ne) entries fun obj here => ?_
  · rw [flags, Engine.getD_setItem, flag_of_none (play_deleted ..)]
  · rw [play_deleted] at here
    cases here

/-- A handle that is taken is not live. -/
theorem taken_fresh (stored : Stored t d c m H) {k : Nat} (taken : d.Taken c m m' k) :
    H (.ofNat k) = none := by
  cases live : H (.ofNat k) with
  | none => rfl
  | some obj =>
    have small := taken.small
    obtain ⟨i, lt, -, e, -⟩ := stored.handle live
    have short := stored.short
    obtain rfl := (Binary64.ofNat_inj (by omega) (by omega)).1 e
    -- the flag of a live handle is one, which is not zero
    have marked := stored.flags k (by omega)
    rw [flag_of_some live, List.getD_eq_getElem?_getD, List.getElem?_eq_getElem lt] at marked
    have free := taken.free _ (List.getElem?_eq_getElem lt)
    rw [Option.getD_some] at marked
    rw [marked] at free
    have one := (Binary64.equal_ofNat_iff (by omega) (by omega)).1 free
    cases one

/-- An instance is made, with initial values in its fields. -/
theorem made (stored : Stored t d c m H) (built : t.Built) {k : Nat} {m₁ : Memory}
    (taken : d.Taken c m m₁ k) {className : String} {slots : List FieldSlot}
    (all : t.allFields className = .ok slots) (flags : d.flags m' = d.flags m₁)
    (initials : ∀ slot ∈ slots, d.entry c m' slot.stack k = some (t.initialValue slot))
    (entries : ∀ s j, j ≠ k → d.entry c m' s j = d.entry c m₁ s j) :
    Stored t d c m' (H.play t (.made (.ofNat k) className)) := by
  refine stored.update taken.small (by rw [flags, taken.flags, Engine.length_setItem]) (fun j => ?_)
    (fun y ne => if_neg ne) (fun s j ne => (entries s j ne).trans (taken.entry s j))
      fun obj here => ?_
  · rw [flags, taken.flags, Engine.getD_setItem, flag_of_some (play_made ..)]
  · rw [play_made] at here
    cases here
    obtain ⟨chain, hchain, rfl⟩ := built.allFields all
    exact ⟨chain, hchain, initials⟩

/-- The code of the session reads the fields of the heap. -/
theorem shown {σ : Session} {context : Engine.Context} (built : σ.classes.Built)
    (sound : σ.classData.Sound)
    (stored : Stored σ.classes σ.classData context.config context.memory H) :
    H.Shown σ context := by
  intro x obj className field slot live derives found depth object s handle s₁ element s₂ v classes
    hobject hfield grows here number
  obtain ⟨k, -, small, rfl, index⟩ := stored.handle live
  -- the element of the field is its entry in the stack
  rw [lowerExpr] at hfield
  obtain ⟨handle', u₁, first, h₁⟩ := run_bind_ok.1 hfield
  rw [hobject] at first
  cases first
  obtain ⟨access, u₂, h₂, h₃⟩ := run_bind_ok.1 h₁
  cases h₃
  obtain ⟨slot', stack, found', stacked, rfl⟩ := run_fieldVar_ok h₂
  have keeps : Lower.Preserves (fun u => s.session.Akin u.session)
    (lowerExpr (expander depth) object) :=
    (Lower.Composed.expr (.expander depth) object).preserves
  have akin := keeps s _ s₁ hobject ⟨rfl, rfl, rfl⟩
  rw [akin.classes, classes, found] at found'
  cases found'
  have stacked := grows.fieldStack stacked
  -- the instance has a value there
  obtain ⟨chain, above, hchain, habove, sub⟩ := built.derives derives
  obtain ⟨-, above', habove', mem⟩ := built.findField found
  obtain rfl := habove.unique habove'
  obtain ⟨chain', hchain', fields⟩ := stored.fields k small obj live
  obtain rfl := hchain.unique hchain'
  have entry := fields slot (sub mem)
  rw [ClassData.entry, stacked] at entry
  dsimp only at entry
  split at entry
  · next inside =>
    have mem := ClassData.mem_core_stack stacked
    have read : Engine.eval context (.variable .global stack.slot) =
        .ok (context.memory.get .global stack.slot) :=
      Location.eval_root (h := ⟨context.config, context.actor⟩) (l := ⟨.global, stack.slot⟩) inside
    rw [IndexedVar.get, IndexedVar.root, IndexedVar.child, IndexedVar.store, sound.core_whole mem,
      sound.core_shared mem]
    show Engine.eval context (.itemAt (.variable .global stack.slot) handle) = _
    rw [Engine.eval, read, here]
    show Except.ok (Engine.itemAt _ v.asNumber) = _
    rw [number, Engine.itemAt, (Binary64.isWhole_ofNat (by omega)).not_less_zero, index]
    exact congrArg Except.ok (Option.some.inj entry)
  · cases entry

end Stored

end Heap

end SkipCode
