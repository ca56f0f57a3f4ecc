import SkipCode.Proofs.Access
import SkipCode.Proofs.Coverage
import SkipCode.Proofs.Forward
import SkipCode.Proofs.Making

/-!
# Flags and entries

What a memory has for the instances of a session: for every handle a flag in the handle table
(`ClassData.flags`), and for every field stack an entry for every handle (`ClassData.entry`). The
code of instances changes them as follows.

* `Sound.item_written`, `FieldWrites.written`: a write of a field changes that entry and no other,
  and writing all fields of an instance changes the entries of that instance;
* `Sound.flag_written`: marking a handle changes its flag;
* `Acquires.taken`: a handle that is taken was free, and is marked then.
-/

namespace SkipCode

open Engine (Host Memory setItem)
open Lower

/-! ## Writes to variables -/

namespace IndexedVar

variable {v : IndexedVar}

/-- A plain variable is written as a whole by one action. -/
theorem set_whole (plain : v.path = []) (x : Element) :
    v.set x none [] = [.set (v.store none) v.slot none x] := by
  rw [set, plain, List.append_nil]

/-- So is one of its items. -/
theorem set_item (plain : v.path = []) (x i : Element) :
    v.set x none [i] = [.set (v.store none) v.slot (some i) x] := by
  rw [set, plain, List.nil_append]
  rfl

/-- A child is written as the item. -/
theorem set_child (plain : v.path = []) (x i : Element) :
    (v.child i).set x none [] = v.set x none [i] := by
  simp only [set, child, List.append_nil, plain, List.nil_append]
  rfl

/-- A plain variable is read from its place. -/
theorem get_whole (plain : v.path = []) : v.get none = v.location.root none := by
  rw [get, plain]
  rfl

end IndexedVar

namespace Engine.Host

variable {h : Host} {m m' : Memory} {v : IndexedVar} {x i : Element}

/-- Writes change nothing but the places that they are for. -/
theorem acts_elsewhere {actions : List Action} {places : List Location}
    (within : ∀ a ∈ actions, a.Within places) (done : h.acts m actions = some m') {l : Location}
    (other : l ∉ places) : h.value m' l = h.value m l := by
  induction actions generalizing m with
  | nil =>
    cases done
    rfl
  | cons a rest ih =>
    obtain ⟨m₁, first, others⟩ := Option.bind_eq_some_iff.1 done
    obtain ⟨st, slot, index, value, rfl, mem⟩ := within a List.mem_cons_self
    rw [ih (fun a mem => within a (List.mem_cons_of_mem _ mem)) others]
    refine write_elsewhere first ?_
    rintro rfl
    exact other mem

/-- An item of a whole slot of the shared store is written. -/
theorem item_written (plain : v.path = []) (shared : v.pool = .global)
    (done : h.acts m (v.set x none [i]) = some m') : ∃ value n,
      eval (h.context m) x = .ok value ∧ eval (h.context m) i = .ok n ∧
        v.slot < h.config.globalCapacity ∧
        m' = m.put .global v.slot
          (.array (setItem (m.get .global v.slot).items n.asNumber.toIndex value)) := by
  rw [IndexedVar.set_item plain, acts_one] at done
  obtain ⟨key, value, n, hkey, hx, hi, inside, -, -, -, -, rfl⟩ := write_some_iff.1 done
  rw [IndexedVar.store, shared] at hkey
  cases hkey
  exact ⟨value, n, hx, hi, holds_of_checkSlot (l := ⟨.global, v.slot⟩) inside, rfl⟩

/-- A whole slot is written. -/
theorem whole_written (plain : v.path = []) (done : h.acts m (v.set x none []) = some m') :
    ∃ value, eval (h.context m) x = .ok value ∧ eval (h.context m') (v.get none) = .ok value := by
  rw [IndexedVar.set_whole plain, acts_one] at done
  obtain ⟨key, value, hkey, hx, inside, -, rfl⟩ := write_none_iff.1 done
  rw [show v.store none = v.location.store none from rfl, Location.storeKey_eq] at hkey
  cases hkey
  refine ⟨value, hx, ?_⟩
  rw [IndexedVar.get_whole plain, Location.eval_root (holds_of_checkSlot inside)]
  rw [Host.value, Memory.get_set, if_pos ⟨rfl, rfl⟩]

/-- A whole slot that is left alone keeps its value. -/
theorem eval_get_congr (plain : v.path = []) (same : h.value m' v.location = h.value m v.location) :
    eval (h.context m') (v.get none) = eval (h.context m) (v.get none) := by
  rw [IndexedVar.get_whole plain, Location.root, eval, eval, Location.storeKey_eq,
    Location.storeKey_eq]
  show ((h.context m').checkSlot _ _ >>= fun _ => Except.ok (h.value m' v.location)) = _
  rw [same]
  rfl

end Engine.Host

/-! ## The storage of a session -/

/-- The slots that instances are in. -/
def ClassData.core (d : ClassData) : List IndexedVar := d.table.toList ++ d.fieldStacks

/-- The flags of the handles. -/
def ClassData.flags (d : ClassData) (m : Memory) : List Value :=
  match d.table with
  | some table => (m.get .global table.slot).items
  | none => []

/-- What a stack has for a handle, if the stack is inside the store. -/
def ClassData.entry (d : ClassData) (c : Engine.Config) (m : Memory) (stack handle : Nat) :
    Option Value :=
  match d.fieldStacks[stack]? with
  | some v => if v.slot < c.globalCapacity then some ((m.get .global v.slot).item handle) else none
  | none => none

/-- Whole slots of the shared store, each noted once. -/
structure ClassData.Sound (d : ClassData) : Prop where
  whole : d.Whole
  shared : ∀ l ∈ d.locations, l.pool = .global
  distinct : d.locations.Nodup

/-- The flags and entries are the same. -/
structure ClassData.Same (d : ClassData) (c : Engine.Config) (m m' : Memory) : Prop where
  flags : d.flags m' = d.flags m
  entry : ∀ stack handle, d.entry c m' stack handle = d.entry c m stack handle

namespace ClassData

variable {d : ClassData} {h : Host} {m m' : Memory} {v table : IndexedVar}

/-- Storage that stays the same through two steps does through both. -/
theorem Same.trans {c : Engine.Config} {m₁ m₂ m₃ : Memory} (h₁ : d.Same c m₁ m₂)
    (h₂ : d.Same c m₂ m₃) :
    d.Same c m₁ m₃ :=
  ⟨h₂.flags.trans h₁.flags, fun s i => (h₂.entry s i).trans (h₁.entry s i)⟩

/-- The table is of the core of the storage. -/
theorem mem_core_table (known : d.table = some table) : table ∈ d.core :=
  List.mem_append_left _ (by rw [known]; exact List.mem_singleton_self _)

/-- The core is at places of class storage. -/
theorem core_locations (d : ClassData) : d.core.map IndexedVar.location ⊆ d.locations := by
  rw [locations, List.map_append]
  exact List.subset_append_left _ _

/-- The stack of a field is of the core. -/
theorem mem_core_stack {stack : Nat} (found : d.fieldStacks[stack]? = some v) : v ∈ d.core :=
  List.mem_append_right _ (List.mem_of_getElem? found)

namespace Sound

/-- A variable of the core is a whole one. -/
theorem core_whole (sound : d.Sound) (mem : v ∈ d.core) : v.path = [] :=
  sound.whole v (List.mem_append_left _ mem)

/-- It is shared. -/
theorem core_shared (sound : d.Sound) (mem : v ∈ d.core) : v.pool = .global :=
  sound.shared v.location (List.mem_map_of_mem (List.mem_append_left _ mem))

/-- So its value is that of its slot. -/
theorem value_core (sound : d.Sound) (mem : v ∈ d.core) (h : Host) (m : Memory) :
    h.value m v.location = m.get .global v.slot := by
  rw [Host.value, show v.location.pool = .global from sound.core_shared mem]
  rfl

/-- A static field has no slot of instances. -/
theorem static_apart (sound : d.Sound) {p : String × IndexedVar} (mem : p ∈ d.statics) :
    p.2.location ∉ d.core.map IndexedVar.location := by
  intro stored
  have distinct := sound.distinct
  rw [locations, List.map_append] at distinct
  exact (List.nodup_append.1 distinct).2.2 _ stored _
    (List.mem_map_of_mem (List.mem_map_of_mem mem)) rfl

/-- Variables of the core have places of their own. -/
theorem core_distinct (sound : d.Sound) : (d.core.map IndexedVar.location).Nodup := by
  have := sound.distinct
  rw [locations, List.map_append] at this
  exact (List.nodup_append.1 this).1

/-- Two stacks have two slots. -/
theorem stack_unique (sound : d.Sound) {a b : Nat} {w : IndexedVar}
    (ha : d.fieldStacks[a]? = some v) (hb : d.fieldStacks[b]? = some w) (same : w.slot = v.slot) :
    b = a := by
  have distinct := sound.core_distinct
  rw [core, List.map_append] at distinct
  have nodup := (List.nodup_append.1 distinct).2.1
  have place : w.location = v.location := by
    rw [IndexedVar.location, IndexedVar.location, sound.core_shared (mem_core_stack ha),
      sound.core_shared (mem_core_stack hb), same]
  have inside := (List.getElem?_eq_some_iff.1 hb).1
  refine (List.getElem?_inj (by rwa [List.length_map]) nodup).1 ?_
  rw [List.getElem?_map, List.getElem?_map, ha, hb, Option.map_some, Option.map_some, place]

/-- The table is no stack. -/
theorem table_ne_stack (sound : d.Sound) (known : d.table = some table) {a : Nat}
    (ha : d.fieldStacks[a]? = some v) : table.slot ≠ v.slot := by
  intro same
  have distinct := sound.core_distinct
  rw [core, known, List.map_append] at distinct
  refine (List.nodup_append.1 distinct).2.2 table.location (by simp) v.location
    (List.mem_map_of_mem (List.mem_of_getElem? ha)) ?_
  rw [IndexedVar.location, IndexedVar.location, sound.core_shared (mem_core_stack ha),
    sound.core_shared (mem_core_table known), same]

/-- What leaves the slots of instances alone keeps the flags and entries. -/
theorem same (sound : d.Sound) (c : Engine.Config)
    (elsewhere : ∀ v ∈ d.core, h.value m' v.location = h.value m v.location) : d.Same c m m' := by
  constructor
  · unfold flags
    split
    · next table known =>
      have mem := mem_core_table known
      rw [← sound.value_core mem h, ← sound.value_core mem h, elsewhere table mem]
    · rfl
  · intro stack handle
    unfold entry
    split
    · next v found =>
      have mem := mem_core_stack found
      rw [← sound.value_core mem h, ← sound.value_core mem h, elsewhere v mem]
    · rfl

/-- A field is written. -/
theorem item_written (sound : d.Sound) {stack : Nat} {x i : Element}
    (found : d.fieldStacks[stack]? = some v) (done : h.acts m (v.set x none [i]) = some m') :
    ∃ value n, Engine.eval (h.context m) x = .ok value ∧ Engine.eval (h.context m) i = .ok n ∧
      d.flags m' = d.flags m ∧ ∀ s j, d.entry h.config m' s j =
        if s = stack ∧ j = n.asNumber.toIndex then some value else d.entry h.config m s j := by
  have mem := mem_core_stack found
  -- only the slot of this stack changes, which is neither the table nor another stack
  obtain ⟨value, n, hx, hi, inside, rfl⟩ :=
    Host.item_written (sound.core_whole mem) (sound.core_shared mem) done
  refine ⟨value, n, hx, hi, ?_, fun s j => ?_⟩
  · unfold flags
    split
    · next table known =>
      rw [Memory.get_put, if_neg fun e => sound.table_ne_stack known found e.2]
    · rfl
  · -- the stacks have slots of their own, so only an entry of this one can have changed
    unfold entry
    split
    · next w here =>
      rw [Memory.get_put]
      by_cases e : s = stack
      · subst e
        rw [found] at here
        cases here
        rw [if_pos inside, if_pos inside, if_pos ⟨rfl, rfl⟩, Value.item, Value.items_array,
          Engine.getD_setItem]
        by_cases own : j = n.asNumber.toIndex
        · rw [if_pos own, if_pos ⟨rfl, own⟩]
        · rw [if_neg own, if_neg fun both => own both.2]
          rfl
      · have other : ¬ (Engine.StoreKey.global = .global ∧ w.slot = v.slot) := fun same =>
          e (sound.stack_unique found here same.2)
        have elsewhere : ¬ (s = stack ∧ j = n.asNumber.toIndex) := fun both => e both.1
        rw [if_neg other, if_neg elsewhere]
    · next missing =>
      rw [if_neg]
      rintro ⟨rfl, -⟩
      rw [found] at missing
      cases missing

/-- A flag is written. -/
theorem flag_written (sound : d.Sound) {x i : Element} (known : d.table = some table)
    (done : h.acts m (table.set x none [i]) = some m') :
    ∃ value n, Engine.eval (h.context m) x = .ok value ∧ Engine.eval (h.context m) i = .ok n ∧
      d.flags m' = setItem (d.flags m) n.asNumber.toIndex value ∧
        ∀ s j, d.entry h.config m' s j = d.entry h.config m s j := by
  have mem := mem_core_table known
  obtain ⟨value, n, hx, hi, -, rfl⟩ :=
    Host.item_written (sound.core_whole mem) (sound.core_shared mem) done
  refine ⟨value, n, hx, hi, ?_, fun s j => ?_⟩
  · rw [flags, flags, known]
    dsimp only
    rw [Memory.get_put, if_pos ⟨rfl, rfl⟩]
    rfl
  · unfold entry
    split
    · next v found =>
      have other : ¬ (Engine.StoreKey.global = .global ∧ v.slot = table.slot) := fun same =>
        sound.table_ne_stack known found same.2.symm
      rw [Memory.get_put, if_neg other]
    · rfl

end Sound

end ClassData

/-! ## Instances -/

variable {d : ClassData} {h : Host} {m m' : Memory} {v table : IndexedVar}

/-- The fields of an instance are written, those of other instances are not. -/
theorem FieldWrites.written {values : FieldSlot → Value} {slots : List FieldSlot}
    {actions : List Action} (writes : FieldWrites d values (v.get none) slots actions)
    (sound : d.Sound) (distinct : (slots.map FieldSlot.stack).Nodup) (plain : v.path = [])
    (apart : v.location ∉ d.core.map IndexedVar.location) {x : Value}
    (here : Engine.eval (h.context m) (v.get none) = .ok x) (done : h.acts m actions = some m') :
    Engine.eval (h.context m') (v.get none) = .ok x ∧ d.flags m' = d.flags m ∧
      (∀ slot ∈ slots, d.entry h.config m' slot.stack x.asNumber.toIndex = some (values slot)) ∧
        ∀ s j, (j = x.asNumber.toIndex → s ∉ slots.map FieldSlot.stack) →
          d.entry h.config m' s j = d.entry h.config m s j := by
  induction writes generalizing m with
  | nil =>
    cases done
    exact ⟨here, rfl, List.forall_mem_nil _, fun _ _ _ => rfl⟩
  | @cons slot stack e slots actions found value _ ih =>
    obtain ⟨m₁, first, rest⟩ := acts_append done
    rw [List.map_cons, List.nodup_cons] at distinct
    -- the handle has a slot of its own
    have kept : h.value m₁ v.location = h.value m v.location := by
      refine Host.acts_elsewhere (IndexedVar.set_within (List.mem_singleton_self _) _ _ _) first ?_
      rw [List.mem_singleton]
      intro same
      exact apart (same ▸ List.mem_map_of_mem (ClassData.mem_core_stack found))
    have here' := (Host.eval_get_congr plain kept).trans here
    obtain ⟨y, n, hy, hn, flags, entry⟩ := sound.item_written found first
    rw [value] at hy
    cases hy
    rw [here] at hn
    cases hn
    obtain ⟨last, flags', own, others⟩ := ih distinct.2 here' rest
    refine ⟨last, flags'.trans flags, fun other mem => ?_, fun s j away => ?_⟩
    · rcases List.mem_cons.1 mem with rfl | mem
      · rw [others _ _ fun _ => distinct.1, entry, if_pos ⟨rfl, rfl⟩]
      · exact own other mem
    · rw [others s j fun e mem => away e (List.mem_cons_of_mem _ mem), entry, if_neg]
      rintro ⟨rfl, e⟩
      exact away e List.mem_cons_self

/-- The handle that is taken: one that is free, or the next one. -/
structure ClassData.Taken (d : ClassData) (c : Engine.Config) (m m' : Memory) (k : Nat) : Prop where
  small : k < 2 ^ 32
  reach : k ≤ (d.flags m).length
  free : ∀ flag, (d.flags m)[k]? = some flag → flag.looselyEquals (.number (.ofNat 0)) = true
  flags : d.flags m' = setItem (d.flags m) k (.number (.ofNat 1))
  entry : ∀ s j, d.entry c m' s j = d.entry c m s j

/-- Writes outside the slots of instances keep the flags and entries. -/
theorem ClassData.Sound.untouched (sound : d.Sound) {actions : List Action} {places : List Location}
    (within : ∀ a ∈ actions, a.Within places)
    (apart : ∀ l ∈ places, l ∉ d.core.map IndexedVar.location) (done : h.acts m actions = some m') :
    d.Same h.config m m' :=
  sound.same h.config fun _ mem =>
    Host.acts_elsewhere within done fun inside => apart _ inside (List.mem_map_of_mem mem)

/-- Reading the table gives the flags. -/
theorem ClassData.Sound.eval_table (sound : d.Sound) (known : d.table = some table) {w : Value}
    (e : Engine.eval (h.context m) (table.get none) = .ok w) : w.items = d.flags m := by
  have mem := ClassData.mem_core_table known
  rw [IndexedVar.get_whole (sound.core_whole mem)] at e
  obtain ⟨key, hkey, -, rfl⟩ := Location.eval_root_inv e
  rw [Location.store, show table.location.pool = .global from sound.core_shared mem] at hkey
  cases hkey
  rw [ClassData.flags, known]
  rfl

/-- A comparison that guards compares the values. -/
theorem Engine.Host.guard_compare {a b : Element} {op : Comparison} {x y : Value} {answer : Bool}
    (ha : Engine.eval (h.context m) a = .ok x) (hb : Engine.eval (h.context m) b = .ok y)
    (found : h.guard m (.compare a op b) = some answer) : Engine.compare op x y = answer := by
  rw [guard, Engine.eval, ha, hb] at found
  exact Option.some.inj found

namespace Lower.Acquires

variable {config : LowerConfig} {first : Option (List Action × Element)} {next mark : List Action}
  {full : Element} {m₁ m₂ : Memory}

/-- The next handle is the number of flags. -/
theorem next_taken (acquires : Acquires config (.indexed v) table first next full mark)
    (sound : d.Sound) (known : d.table = some table) (plain : v.path = [])
    (apart : v.location ∉ d.core.map IndexedVar.location) (done : h.acts m next = some m') :
    Engine.eval (h.context m') (v.get none) = .ok (.number (.ofNat (d.flags m).length)) ∧
      d.Same h.config m m' := by
  have e := acquires.next
  cases e
  obtain ⟨value, counted, here⟩ := Host.whole_written plain done
  obtain ⟨w, hw, rfl⟩ := Location.eval_countOf_inv counted
  rw [sound.eval_table known hw] at here
  exact ⟨here, sound.untouched (IndexedVar.set_within (List.mem_singleton_self _) _ _ _)
    (fun l mem => List.mem_singleton.1 mem ▸ apart) done⟩

/-- The first free handle, if it is not said that there is none. -/
theorem free_taken {firsts : List Action} {found : Element}
    (acquires : Acquires config (.indexed v) table (some (firsts, found)) next full mark)
    (sound : d.Sound) (known : d.table = some table) (plain : v.path = [])
    (apart : v.location ∉ d.core.map IndexedVar.location) (done : h.acts m firsts = some m') :
    d.Same h.config m m' ∧ (h.guard m' found = some true →
      ∃ k flag, Engine.eval (h.context m') (v.get none) = .ok (.number (.ofNat k)) ∧
        (d.flags m)[k]? = some flag ∧ flag.looselyEquals (.number (.ofNat 0)) = true) := by
  obtain ⟨e, rfl⟩ := acquires.first
  cases e
  obtain ⟨value, searched, here⟩ := Host.whole_written plain done
  refine ⟨sound.untouched (IndexedVar.set_within (List.mem_singleton_self _) _ _ _)
    (fun l mem => List.mem_singleton.1 mem ▸ apart) done, fun answer => ?_⟩
  rw [Engine.eval] at searched
  obtain ⟨w, hw, searched⟩ := except_bind_ok.1 searched
  rw [Element.ofNat, Engine.eval] at searched
  cases searched
  have differs := Host.guard_compare here (Location.eval_number _) answer
  rw [← sound.eval_table known hw]
  unfold Engine.indexOf at here differs
  split at here
  · next k position =>
    obtain ⟨inside, free, -⟩ := List.findIdx?_eq_some_iff_getElem.1 position
    exact ⟨k, _, here, List.getElem?_eq_getElem inside, free⟩
  · next missing =>
    rw [missing] at differs
    -- minus one is minus one
    cases differs

/-- A handle that is marked stays where it is. -/
theorem mark_keeps (acquires : Acquires config (.indexed v) table first next full mark)
    (known : d.table = some table) (plain : v.path = [])
    (apart : v.location ∉ d.core.map IndexedVar.location) (done : h.acts m mark = some m') :
    Engine.eval (h.context m') (v.get none) = Engine.eval (h.context m) (v.get none) := by
  rw [acquires.mark] at done
  refine Host.eval_get_congr plain
    (Host.acts_elsewhere (IndexedVar.set_within (List.mem_singleton_self _) _ _ _) done ?_)
  rw [List.mem_singleton]
  intro same
  exact apart (same ▸ List.mem_map_of_mem (ClassData.mem_core_table known))

/-- Behind the choice of a handle it is below the capacity of the classes, and it is marked. -/
theorem marked (acquires : Acquires config (.indexed v) table first next full mark)
    (sound : d.Sound) (known : d.table = some table) (plain : v.path = [])
    (apart : v.location ∉ d.core.map IndexedVar.location) {k : Nat} (small : k ≤ 2 ^ 32)
    (here : Engine.eval (h.context m) (v.get none) = .ok (.number (.ofNat k)))
    (below : h.guard m full = some true) (done : h.acts m mark = some m') :
    k < 2 ^ 32 ∧ Engine.eval (h.context m') (v.get none) = .ok (.number (.ofNat k)) ∧
      d.flags m' = setItem (d.flags m) k (.number (.ofNat 1)) ∧
        ∀ s j, d.entry h.config m' s j = d.entry h.config m s j := by
  have kept := acquires.mark_keeps known plain apart done
  rw [acquires.full] at below
  rw [acquires.mark] at done
  -- the guard before the mark compared the handle with the capacity
  have less : (Binary64.ofNat k).less (.ofNat config.classCapacity.toNat) = true :=
    Host.guard_compare here (Location.eval_number _) below
  have capacity := config.classCapacity.toNat_lt
  have lt := (Binary64.isWhole_ofNat (by omega)).lt_of_less (Binary64.isWhole_ofNat (by omega)) less
  obtain ⟨value, n, hvalue, hn, flags, entry⟩ := sound.flag_written known done
  rw [Element.ofNat, Location.eval_number] at hvalue
  cases hvalue
  have hn : Engine.eval (h.context m) (v.get none) = .ok n := hn
  rw [here] at hn
  cases hn
  rw [Value.asNumber, Binary64.toIndex_ofNat (by omega)] at flags
  exact ⟨by omega, kept.trans here, flags, entry⟩

end Lower.Acquires

/-- A handle that was taken can be read. -/
theorem Lower.Acquires.valued {config : LowerConfig} {first : Option (List Action × Element)}
    {next mark : List Action} {full : Element}
    (acquires : Acquires config (.indexed v) table first next full mark)
    (known : d.table = some table) (plain : v.path = [])
    (apart : v.location ∉ d.core.map IndexedVar.location)
    (done : h.Acquired first next full mark m m') :
    ∃ x, Engine.eval (h.context m') (v.get none) = .ok x := by
  obtain ⟨m₂, chosen, -, done⟩ := done
  -- the mark goes to the table, so it is enough to look behind the choice
  rw [acquires.mark_keeps known plain apart done]
  have e := acquires.next
  cases e
  cases first with
  | none =>
    obtain ⟨x, -, here⟩ := Host.whole_written plain chosen
    exact ⟨x, here⟩
  | some f =>
    obtain ⟨firsts, found⟩ := f
    have e := acquires.first.1
    cases e
    -- whether or not a freed handle was found, the last write to the variable succeeded
    obtain ⟨m₁, searched, ⟨-, rfl⟩ | ⟨-, chosen⟩⟩ := chosen
    · obtain ⟨x, -, here⟩ := Host.whole_written plain searched
      exact ⟨x, here⟩
    · obtain ⟨x, -, here⟩ := Host.whole_written plain chosen
      exact ⟨x, here⟩

/-- A handle that is taken is free or the next one. -/
theorem Lower.Acquires.taken {config : LowerConfig} {first : Option (List Action × Element)}
    {next mark : List Action} {full : Element}
    (acquires : Acquires config (.indexed v) table first next full mark) (sound : d.Sound)
    (known : d.table = some table) (plain : v.path = [])
    (apart : v.location ∉ d.core.map IndexedVar.location) (short : (d.flags m).length ≤ 2 ^ 32)
    (done : h.Acquired first next full mark m m') :
    ∃ k, Engine.eval (h.context m') (v.get none) = .ok (.number (.ofNat k)) ∧
      d.Taken h.config m m' k := by
  obtain ⟨m₂, chosen, below, done⟩ := done
  -- either way of choosing a handle is followed by the mark
  have finish {k : Nat} (here : Engine.eval (h.context m₂) (v.get none) = .ok (.number (.ofNat k)))
      (same : d.Same h.config m m₂) (reach : k ≤ (d.flags m).length)
      (free : ∀ flag, (d.flags m)[k]? = some flag →
        flag.looselyEquals (.number (.ofNat 0)) = true) :
      ∃ k, Engine.eval (h.context m') (v.get none) = .ok (.number (.ofNat k)) ∧
        d.Taken h.config m m' k := by
    obtain ⟨small, last, flags, entry⟩ :=
      acquires.marked sound known plain apart (by omega) here below done
    exact ⟨k, last, small, reach, free, by rw [flags, same.flags],
      fun s j => (entry s j).trans (same.entry s j)⟩
  have next {m₁ : Memory} (same : d.Same h.config m m₁) (done : h.acts m₁ next = some m₂) :
      ∃ k, Engine.eval (h.context m') (v.get none) = .ok (.number (.ofNat k)) ∧
        d.Taken h.config m m' k := by
    obtain ⟨here, same'⟩ := acquires.next_taken sound known plain apart done
    rw [same.flags] at here
    refine finish here (same.trans same') (Nat.le_refl _) fun flag found => ?_
    rw [List.getElem?_eq_none (Nat.le_refl _)] at found
    cases found
  cases first with
  | none => exact next ⟨rfl, fun _ _ => rfl⟩ chosen
  | some f =>
    obtain ⟨firsts, found⟩ := f
    obtain ⟨m₁, searched, ⟨answer, rfl⟩ | ⟨-, chosen⟩⟩ := chosen
    · obtain ⟨same, exists'⟩ := acquires.free_taken sound known plain apart searched
      obtain ⟨k, flag, here, inside, free⟩ := exists' answer
      refine finish here same (Nat.le_of_lt (List.getElem?_eq_some_iff.1 inside).1)
        fun other e => ?_
      rw [inside] at e
      cases e
      exact free
    · exact next (acquires.free_taken sound known plain apart searched).1 chosen

end SkipCode
