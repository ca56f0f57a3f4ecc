import SkipCode.Value

/-!
# Stores of the engine

A store has a value for every slot, the neutral one until it is written. There is one store that
all units share and one for each actor. They stay from one run to the next.
-/

namespace SkipCode.Engine

/-- A store: the values up to the last slot that was touched. -/
structure Cells where
  values : Array Value
deriving Inhabited

namespace Cells

def empty : Cells := ⟨#[]⟩

/-- The value of a slot. -/
def get (c : Cells) (slot : UInt32) : Value := c.values.getD slot.toNat .neutral

/-- Extends the store by neutral values until it has `size` slots. -/
def grow (values : Array Value) (size : Nat) : Array Value :=
  if values.size < size then values ++ Array.replicate (size - values.size) .neutral else values

/-- Writes a slot. -/
def set (c : Cells) (slot : UInt32) (v : Value) : Cells :=
  ⟨(grow c.values (slot.toNat + 1)).setIfInBounds slot.toNat v⟩

@[simp] theorem get_empty (slot : UInt32) : empty.get slot = .neutral := by
  simp [get, empty]

theorem getD_grow (values : Array Value) (size i : Nat) :
    (grow values size).getD i .neutral = values.getD i .neutral := by
  unfold grow
  split
  · by_cases hi : i < values.size
    · simp [Array.getD_eq_getD_getElem?, Array.getElem?_append, hi]
    · simp [Array.getD_eq_getD_getElem?, Array.getElem?_append, hi, Array.getElem?_replicate]
      split <;> rfl
  · rfl

theorem le_size_grow (values : Array Value) (size : Nat) : size ≤ (grow values size).size := by
  unfold grow
  split
  · simp
    omega
  · omega

/-- A write changes its slot and no other. -/
theorem get_set (c : Cells) (slot other : UInt32) (v : Value) :
    (c.set slot v).get other = if other = slot then v else c.get other := by
  have hs := le_size_grow c.values (slot.toNat + 1)
  have hg := getD_grow c.values (slot.toNat + 1) other.toNat
  simp only [get, set]
  by_cases h : other = slot
  · subst h
    have : other.toNat < (grow c.values (other.toNat + 1)).size := by omega
    simp [Array.getD_eq_getD_getElem?, this]
  · have hne : slot.toNat ≠ other.toNat := fun e => h (UInt32.toNat_inj.1 e.symm)
    simp only [h, if_false]
    rw [← hg]
    simp [Array.getD_eq_getD_getElem?, hne]

end Cells

/-- One of the stores. -/
inductive StoreKey where
  | global
  | actor (who : Int64)
deriving DecidableEq, Repr

def StoreKey.toText : StoreKey → String
  | global => "global"
  | actor who => s!"actor {who.toInt}"

/-- The shared store and those of the actors that were touched. -/
structure Memory where
  global : Cells
  actors : List (Int64 × Cells)
deriving Inhabited

namespace Memory

def empty : Memory := ⟨.empty, []⟩

/-- The store of a key. -/
def cells (m : Memory) : StoreKey → Cells
  | .global => m.global
  | .actor who => (m.actors.lookup who).getD .empty

def get (m : Memory) (key : StoreKey) (slot : UInt32) : Value := (m.cells key).get slot

/-- Changes the store of one actor. -/
def updateActor (who : Int64) (change : Cells → Cells) :
    List (Int64 × Cells) → List (Int64 × Cells)
  | [] => [(who, change .empty)]
  | (other, cells) :: rest =>
    if other == who then (other, change cells) :: rest
    else (other, cells) :: updateActor who change rest

def set (m : Memory) (key : StoreKey) (slot : UInt32) (v : Value) : Memory :=
  match key with
  | .global => { m with global := m.global.set slot v }
  | .actor who => { m with actors := updateActor who (·.set slot v) m.actors }

theorem lookup_updateActor (who other : Int64) (change : Cells → Cells)
    (actors : List (Int64 × Cells)) :
    (updateActor who change actors).lookup other =
      if other = who then some (change ((actors.lookup who).getD .empty))
      else actors.lookup other := by
  induction actors with
  | nil =>
    by_cases h : other = who
    · simp [updateActor, h]
    · have : (other == who) = false := by simpa using h
      simp [updateActor, List.lookup_cons, h, this]
  | cons p rest ih =>
    obtain ⟨a, cells⟩ := p
    unfold updateActor
    by_cases ha : a = who
    · subst ha
      by_cases h : other = a
      · subst h
        simp
      · have : (other == a) = false := by simpa using h
        simp [List.lookup_cons, h, this]
    · have ha' : (a == who) = false := by simpa using ha
      have ha2 : (who == a) = false := by simpa using fun e => ha e.symm
      simp only [ha', Bool.false_eq_true, if_false, List.lookup_cons]
      by_cases h : other = a
      · subst h
        simp [ha]
      · have : (other == a) = false := by simpa using h
        simp only [this, ha2, ih]

/-- A write changes its slot of its store and nothing else. -/
theorem get_set (m : Memory) (key other : StoreKey) (slot s : UInt32) (v : Value) :
    (m.set key slot v).get other s = if other = key ∧ s = slot then v else m.get other s := by
  cases key with
  | global =>
    cases other with
    | global => simp [set, get, cells, Cells.get_set]
    | actor a => simp [set, get, cells]
  | actor who =>
    cases other with
    | global => simp [set, get, cells]
    | actor a =>
      simp only [set, get, cells, lookup_updateActor, StoreKey.actor.injEq]
      by_cases h : a = who
      · subst h
        simp [Cells.get_set]
      · simp [h]

end Memory

end SkipCode.Engine
