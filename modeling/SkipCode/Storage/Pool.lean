import SkipCode.Lower.Error

/-!
# Slot pools

A pool hands out the slots of one store. Without reuse they are handed out in order and never
again. With reuse a slot that was given back goes first, the lowest of them before the others, so
that the same requests always get the same slots.
-/

namespace SkipCode

structure SlotPool where
  pool : Pool
  capacity : UInt32
  reuse : Bool
  /-- The first slot that was never handed out. -/
  next : UInt32
  /-- The slots given back, in ascending order. -/
  free : List UInt32
  /-- How many requests were met. -/
  allocations : Nat
  /-- The most slots that were live at a time. -/
  highWater : UInt32
deriving Repr, Inhabited, DecidableEq

namespace SlotPool

def new (pool : Pool) (capacity : UInt32) (reuse : Bool) : SlotPool :=
  ⟨pool, capacity, reuse, 0, [], 0, 0⟩

/-- The number of slots that are handed out and not given back. -/
def live (p : SlotPool) : UInt32 := p.next - UInt32.ofNat p.free.length

/-- Counts a request that was met. -/
def record (p : SlotPool) : SlotPool :=
  { p with allocations := p.allocations + 1, highWater := max p.highWater p.live }

/-- Hands out a slot; the name of its owner is for the message when there is none left. -/
def allocate (p : SlotPool) (owner : String) : Except LowerError (UInt32 × SlotPool) :=
  match p.free with
  | slot :: rest => .ok (slot, record { p with free := rest })
  | [] =>
    if p.next < p.capacity then .ok (p.next, record { p with next := p.next + 1 })
    else .error (.exhausted p.pool p.capacity owner)

/-- Puts a slot into an ascending list that does not have it. -/
def insertSorted (slot : UInt32) : List UInt32 → List UInt32
  | [] => [slot]
  | other :: rest => if slot < other then slot :: other :: rest else other :: insertSorted slot rest

/-- Takes a slot back. Without reuse that changes nothing. -/
def release (p : SlotPool) (slot : UInt32) : Except LowerError SlotPool :=
  if !p.reuse then .ok p
  else if p.next ≤ slot then .error (.defect (.freedUnallocated p.pool slot))
  else if p.free.contains slot then .error (.defect (.freedTwice p.pool slot))
  else .ok { p with free := insertSorted slot p.free }

end SlotPool

end SkipCode
