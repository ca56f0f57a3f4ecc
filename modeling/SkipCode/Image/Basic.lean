import SkipCode.Action.List

/-!
# Images

An image is what a compilation ships: action lists under the names of their units, in the order
in which the names first came.
-/

namespace SkipCode

structure Image where
  units : List (String × ActionList)
deriving BEq, Repr, Inhabited

namespace Image

def empty : Image := ⟨[]⟩

/-- Puts a list under a name: in the place of the list that is there, else at the end. -/
def put (name : String) (list : ActionList) : List (String × ActionList) →
    List (String × ActionList)
  | [] => [(name, list)]
  | (other, old) :: rest =>
    if other = name then (name, list) :: rest else (other, old) :: put name list rest

def insert (image : Image) (name : String) (list : ActionList) : Image :=
  ⟨put name list image.units⟩

def unit? (image : Image) (name : String) : Option ActionList := image.units.lookup name

def names (image : Image) : List String := image.units.map Prod.fst

/-- The number of elements of all units. -/
def count (image : Image) : Nat := (image.units.map fun (_, list) => list.count).sum

/-! ## Units in a row -/

theorem put_append {name : String} {list : ActionList} {units : List (String × ActionList)}
    (fresh : name ∉ units.map Prod.fst) : put name list units = units ++ [(name, list)] := by
  induction units with
  | nil => rfl
  | cons first rest ih =>
    obtain ⟨other, old⟩ := first
    rw [List.map_cons, List.mem_cons, not_or] at fresh
    rw [put, if_neg (Ne.symm fresh.1), ih fresh.2, List.cons_append]

/-- Puts units into an image, one after the other. -/
def insertAll (image : Image) (units : List (String × ActionList)) : Image :=
  units.foldl (fun image unit => image.insert unit.1 unit.2) image

/-- Units with names of their own are put behind those that are there. -/
theorem insertAll_units {image : Image} {units : List (String × ActionList)}
    (fresh : (image.names ++ units.map Prod.fst).Nodup) :
    (image.insertAll units).units = image.units ++ units := by
  induction units generalizing image with
  | nil => exact (List.append_nil _).symm
  | cons unit rest ih =>
    have own : unit.1 ∉ image.names := fun mem =>
      (List.nodup_append.1 fresh).2.2 _ mem _ List.mem_cons_self rfl
    have put : (image.insert unit.1 unit.2).units = image.units ++ [unit] := put_append own
    have names : (image.insert unit.1 unit.2).names = image.names ++ [unit.1] := by
      rw [Image.names, put, List.map_append]
      rfl
    rw [insertAll, List.foldl_cons, ← insertAll, ih, put, List.append_assoc, List.singleton_append]
    rwa [names, List.append_assoc, List.singleton_append]

end Image

end SkipCode
