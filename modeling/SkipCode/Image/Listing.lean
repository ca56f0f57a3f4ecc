import SkipCode.Image.Basic
import SkipCode.Action.Listing

/-!
# Listings of images

Every unit has a head with its name and its size, then its listing, then a blank line.
-/

namespace SkipCode

/-- Lines as a text in which each one is ended. -/
def joinLines (lines : List String) : String :=
  lines.foldl (fun text line => text ++ line ++ "\n") ""

def ActionList.listing (l : ActionList) : String := joinLines l.lines

namespace Image

def headRule : String := String.ofList (List.replicate 40 '═')

def unitLines (name : String) (list : ActionList) : List String :=
  [headRule, s!" {name}", s!" {list.length} actions, {list.count} elements", headRule]
    ++ list.lines ++ [""]

def listing (image : Image) : String :=
  joinLines (image.units.flatMap fun (name, list) => unitLines name list)

end Image

end SkipCode
