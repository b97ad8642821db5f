import PlatformCatalog.Json.Fields
import PlatformCatalog.Store.Index

/-!
# Manifests

A manifest records which items a source contributed when it was last taken
in. The items stand in order, family by family.
-/

set_option autoImplicit false

namespace PlatformCatalog

/-- The families that are present, in order, each with its items in order. -/
structure Manifest where
  families : List (Family × List Item) := []
  deriving DecidableEq, Repr

namespace Manifest

def empty : Manifest := {}

def items (m : Manifest) : List (Family × Item) :=
  m.families.flatMap fun (f, is) => is.map (f, ·)

def size (m : Manifest) : Nat := m.items.length

def isEmpty (m : Manifest) : Bool := m.families.isEmpty

def contains (m : Manifest) (f : Family) (i : Item) : Bool := m.items.contains (f, i)

def insertIn (f : Family) (i : Item) : List (Family × List Item) → List (Family × List Item)
  | [] => [(f, [i])]
  | (g, is) :: rest =>
    if f = g then (g, Ordered.insert Item.before i is) :: rest
    else if f.before g then (f, [i]) :: (g, is) :: rest
    else (g, is) :: insertIn f i rest

/-- A family left without items goes. -/
def eraseIn (f : Family) (i : Item) : List (Family × List Item) → List (Family × List Item)
  | [] => []
  | (g, is) :: rest =>
    if f = g then
      match Ordered.erase Item.before i is with
      | [] => rest
      | left => (g, left) :: rest
    else (g, is) :: eraseIn f i rest

def insert (m : Manifest) (f : Family) (i : Item) : Manifest := ⟨insertIn f i m.families⟩

def erase (m : Manifest) (f : Family) (i : Item) : Manifest := ⟨eraseIn f i m.families⟩

def insertAll (m : Manifest) (entries : List (Family × Item)) : Manifest :=
  entries.foldl (fun m (f, i) => m.insert f i) m

def eraseAll (m : Manifest) (entries : List (Family × Item)) : Manifest :=
  entries.foldl (fun m (f, i) => m.erase f i) m

def ofItems (entries : List (Family × Item)) : Manifest := empty.insertAll entries

def merge (m other : Manifest) : Manifest := m.insertAll other.items

def difference (m other : Manifest) : Manifest :=
  ofItems (m.items.filter fun (f, i) => !other.contains f i)

end Manifest

open Json

namespace Item

def layout : Layout := [["group"], ["member"]]

def ofJson (v : Json) : Option Item :=
  match fields? layout v with
  | some [group, member] => do
    let group ← optional? text? "" group
    let member ← required? text? member
    return ⟨group, member⟩
  | _ => none

/-- An empty group is left out. -/
def toJson (i : Item) : Json :=
  .record ((if i.group = "" then [] else [("group", .text i.group)]) ++
    [("member", .text i.member)])

end Item

namespace Manifest

def loadFamilies :
    List (Option String × Json) → List (Family × List Item) → Option (List (Family × List Item))
  | [], families => some families
  | (none, _) :: _, _ => none
  | (some name, v) :: rest, families => do
    let f ← Family.ofName? name
    let is ← listOf? Item.ofJson v
    loadFamilies rest (Ordered.put Family.before f (Ordered.ofList Item.before is) families)

def ofJson : Json → Option Manifest
  | .object members => (loadFamilies members []).map Manifest.mk
  | _ => none

def toJson (m : Manifest) : Json :=
  .record (m.families.map fun (f, is) => (f.name, .list (is.map Item.toJson)))

end Manifest

end PlatformCatalog
