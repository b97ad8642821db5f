/-!
# Archives

An archive is a row of members, each a header block and its content in
blocks, with two empty blocks at the end. A damaged one may still be read
where the damage cannot be noticed.
-/

set_option autoImplicit false

namespace PlatformCatalog

structure Member where
  path : String
  content : List UInt8
  isRegular : Bool := true
  deriving DecidableEq, Repr

namespace Archive

inductive Damage where
  | none
  | badChecksum
  | cut (size : Nat)
  | truncated
  deriving DecidableEq, Repr

end Archive

structure Archive where
  members : List Member
  damage : Archive.Damage := .none
  deriving DecidableEq, Repr

namespace Archive

def blockSize : Nat := 512

def memberSize (m : Member) : Nat :=
  blockSize + (m.content.length + (blockSize - 1)) / blockSize * blockSize

/-- The members within the first bytes, which must not end inside of one. -/
def within (size : Nat) : List Member → Option (List Member)
  | [] => if size = 0 ∨ size = blockSize ∨ 2 * blockSize ≤ size then some [] else none
  | m :: rest =>
    if size = 0 then some []
    else if memberSize m ≤ size then (m :: ·) <$> within (size - memberSize m) rest
    else none

def members? (a : Archive) : Option (List Member) :=
  match a.damage with
  | .none => some a.members
  | .badChecksum => if a.members.isEmpty then some [] else none
  | .cut size => within size a.members
  | .truncated => none

def isDocument (m : Member) : Bool :=
  m.isRegular && ".json".toList.isSuffixOf m.path.toList

def documents? (a : Archive) : Option (List (List UInt8)) :=
  a.members?.map fun ms => (ms.filter isDocument).map Member.content

end Archive

end PlatformCatalog
