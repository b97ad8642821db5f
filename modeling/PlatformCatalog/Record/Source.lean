/-!
# Sources of the catalog

Records come from three sources. Each source owns its own snapshot. It
delivers batches of titles, each with the identifiers that go under it, in a
list of active entries and one of deprecated entries.
-/

set_option autoImplicit false

namespace PlatformCatalog

inductive Source where
  | nvd
  | jvn
  | vuls
  deriving DecidableEq, Repr

namespace Source

def all : List Source := [.nvd, .jvn, .vuls]

def name : Source → String
  | .nvd => "nvd"
  | .jvn => "jvn"
  | .vuls => "vuls"

def siblings (s : Source) : List Source := all.filter (· ≠ s)

def lowerAscii (s : String) : String := String.ofList (s.toList.map Char.toLower)

/-- The source with a name, in which ASCII letters count alike in both cases. The error is a
message. -/
def parse (s : String) : Except String Source :=
  match all.find? fun source => source.name = lowerAscii s with
  | some source => .ok source
  | none => .error ("unknown fetch type: " ++ lowerAscii s)

theorem mem_all (s : Source) : s ∈ all := by cases s <;> decide

end Source

structure Entry where
  title : String
  identifiers : List String
  deriving DecidableEq, Repr

structure Batch where
  active : List Entry := []
  deprecated : List Entry := []
  deriving DecidableEq, Repr

namespace Batch

def identifierCount (b : Batch) : Nat :=
  ((b.active ++ b.deprecated).flatMap Entry.identifiers).length

end Batch

end PlatformCatalog
