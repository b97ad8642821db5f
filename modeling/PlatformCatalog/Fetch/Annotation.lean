import PlatformCatalog.Json.Reader
import PlatformCatalog.Record.Document

/-!
# Annotation lists

One source publishes a list of titles with identifiers. Entries of one title
are put together where the title first stands, and identifiers that come
again under it are dropped.
-/

set_option autoImplicit false

namespace PlatformCatalog.Annotation

def addNew (known : List String) : List String → List String
  | [] => known
  | s :: rest => if s ∈ known then addNew known rest else addNew (known ++ [s]) rest

/-- The entries with another one put where its title stands, or at the end. -/
def addEntry (e : Entry) : List Entry → List Entry
  | [] => [⟨e.title, addNew [] e.identifiers⟩]
  | first :: rest =>
    if first.title = e.title then ⟨first.title, addNew first.identifiers e.identifiers⟩ :: rest
    else first :: addEntry e rest

def group (entries : List Entry) : List Entry :=
  (entries.foldl (fun grouped e => addEntry e grouped) []).filter fun e => !e.identifiers.isEmpty

def parse (bytes : List UInt8) : Option Batch := do
  let v ← Json.parseBytes bytes
  let entries ← Json.listOf? Entry.ofJson v
  return { active := group entries }

end PlatformCatalog.Annotation
