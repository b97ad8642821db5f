import PlatformCatalog.Record.Basic

/-!
# Listings

The records of a batch are listed with the active ones first and one for each
URI. Written, a listing has one line for each record, with its fields between
tabs.
-/

set_option autoImplicit false

namespace PlatformCatalog

/-- The records of the entries' identifiers in order. Texts that are no names are dropped. -/
def convert (source : Source) (entries : List Entry) (deprecated : Bool) : List Record :=
  entries.flatMap fun e =>
    e.identifiers.filterMap fun identifier =>
      (Record.ofIdentifier source e.title identifier deprecated).toOption

def keepFirst (seen : List String) : List Record → List Record
  | [] => []
  | r :: rest =>
    if r.uri ∈ seen then keepFirst seen rest else r :: keepFirst (r.uri :: seen) rest

/-- The records of a batch, active ones before deprecated ones and one for each URI. -/
def normalize (source : Source) (b : Batch) : List Record :=
  keepFirst [] (convert source b.active false ++ convert source b.deprecated true)

def flagText (b : Bool) : String := if b then "true" else "false"

namespace Record

def line (r : Record) : String :=
  r.source.name ++ "\t" ++ r.uri ++ "\t" ++ r.formatted ++ "\t" ++ flagText r.deprecated ++ "\t" ++
    r.title

end Record

def listing (records : List Record) : String :=
  String.join (records.map fun r => r.line ++ "\n")

end PlatformCatalog
