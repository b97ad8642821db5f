import PlatformCatalog.Json.Printer
import PlatformCatalog.Json.Reader
import PlatformCatalog.Record.Document
import PlatformCatalog.Store.Backend

/-!
# Stores as documents

The whole content of a store in one document, as it is kept in a file.
-/

set_option autoImplicit false

namespace PlatformCatalog

open Json Text

namespace Cell

def toJson : Cell → Json
  | .integer n => .number (toString n)
  | .text s => .text s

def ofJson : Json → Option Cell
  | .number n =>
    match n.toList with
    | '-' :: cs => (numeral? 10 cs).map fun m => .integer (-(m : Int))
    | cs => (numeral? 10 cs).map fun m => .integer m
  | .string (some s) => some (.text s)
  | _ => none

end Cell

namespace StampRow

def toJson (r : StampRow) : Json :=
  .list [.text r.revision, r.schemaVersion.toJson, .text r.lastFetchedAt]

def ofJson : Json → Option StampRow
  | .list [.string (some revision), version, .string (some lastFetchedAt)] => do
    let schemaVersion ← Cell.ofJson version
    return ⟨revision, schemaVersion, lastFetchedAt⟩
  | _ => none

end StampRow

namespace RelationalStore

def toJson (s : RelationalStore) : Json :=
  .record [("records", .list (s.records.map Record.toJson)),
    ("stamp", match s.stampRow with
      | some row => row.toJson
      | none => .null),
    ("refused", .texts s.refused)]

def stampRow? : Json → Option (Option StampRow)
  | .null => some none
  | v => (StampRow.ofJson v).map some

def ofJson (v : Json) : Option RelationalStore :=
  match fields? [["records"], ["stamp"], ["refused"]] v with
  | some [records, stamp, refused] => do
    let records ← required? (listOf? Record.ofJson) records
    let stampRow ← required? stampRow? stamp
    let refused ← required? (listOf? text?) refused
    return { records, stampRow, refused }
  | _ => none

end RelationalStore

namespace KeyValueStore

def toJson (s : KeyValueStore) : Json :=
  .record [("sets", .list (s.sets.map fun (key, member) => .texts [key, member])),
    ("hashes", .list (s.hashes.map fun ((key, field), value) => .texts [key, field, value]))]

def set? : Json → Option (String × String)
  | .list [.string (some key), .string (some member)] => some (key, member)
  | _ => none

def hash? : Json → Option ((String × String) × String)
  | .list [.string (some key), .string (some field), .string (some value)] =>
    some ((key, field), value)
  | _ => none

def ofJson (v : Json) : Option KeyValueStore :=
  match fields? [["sets"], ["hashes"]] v with
  | some [sets, hashes] => do
    let sets ← required? (listOf? set?) sets
    let hashes ← required? (listOf? hash?) hashes
    return { sets, hashes }
  | _ => none

end KeyValueStore

namespace Store

def toJson : Store → Json
  | .relational s => .record [(Backend.relational.name, s.toJson)]
  | .keyValue s => .record [(Backend.keyValue.name, s.toJson)]

def ofJson : Json → Option Store
  | .object [(some name, v)] =>
    match Backend.parse name with
    | .ok .relational => (RelationalStore.ofJson v).map .relational
    | .ok .keyValue => (KeyValueStore.ofJson v).map .keyValue
    | .error _ => none
  | _ => none

/-- What a file with the given text is to somebody who wants to open a store there. -/
def siteOfText (s : String) : Site :=
  match (Json.parse s).bind ofJson with
  | some s => .store s false
  | none => .foreign

end Store

end PlatformCatalog
