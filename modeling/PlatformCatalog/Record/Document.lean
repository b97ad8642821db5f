import PlatformCatalog.Json.Fields
import PlatformCatalog.Record.Basic

/-!
# Entries, batches and records as documents

The JSON forms of what the catalog takes in and gives out. Entries may also
use the capitalized field names of annotation lists.
-/

set_option autoImplicit false

namespace PlatformCatalog

open Json

namespace Entry

def layout : Layout := [["title", "Title"], ["cpes", "CPEs"]]

def ofJson (v : Json) : Option Entry :=
  match fields? layout v with
  | some [title, identifiers] => do
    let title ← required? text? title
    let identifiers ← optional? (listOf? text?) [] identifiers
    return ⟨title, identifiers⟩
  | _ => none

def toJson (e : Entry) : Json :=
  .record [("title", .text e.title), ("cpes", .texts e.identifiers)]

end Entry

namespace Batch

def layout : Layout := [["cpes"], ["deprecated"]]

def ofJson (v : Json) : Option Batch :=
  match fields? layout v with
  | some [active, deprecated] => do
    let active ← required? (listOf? Entry.ofJson) active
    let deprecated ← required? (listOf? Entry.ofJson) deprecated
    return ⟨active, deprecated⟩
  | _ => none

def toJson (b : Batch) : Json :=
  .record [("cpes", .list (b.active.map Entry.toJson)),
    ("deprecated", .list (b.deprecated.map Entry.toJson))]

end Batch

namespace Product

def toJson (p : Product) : Json :=
  .record [("vendor", .text p.vendor), ("product", .text p.product)]

end Product

namespace Source

def ofExactName (s : String) : Option Source := all.find? fun source => source.name = s

/-- A source is written by its name, or as the only member of an object, with nothing in it. -/
def ofJson : Json → Option Source
  | .string (some s) => ofExactName s
  | .object [(some s, .null)] => ofExactName s
  | _ => none

end Source

namespace Record

def layout : Layout :=
  [["fetch_type"], ["title"], ["search_title"], ["cpe_uri"], ["cpe_fs"], ["part"], ["vendor"],
    ["product"], ["version"], ["update"], ["edition"], ["language"], ["software_edition"],
    ["target_software"], ["target_hardware"], ["other"], ["deprecated"]]

def ofJson (v : Json) : Option Record :=
  match fields? layout v with
  | some [source, title, searchTitle, uri, formatted, part, vendor, product, version, update,
      edition, language, softwareEdition, targetSoftware, targetHardware, other, deprecated] => do
    let source ← required? Source.ofJson source
    let title ← required? text? title
    let searchTitle ← required? text? searchTitle
    let uri ← required? text? uri
    let formatted ← required? text? formatted
    let part ← required? text? part
    let vendor ← required? text? vendor
    let product ← required? text? product
    let version ← required? text? version
    let update ← required? text? update
    let edition ← required? text? edition
    let language ← required? text? language
    let softwareEdition ← required? text? softwareEdition
    let targetSoftware ← required? text? targetSoftware
    let targetHardware ← required? text? targetHardware
    let other ← required? text? other
    let deprecated ← required? bool? deprecated
    return { source, title, searchTitle, uri, formatted, part, vendor, product, version, update,
             edition, language, softwareEdition, targetSoftware, targetHardware, other,
             deprecated }
  | _ => none

def toJson (r : Record) : Json :=
  .record [("fetch_type", .text r.source.name), ("title", .text r.title),
    ("search_title", .text r.searchTitle), ("cpe_uri", .text r.uri),
    ("cpe_fs", .text r.formatted), ("part", .text r.part), ("vendor", .text r.vendor),
    ("product", .text r.product), ("version", .text r.version), ("update", .text r.update),
    ("edition", .text r.edition), ("language", .text r.language),
    ("software_edition", .text r.softwareEdition), ("target_software", .text r.targetSoftware),
    ("target_hardware", .text r.targetHardware), ("other", .text r.other),
    ("deprecated", .bool r.deprecated)]

end Record

end PlatformCatalog
