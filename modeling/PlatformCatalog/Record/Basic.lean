import PlatformCatalog.Name.Uri
import PlatformCatalog.Record.Source

/-!
# Records

A record is what the stores keep of one identifier: its source and title,
both textual forms of its name, and the word of each attribute.
-/

set_option autoImplicit false

namespace PlatformCatalog

/-- A vendor and one of its products, in quoted form. -/
structure Product where
  vendor : String
  product : String
  deriving DecidableEq, Repr

namespace Product

def before (a b : Product) : Bool :=
  a.vendor < b.vendor || (a.vendor == b.vendor && a.product < b.product)

end Product

structure Record where
  source : Source
  title : String
  searchTitle : String
  uri : String
  formatted : String
  part : String
  vendor : String
  product : String
  version : String
  update : String
  edition : String
  language : String
  softwareEdition : String
  targetSoftware : String
  targetHardware : String
  other : String
  deprecated : Bool
  deriving DecidableEq, Repr

namespace Record

def ofName (source : Source) (title : String) (n : Name) (deprecated : Bool) : Record where
  source := source
  title := title
  searchTitle := n.searchTitle
  uri := Uri.write n
  formatted := Formatted.write n
  part := n.word .part
  vendor := n.word .vendor
  product := n.word .product
  version := n.word .version
  update := n.word .update
  edition := n.word .edition
  language := n.word .language
  softwareEdition := n.word .softwareEdition
  targetSoftware := n.word .targetSoftware
  targetHardware := n.word .targetHardware
  other := n.word .other
  deprecated := deprecated

def ofIdentifier (source : Source) (title identifier : String) (deprecated : Bool) :
    Except NameError Record :=
  match Name.parse identifier with
  | .ok n => .ok (ofName source title n deprecated)
  | .error e => .error e

def word (r : Record) : Attribute → String
  | .part => r.part
  | .vendor => r.vendor
  | .product => r.product
  | .version => r.version
  | .update => r.update
  | .edition => r.edition
  | .language => r.language
  | .softwareEdition => r.softwareEdition
  | .targetSoftware => r.targetSoftware
  | .targetHardware => r.targetHardware
  | .other => r.other

def pair (r : Record) : Product := ⟨r.vendor, r.product⟩

end Record

end PlatformCatalog
