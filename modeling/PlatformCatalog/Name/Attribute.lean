/-!
# Attributes of a platform name

A platform name describes a product by eleven attributes in a fixed order.
Each one holds any value, no value, or a text in quoted form.
-/

set_option autoImplicit false

namespace PlatformCatalog

inductive Attribute where
  | part
  | vendor
  | product
  | version
  | update
  | edition
  | language
  | softwareEdition
  | targetSoftware
  | targetHardware
  | other
  deriving DecidableEq, Repr

namespace Attribute

def all : List Attribute :=
  [.part, .vendor, .product, .version, .update, .edition, .language, .softwareEdition,
    .targetSoftware, .targetHardware, .other]

/-- The attributes that the packed edition of a URI carries besides the edition. -/
def extended : List Attribute := [.softwareEdition, .targetSoftware, .targetHardware, .other]

def label : Attribute → String
  | .part => "part"
  | .vendor => "vendor"
  | .product => "product"
  | .version => "version"
  | .update => "update"
  | .edition => "edition"
  | .language => "language"
  | .softwareEdition => "sw_edition"
  | .targetSoftware => "target_sw"
  | .targetHardware => "target_hw"
  | .other => "other"

theorem mem_all (a : Attribute) : a ∈ all := by cases a <;> decide

end Attribute

inductive Value where
  | any
  | na
  | text (quoted : String)
  deriving DecidableEq, Repr

namespace Value

def word : Value → String
  | .any => "ANY"
  | .na => "NA"
  | .text s => s

end Value

end PlatformCatalog
