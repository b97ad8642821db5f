import PlatformCatalog.Record.Basic
import PlatformCatalog.Store.Ordered

/-!
# Index families

The key-value store answers questions from sets of texts. Seven families of
sets exist: four consist of one set each, and three have a set for each
group, which is a product, a title or a search title. An item says which
member a record contributes to which group.
-/

set_option autoImplicit false

namespace PlatformCatalog

inductive Family where
  | products
  | deprecatedProducts
  | urisByProduct
  | urisByTitle
  | urisBySearchTitle
  | deprecatedUris
  | activeUris
  deriving DecidableEq, Repr

namespace Family

def all : List Family :=
  [.products, .deprecatedProducts, .urisByProduct, .urisByTitle, .urisBySearchTitle,
    .deprecatedUris, .activeUris]

def name : Family → String
  | .products => "VendorProducts"
  | .deprecatedProducts => "DeprecatedVendorProducts"
  | .urisByProduct => "CpesByVendorProduct"
  | .urisByTitle => "CpesByTitle"
  | .urisBySearchTitle => "CpesBySearchTitle"
  | .deprecatedUris => "DeprecatedCpes"
  | .activeUris => "ActiveCpes"

def ofName? (s : String) : Option Family := all.find? fun f => f.name = s

def rank : Family → Nat
  | .products => 0
  | .deprecatedProducts => 1
  | .urisByProduct => 2
  | .urisByTitle => 3
  | .urisBySearchTitle => 4
  | .deprecatedUris => 5
  | .activeUris => 6

def before (f g : Family) : Bool := f.rank < g.rank

def keyStart : Family → String
  | .products => "CPE#VendorProducts"
  | .deprecatedProducts => "CPE#DeprecatedVendorProducts"
  | .urisByProduct => "CPE#VP#"
  | .urisByTitle => "CPE#Title#"
  | .urisBySearchTitle => "CPE#SearchTitle#"
  | .deprecatedUris => "CPE#DeprecatedCPEs"
  | .activeUris => "CPE#ActiveCPEs"

def isGrouped : Family → Bool
  | .urisByProduct | .urisByTitle | .urisBySearchTitle => true
  | _ => false

/-- The key of the set that holds the family's members of a group. -/
def setKey (f : Family) (group : String) : String :=
  if f.isGrouped then f.keyStart ++ group else f.keyStart

end Family

/-- A member of a group, which is empty in a family of one set. -/
structure Item where
  group : String := ""
  member : String
  deriving DecidableEq, Repr

namespace Item

def before (a b : Item) : Bool := Ordered.pairBefore (a.group, a.member) (b.group, b.member)

end Item

def setRow (entry : Family × Item) : String × String :=
  (entry.1.setKey entry.2.group, entry.2.member)

namespace Product

/-- Vendor and product in one text, with two number signs between them. -/
def member (p : Product) : String := p.vendor ++ "##" ++ p.product

/-- Cuts at the first two number signs of which the first one is not escaped. -/
def splitMember : List Char → Option (List Char × List Char)
  | [] => none
  | '\\' :: [] => none
  | '\\' :: c :: rest => (splitMember rest).map fun (v, p) => ('\\' :: c :: v, p)
  | '#' :: '#' :: rest => some ([], rest)
  | c :: rest => (splitMember rest).map fun (v, p) => (c :: v, p)

def ofMember? (s : String) : Option Product :=
  (splitMember s.toList).map fun (v, p) => ⟨String.ofList v, String.ofList p⟩

end Product

namespace Record

def items (r : Record) : List (Family × Item) :=
  let member := r.pair.member
  (if r.deprecated then [(.deprecatedUris, ⟨"", r.uri⟩), (.deprecatedProducts, ⟨"", member⟩)]
    else [(.activeUris, ⟨"", r.uri⟩), (.products, ⟨"", member⟩)]) ++
  [(.urisByProduct, ⟨member, r.uri⟩), (.urisByTitle, ⟨r.title, r.uri⟩),
    (.urisBySearchTitle, ⟨r.searchTitle, r.uri⟩)]

end Record

end PlatformCatalog
