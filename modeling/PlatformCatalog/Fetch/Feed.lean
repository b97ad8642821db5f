import PlatformCatalog.Markup.Reader
import PlatformCatalog.Markup.Reference
import PlatformCatalog.Name.Uri
import PlatformCatalog.Record.Source

/-!
# Feeds

One source publishes a feed for each year and two rolling ones. A feed names
products in elements of their own, with the vendor and the product as
attributes and the URI as text. Of several elements with one URI, the first
in the order of the feeds counts.
-/

set_option autoImplicit false

namespace PlatformCatalog.Feed

open Markup Text

structure Listing where
  vendor : String := ""
  product : String := ""
  uri : String := ""
  deriving DecidableEq, Repr

def Listing.title (l : Listing) : String := l.vendor ++ " " ++ l.product

def elementName : List Glyph := Glyph.ofString "cpe"

def isListing (name : List Glyph) : Bool := localName name == elementName

/-- An attribute is used under its local name, and the last one of a name counts. -/
def addAttribute (l : Listing) (name : List Glyph) (value : String) : Listing :=
  if localName name = Glyph.ofString "vendor" then { l with vendor := value }
  else if localName name = Glyph.ofString "product" then { l with product := value }
  else l

def addAttributes (l : Listing) : List (List Glyph × List Glyph) → Option Listing
  | [] => some l
  | (name, content) :: rest => do
    let value ← resolved? content
    addAttributes (addAttribute l name value) rest

structure State where
  current : Option Listing := none
  listings : List Listing := []

def close (s : State) : State :=
  match s.current with
  | none => s
  | some l =>
    let l := { l with uri := trim l.uri }
    { current := none, listings := if l.uri = "" then s.listings else l :: s.listings }

def step (s : State) : Event → Option State
  | .opening name content =>
    if isListing name then do
      let l ← addAttributes {} (attributes content)
      return { s with current := some l }
    else some s
  | .text content =>
    match s.current with
    | none => some s
    | some l => do
      let piece ← resolved? content
      return { s with current := some { l with uri := l.uri ++ piece } }
  | .closing name => if isListing name then some (close s) else some s
  | .selfClosing | .aside => some s

def runEvents (s : State) : List Event → Option State
  | [] => some s
  | e :: rest => do runEvents (← step s e) rest

def ofEvents (events : List Event) : Option (List Listing) :=
  (runEvents {} events).map fun s => s.listings.reverse

def parse (bytes : List UInt8) : Except String (List Listing) :=
  match events bytes with
  | .error f => .error f.message
  | .ok es =>
    match ofEvents es with
    | some ls => .ok ls
    | none => .error "a reference stands for no character"

/-- The listings with a proper URI that is neither in `seen` nor that of an earlier one. -/
def keepFirst (seen : List String) : List Listing → List Listing
  | [] => []
  | l :: rest =>
    if (Uri.read l.uri).toOption.isNone ∨ l.uri ∈ seen then keepFirst seen rest
    else l :: keepFirst (l.uri :: seen) rest

def merge (feeds : List (List Listing)) : Batch :=
  { active := (keepFirst [] feeds.flatten).map fun l => ⟨l.title, [l.uri]⟩ }

def firstYear : Int := 2002

def trimSlashes (s : String) : String :=
  String.ofList (s.toList.reverse.dropWhile (· == '/')).reverse

def addresses (base : String) (lastYear : Int) : List String :=
  let base := trimSlashes base
  let count := (lastYear - firstYear + 1).toNat
  let years := (List.range count).map fun i : Nat => firstYear + (i : Int)
  years.map (fun year => base ++ "/years/jvndb_" ++ toString year ++ ".rdf") ++
    [base ++ "/jvndb_new.rdf", base ++ "/jvndb.rdf"]

end PlatformCatalog.Feed
