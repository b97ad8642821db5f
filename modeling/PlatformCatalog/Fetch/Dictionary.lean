import PlatformCatalog.Json.Fields
import PlatformCatalog.Json.Reader
import PlatformCatalog.Name.Formatted
import PlatformCatalog.Record.Source
import PlatformCatalog.Store.Ordered

/-!
# The dictionary and the match criteria

One source publishes a dictionary of names with titles, and criteria that
use further names. A criterion that the dictionary does not list is added
under a title made from its attributes. Documents that cannot be read, and
names that are none, count for nothing.
-/

set_option autoImplicit false

namespace PlatformCatalog.Dictionary

open Json

structure Title where
  text : String
  language : String
  deriving DecidableEq, Repr

structure Item where
  deprecated : Bool
  name : String
  titles : List Title
  deriving DecidableEq, Repr

def Title.ofJson (v : Json) : Option Title :=
  match fields? [["title"], ["lang"]] v with
  | some [text, language] => do
    let text ← required? text? text
    let language ← required? text? language
    return ⟨text, language⟩
  | _ => none

def Item.ofJson (v : Json) : Option Item :=
  match fields? [["deprecated"], ["cpeName"], ["titles"]] v with
  | some [deprecated, name, titles] => do
    let deprecated ← optional? bool? false deprecated
    let name ← required? text? name
    let titles ← optional? (listOf? Title.ofJson) [] titles
    return ⟨deprecated, name, titles⟩
  | _ => none

/-- The first English title, or else the last one. -/
def Item.title (i : Item) : String :=
  match i.titles.find? fun t => t.language = "en" with
  | some t => t.text
  | none => (i.titles.getLast?.map Title.text).getD ""

def criterion? (v : Json) : Option String :=
  match fields? [["criteria"]] v with
  | some [criteria] => required? text? criteria
  | _ => none

/-- Titles under names, in ascending order of the names. -/
structure Holdings where
  active : List (String × String) := []
  deprecated : List (String × String) := []
  deriving DecidableEq, Repr

namespace Holdings

/-- A name's title is replaced when the name comes again with the same flag. -/
def addItem (h : Holdings) (i : Item) : Holdings :=
  if (Formatted.read i.name).toOption.isNone then h
  else if i.deprecated then
    { h with deprecated := Ordered.put Ordered.textBefore i.name i.title h.deprecated }
  else { h with active := Ordered.put Ordered.textBefore i.name i.title h.active }

def holds (h : Holdings) (name : String) : Bool :=
  (Ordered.get? name h.active).isSome || (Ordered.get? name h.deprecated).isSome

/-- The words of the attributes other than the part, without those that may be anything. -/
def titleOf (n : Name) : String :=
  " ".intercalate
    ((Attribute.all.filter fun a => a ≠ .part ∧ n.get a ≠ .any).map fun a => n.word a)

def addCriterion (h : Holdings) (criterion : String) : Holdings :=
  if h.holds criterion then h
  else match Formatted.read criterion with
    | .ok n => { h with active := Ordered.put Ordered.textBefore criterion (titleOf n) h.active }
    | .error _ => h

def entries (rows : List (String × String)) : List Entry :=
  rows.map fun (name, title) => ⟨title, [name]⟩

def toBatch (h : Holdings) : Batch := ⟨entries h.active, entries h.deprecated⟩

end Holdings

def build (dictionary criteria : List (List UInt8)) : Batch :=
  let items := dictionary.filterMap fun bytes => (parseBytes bytes).bind Item.ofJson
  let criteria := criteria.filterMap fun bytes => (parseBytes bytes).bind criterion?
  (criteria.foldl Holdings.addCriterion (items.foldl Holdings.addItem {})).toBatch

end PlatformCatalog.Dictionary
