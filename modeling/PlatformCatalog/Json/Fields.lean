import PlatformCatalog.Json.Value
import PlatformCatalog.Text.Numeral

/-!
# Records in JSON

A record with named fields is an object, or else the list of its fields in
order. An object may hold other members too. No field may be given twice,
whichever of its names is used, and every name has to be a text.
-/

set_option autoImplicit false

namespace PlatformCatalog.Json

open Text

/-- The names under which each field of a record goes, in the order of the fields. -/
abbrev Layout := List (List String)

def fieldIndex? (layout : Layout) (name : String) : Option Nat :=
  layout.findIdx? (·.contains name)

def place (layout : Layout) :
    List (Option String × Json) → List (Option Json) → Option (List (Option Json))
  | [], fields => some fields
  | (none, _) :: _, _ => none
  | (some name, v) :: rest, fields =>
    match fieldIndex? layout name with
    | none => place layout rest fields
    | some i =>
      match fields[i]? with
      | some none => place layout rest (fields.set i (some v))
      | _ => none

def fields? (layout : Layout) : Json → Option (List (Option Json))
  | .object members => place layout members (List.replicate layout.length none)
  | .list items =>
    if items.length ≤ layout.length then
      some (items.map some ++ List.replicate (layout.length - items.length) none)
    else none
  | _ => none

def text? : Json → Option String
  | .string s => s
  | _ => none

def bool? : Json → Option Bool
  | .bool b => some b
  | _ => none

def natural? (max : Nat) : Json → Option Nat
  | .number n =>
    match numeral? 10 n.toList with
    | some v => if v ≤ max then some v else none
    | none => none
  | _ => none

def listOf? {α : Type} (read : Json → Option α) : Json → Option (List α)
  | .list items => items.mapM read
  | _ => none

def required? {α : Type} (read : Json → Option α) : Option Json → Option α
  | some v => read v
  | none => none

def optional? {α : Type} (read : Json → Option α) (absent : α) : Option Json → Option α
  | some v => read v
  | none => some absent

end PlatformCatalog.Json
