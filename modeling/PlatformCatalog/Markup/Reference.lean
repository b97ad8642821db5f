import PlatformCatalog.Text.Glyph
import PlatformCatalog.Text.Numeral

/-!
# Character references

In text and in values, a name or a number between an ampersand and a
semicolon stands for a character.
-/

set_option autoImplicit false

namespace PlatformCatalog.Markup

open Text

def numbered? (base : Nat) (digits : List Char) : Option Char := do
  let n ← numeral? base digits
  if n ≠ 0 ∧ n.isValidChar then some (Char.ofNat n) else none

def referent? (name : List Char) : Option Char :=
  match name with
  | '#' :: 'x' :: digits => numbered? 16 digits
  | '#' :: digits => numbered? 10 digits
  | _ =>
    match String.ofList name with
    | "lt" => some '<'
    | "gt" => some '>'
    | "amp" => some '&'
    | "apos" => some '\''
    | "quot" => some '"'
    | _ => none

/-- The text with its references resolved, `pending` being the reversed beginning of one. -/
def resolveFrom : Option (List Char) → List Char → Option (List Char)
  | none, [] => some []
  | some _, [] => none
  | none, c :: rest =>
    if c = '&' then resolveFrom (some []) rest else (resolveFrom none rest).map (c :: ·)
  | some pending, c :: rest =>
    if c = ';' then do
      let r ← referent? pending.reverse
      let rest ← resolveFrom none rest
      return r :: rest
    else if c = '&' then none
    else resolveFrom (some (c :: pending)) rest

/-- The text of a value, which must not hold stray bytes or references to nothing. -/
def resolved? (content : List Glyph) : Option String := do
  let cs ← Glyph.chars? content
  let cs ← resolveFrom none cs
  return String.ofList cs

end PlatformCatalog.Markup
