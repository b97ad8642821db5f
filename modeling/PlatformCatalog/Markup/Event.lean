import PlatformCatalog.Text.Form
import PlatformCatalog.Text.Glyph

/-!
# Markup events

What a reader of markup meets in a document, in order. Names and contents
are glyphs, since bytes that are no text matter only where a value is used.

The attributes of a tag are read by a machine that takes one glyph at a time.
An attribute counts if it has a name that none before it has and a value
between quotes. Whatever else stands in the tag is passed over.
-/

set_option autoImplicit false

namespace PlatformCatalog.Markup

open Text

inductive Event where
  | opening (name attributes : List Glyph)
  | closing (name : List Glyph)
  | selfClosing
  | text (content : List Glyph)
  /-- A comment, an instruction, a declaration or a block of unparsed text. -/
  | aside
  deriving DecidableEq, Repr

def isBlankGlyph : Glyph → Bool
  | .char c => isMarkupBlank c
  | .stray _ => false

/-- The part of a qualified name behind its first colon, or all of it. -/
def localName (name : List Glyph) : List Glyph :=
  match name.dropWhile (· ≠ .char ':') with
  | _ :: rest => rest
  | [] => name

/-- Where the machine stands in the tag. Glyphs read so far stand in reverse order. -/
inductive AttributeMode where
  | seeking
  | name (read : List Glyph)
  | named (name : List Glyph)
  | valued (name : List Glyph)
  | value (name : List Glyph) (quote : Glyph) (read : List Glyph)
  | bare
  deriving DecidableEq, Repr

structure AttributeScan where
  mode : AttributeMode := .seeking
  seen : List (List Glyph) := []
  found : List (List Glyph × List Glyph) := []

namespace AttributeScan

def isQuote (g : Glyph) : Bool := g == .char '"' || g == .char '\''

def step (s : AttributeScan) (g : Glyph) : AttributeScan :=
  match s.mode with
  | .seeking => if isBlankGlyph g then s else { s with mode := .name [g] }
  | .name read =>
    if g = .char '=' then { s with mode := .valued read.reverse }
    else if isBlankGlyph g then { s with mode := .named read.reverse }
    else { s with mode := .name (g :: read) }
  | .named name =>
    if g = .char '=' then { s with mode := .valued name }
    else if isBlankGlyph g then s
    else { s with mode := .name [g] }
  | .valued name =>
    if isBlankGlyph g then s
    else if isQuote g then { s with mode := .value name g [] }
    else { s with mode := .bare, seen := name :: s.seen }
  | .value name quote read =>
    if g = quote then
      { mode := .seeking
        seen := name :: s.seen
        found := if name ∈ s.seen then s.found else (name, read.reverse) :: s.found }
    else { s with mode := .value name quote (g :: read) }
  | .bare => if isBlankGlyph g then { s with mode := .seeking } else s

end AttributeScan

def attributes (content : List Glyph) : List (List Glyph × List Glyph) :=
  (content.foldl AttributeScan.step {}).found.reverse

end PlatformCatalog.Markup
