/-!
# Glyphs of a byte stream

A downloaded document is a row of bytes of which not all need form
characters. Read as UTF-8 it is a row of glyphs: characters, and stray bytes
between them. Only a row without stray bytes is a text.
-/

set_option autoImplicit false

namespace PlatformCatalog.Text

inductive Glyph where
  | char (c : Char)
  | stray (b : UInt8)
  deriving DecidableEq, Repr

def continuation? (b : UInt8) : Option Nat :=
  if b.toNat / 64 = 2 then some (b.toNat % 64) else none

def twoByteChar? (a b : UInt8) : Option Char :=
  if 0xC2 ≤ a.toNat ∧ a.toNat ≤ 0xDF then
    (continuation? b).map fun y => Char.ofNat ((a.toNat - 0xC0) * 64 + y)
  else none

def threeByteChar? (a b c : UInt8) : Option Char :=
  if 0xE0 ≤ a.toNat ∧ a.toNat ≤ 0xEF then do
    let y ← continuation? b
    let z ← continuation? c
    let n := ((a.toNat - 0xE0) * 64 + y) * 64 + z
    if 0x800 ≤ n ∧ n.isValidChar then some (Char.ofNat n) else none
  else none

def fourByteChar? (a b c d : UInt8) : Option Char :=
  if 0xF0 ≤ a.toNat ∧ a.toNat ≤ 0xF4 then do
    let x ← continuation? b
    let y ← continuation? c
    let z ← continuation? d
    let n := (((a.toNat - 0xF0) * 64 + x) * 64 + y) * 64 + z
    if 0x10000 ≤ n ∧ n.isValidChar then some (Char.ofNat n) else none
  else none

/-- The character that starts here, and the number of bytes it takes behind the first one. -/
def leadingChar? (a : UInt8) (rest : List UInt8) : Option (Char × Nat) :=
  if a.toNat < 0x80 then some (Char.ofNat a.toNat, 0)
  else match rest with
    | [] => none
    | [b] => (twoByteChar? a b).map (·, 1)
    | [b, c] => ((twoByteChar? a b).map (·, 1)).or ((threeByteChar? a b c).map (·, 2))
    | b :: c :: d :: _ =>
      (((twoByteChar? a b).map (·, 1)).or ((threeByteChar? a b c).map (·, 2))).or
        ((fourByteChar? a b c d).map (·, 3))

namespace Glyph

def ofBytes : List UInt8 → List Glyph
  | [] => []
  | a :: rest =>
    match leadingChar? a rest with
    | some (c, n) => .char c :: ofBytes (rest.drop n)
    | none => .stray a :: ofBytes rest
termination_by bytes => bytes.length
decreasing_by all_goals simp; try omega

def ofString (s : String) : List Glyph := s.toList.map .char

def chars? : List Glyph → Option (List Char)
  | [] => some []
  | .char c :: rest => (c :: ·) <$> chars? rest
  | .stray _ :: _ => none

end Glyph

end PlatformCatalog.Text
