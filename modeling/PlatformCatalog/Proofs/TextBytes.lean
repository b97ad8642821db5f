import PlatformCatalog.Proofs.JsonRoundTrip

/-!
# The bytes of a text

The bytes of a text in UTF-8 are read as its characters, without a stray one.
So a document that is written compactly is read from its bytes as the value
it was written from.
-/

set_option autoImplicit false

namespace PlatformCatalog

namespace Text

theorem toNat_ofNat_byte {n : Nat} (hn : n < 256) : (UInt8.ofNat n).toNat = n :=
  UInt8.toNat_ofNat_of_lt' hn

theorem continuation?_ofNat {n : Nat} (hn : n < 64) :
    continuation? (UInt8.ofNat (n + 0x80)) = some n := by
  rw [continuation?, toNat_ofNat_byte (by omega), if_pos (by omega)]
  congr 1
  omega

theorem leadingChar?_of_two {a b : UInt8} {c : Char} (ha : 0x80 ≤ a.toNat)
    (h : twoByteChar? a b = some c) (rest : List UInt8) :
    leadingChar? a (b :: rest) = some (c, 1) := by
  rw [leadingChar?.eq_def, if_neg (Nat.not_lt.mpr ha)]
  match rest with
  | [] | [_] | _ :: _ :: _ => simp [h]

theorem leadingChar?_of_three {a b d : UInt8} {c : Char} (ha : 0xE0 ≤ a.toNat)
    (h : threeByteChar? a b d = some c) (rest : List UInt8) :
    leadingChar? a (b :: d :: rest) = some (c, 2) := by
  have htwo : twoByteChar? a b = none := if_neg (by omega)
  rw [leadingChar?.eq_def, if_neg (by omega)]
  match rest with
  | [] | _ :: _ => simp [htwo, h]

theorem leadingChar?_of_four {a b d e : UInt8} {c : Char} (ha : 0xF0 ≤ a.toNat)
    (h : fourByteChar? a b d e = some c) (rest : List UInt8) :
    leadingChar? a (b :: d :: e :: rest) = some (c, 3) := by
  have htwo : twoByteChar? a b = none := if_neg (by omega)
  have hthree : threeByteChar? a b d = none := if_neg (by omega)
  rw [leadingChar?, if_neg (by omega)]
  simp [htwo, hthree, h]

/-- The bytes of a character are read as this character, whatever follows. -/
theorem exists_leadingChar?_eq (c : Char) :
    ∃ a bytes, String.utf8EncodeChar c = a :: bytes ∧
      ∀ rest, leadingChar? a (bytes ++ rest) = some (c, bytes.length) := by
  have hvalid : c.toNat.isValidChar := c.valid
  have hlt : c.toNat < 0x110000 := by
    rcases hvalid with h | h <;> omega
  have hself : Char.ofNat c.toNat = c := Char.ofNat_toNat c
  rw [String.utf8EncodeChar]
  simp only [show c.val.toNat = c.toNat from rfl]
  generalize c.toNat = n at *
  -- One case for each number of bytes: their digits put the number together again.
  split_ifs with hone htwo hthree
  · refine ⟨_, _, rfl, fun rest => ?_⟩
    rw [leadingChar?.eq_def, toNat_ofNat_byte (by omega), if_pos (by omega), hself]
    rfl
  · refine ⟨_, _, rfl, fun rest => leadingChar?_of_two ?_ ?_ rest⟩
    · rw [toNat_ofNat_byte (by omega)]
      omega
    · rw [twoByteChar?, toNat_ofNat_byte (by omega), if_pos (by omega),
        continuation?_ofNat (Nat.mod_lt _ (by decide)), Option.map_some, ← hself]
      congr 2
      omega
  · refine ⟨_, _, rfl, fun rest => leadingChar?_of_three ?_ ?_ rest⟩
    · rw [toNat_ofNat_byte (by omega)]
      omega
    · rw [threeByteChar?, toNat_ofNat_byte (by omega), if_pos (by omega),
        continuation?_ofNat (Nat.mod_lt _ (by decide)),
        continuation?_ofNat (Nat.mod_lt _ (by decide))]
      have hsum : ((n / 4096 % 16 + 0xE0 - 0xE0) * 64 + n / 64 % 64) * 64 + n % 64 = n := by omega
      simp only [Option.bind_eq_bind, Option.bind_some, hsum, hself]
      exact if_pos ⟨by omega, hvalid⟩
  · refine ⟨_, _, rfl, fun rest => leadingChar?_of_four ?_ ?_ rest⟩
    · rw [toNat_ofNat_byte (by omega)]
      omega
    · rw [fourByteChar?, toNat_ofNat_byte (by omega), if_pos (by omega),
        continuation?_ofNat (Nat.mod_lt _ (by decide)),
        continuation?_ofNat (Nat.mod_lt _ (by decide)),
        continuation?_ofNat (Nat.mod_lt _ (by decide))]
      have hsum : (((n / 262144 % 8 + 0xF0 - 0xF0) * 64 + n / 4096 % 64) * 64 + n / 64 % 64) * 64 +
          n % 64 = n := by omega
      simp only [Option.bind_eq_bind, Option.bind_some, hsum, hself]
      exact if_pos ⟨by omega, hvalid⟩

theorem utf8EncodeChar_cases (c : Char) :
    String.utf8EncodeChar c = [UInt8.ofNat c.toNat] ∧ c.toNat < 0x80 ∨
      ∀ b ∈ String.utf8EncodeChar c, 0x80 ≤ b.toNat := by
  have hvalid : c.toNat.isValidChar := c.valid
  have hlt : c.toNat < 0x110000 := by
    rcases hvalid with h | h <;> omega
  rw [String.utf8EncodeChar]
  simp only [show c.val.toNat = c.toNat from rfl]
  split_ifs with hone htwo hthree
  · exact Or.inl ⟨rfl, by omega⟩
  all_goals
    refine Or.inr fun b hb => ?_
    simp only [List.mem_cons, List.not_mem_nil, or_false] at hb
  · rcases hb with rfl | rfl <;> rw [toNat_ofNat_byte (by omega)] <;> omega
  · rcases hb with rfl | rfl | rfl <;> rw [toNat_ofNat_byte (by omega)] <;> omega
  · rcases hb with rfl | rfl | rfl | rfl <;> rw [toNat_ofNat_byte (by omega)] <;> omega

theorem eq_of_mem_utf8EncodeChar {c d : Char} (hd : d.toNat < 0x80)
    (h : UInt8.ofNat d.toNat ∈ String.utf8EncodeChar c) : c = d := by
  have hbyte : (UInt8.ofNat d.toNat).toNat = d.toNat := toNat_ofNat_byte (by omega)
  rcases utf8EncodeChar_cases c with ⟨hsingle, hc⟩ | hall
  · rw [hsingle, List.mem_singleton] at h
    have hnat := congrArg UInt8.toNat h
    rw [hbyte, toNat_ofNat_byte (by omega)] at hnat
    exact Char.toNat_inj.mp hnat.symm
  · have hlow := hall _ h
    omega

theorem toList_toUTF8 (s : String) :
    s.toUTF8.data.toList = s.toList.flatMap String.utf8EncodeChar := by
  obtain ⟨cs, rfl⟩ : ∃ cs, s = String.ofList cs := ⟨s.toList, String.ofList_toList.symm⟩
  have hbytes : (String.ofList cs).toUTF8 = (cs.flatMap String.utf8EncodeChar).toByteArray := rfl
  rw [hbytes, List.toList_data_toByteArray, String.toList_ofList]

namespace Glyph

theorem ofBytes_flatMap_utf8EncodeChar (cs : List Char) :
    ofBytes (cs.flatMap String.utf8EncodeChar) = cs.map .char := by
  induction cs with
  | nil => rw [List.flatMap_nil, ofBytes, List.map_nil]
  | cons c cs ih =>
    obtain ⟨a, bytes, hbytes, hleading⟩ := exists_leadingChar?_eq c
    rw [List.flatMap_cons, hbytes, List.cons_append, ofBytes, hleading]
    simp only [List.drop_left, ih, List.map_cons]

theorem ofBytes_toUTF8 (s : String) : ofBytes s.toUTF8.data.toList = ofString s := by
  rw [toList_toUTF8, ofBytes_flatMap_utf8EncodeChar, ofString]

end Glyph

end Text

namespace Json

open Text

theorem parseBytes_compact {v : Json} (hv : v.IsTextual) :
    parseBytes v.compact.toUTF8.data.toList = some v := by
  rw [parseBytes, Glyph.ofBytes_toUTF8, ← parse, parse_compact v hv]

end Json

end PlatformCatalog
