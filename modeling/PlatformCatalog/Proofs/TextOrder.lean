import Mathlib.Data.String.Basic
import PlatformCatalog.Proofs.TextBytes

/-!
# The order of texts

Texts are compared character by character, and a table compares their bytes.
Both come to the same, for the bytes of a later character are later ones, and
no character has the first bytes of another one.
-/

set_option autoImplicit false

namespace PlatformCatalog.Text

theorem ofNat_lt_ofNat {m n : Nat} (hn : n < 256) (h : m < n) : UInt8.ofNat m < UInt8.ofNat n := by
  rw [UInt8.lt_iff_toNat_lt, toNat_ofNat_byte hn, toNat_ofNat_byte (by omega)]
  exact h

theorem cons_byte_lt {m n : Nat} {xs ys : List UInt8} (hn : n < 256)
    (h : m < n ∨ m = n ∧ xs < ys) : UInt8.ofNat m :: xs < UInt8.ofNat n :: ys := by
  rw [List.cons_lt_cons_iff]
  rcases h with hlt | ⟨rfl, hrest⟩
  · exact Or.inl (ofNat_lt_ofNat hn hlt)
  · exact Or.inr ⟨rfl, hrest⟩

theorem utf8EncodeChar_append_lt {c d : Char} (h : c < d) (xs ys : List UInt8) :
    String.utf8EncodeChar c ++ xs < String.utf8EncodeChar d ++ ys := by
  have hc : c.toNat.isValidChar := c.valid
  have hd : d.toNat.isValidChar := d.valid
  have hmn : c.toNat < d.toNat := h
  have hlt : d.toNat < 0x110000 := by
    rcases hd with h | h <;> omega
  rw [String.utf8EncodeChar, String.utf8EncodeChar]
  simp only [show c.val.toNat = c.toNat from rfl, show d.val.toNat = d.toNat from rfl]
  generalize c.toNat = m at *
  generalize d.toNat = n at *
  clear h hc hd
  split_ifs <;> try omega
  all_goals simp only [List.cons_append, List.nil_append]
  -- The first byte decides unless both characters have as many bytes, and more than one.
  all_goals try exact cons_byte_lt (by omega) (Or.inl (by omega))
  · apply cons_byte_lt (by omega)
    by_cases hfirst : m / 64 = n / 64
    · exact Or.inr ⟨by omega, cons_byte_lt (by omega) (Or.inl (by omega))⟩
    · exact Or.inl (by omega)
  · apply cons_byte_lt (by omega)
    by_cases hfirst : m / 4096 = n / 4096
    · refine Or.inr ⟨by omega, cons_byte_lt (by omega) ?_⟩
      by_cases hsecond : m / 64 = n / 64
      · exact Or.inr ⟨by omega, cons_byte_lt (by omega) (Or.inl (by omega))⟩
      · exact Or.inl (by omega)
    · exact Or.inl (by omega)
  · apply cons_byte_lt (by omega)
    by_cases hfirst : m / 262144 = n / 262144
    · refine Or.inr ⟨by omega, cons_byte_lt (by omega) ?_⟩
      by_cases hsecond : m / 4096 = n / 4096
      · refine Or.inr ⟨by omega, cons_byte_lt (by omega) ?_⟩
        by_cases hthird : m / 64 = n / 64
        · exact Or.inr ⟨by omega, cons_byte_lt (by omega) (Or.inl (by omega))⟩
        · exact Or.inl (by omega)
      · exact Or.inl (by omega)
    · exact Or.inl (by omega)

theorem bytes_lt_of_lt {cs ds : List Char} (h : cs < ds) :
    cs.flatMap String.utf8EncodeChar < ds.flatMap String.utf8EncodeChar := by
  induction cs generalizing ds with
  | nil =>
    cases ds with
    | nil => exact absurd h (List.not_lt_nil [])
    | cons d ds =>
      obtain ⟨b, more, hbytes⟩ := List.exists_cons_of_ne_nil (String.utf8EncodeChar_ne_nil (c := d))
      rw [List.flatMap_cons, hbytes]
      exact List.nil_lt_cons _ _
  | cons c cs ih =>
    cases ds with
    | nil => exact absurd h (List.not_lt_nil _)
    | cons d ds =>
      rw [List.flatMap_cons, List.flatMap_cons]
      rcases List.cons_lt_cons_iff.mp h with hlt | ⟨rfl, hrest⟩
      · exact utf8EncodeChar_append_lt hlt _ _
      · exact List.append_left_lt (ih hrest)

/-- Texts are in the order of their bytes. -/
theorem lt_iff_bytes_lt (s t : String) :
    s < t ↔ s.toUTF8.data.toList < t.toUTF8.data.toList := by
  rw [toList_toUTF8, toList_toUTF8, String.lt_iff_toList_lt]
  constructor
  · exact bytes_lt_of_lt
  · intro h
    rcases lt_trichotomy s.toList t.toList with hlt | heq | hgt
    · exact hlt
    · rw [heq] at h
      exact absurd h (List.lt_irrefl _)
    · exact absurd (bytes_lt_of_lt hgt) (List.lt_asymm h)

end PlatformCatalog.Text
