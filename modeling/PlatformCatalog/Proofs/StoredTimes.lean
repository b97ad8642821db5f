import PlatformCatalog.Proofs.CalendarDays
import PlatformCatalog.Proofs.ReadNames
import PlatformCatalog.Proofs.Stamps

/-!
# Times that a store keeps

A stored time has four digits for the year and two for each other field, and
is read back as the time it was. The strict reader takes a number up to the
first character that is no digit, so each field is read by itself.
-/

set_option autoImplicit false

namespace PlatformCatalog

open Text Time

namespace Text

theorem isDigit_of_mem_padded {w n : Nat} {c : Char} (h : c ∈ (padded w n).toList) :
    c.isDigit = true := by
  rw [padded, String.toList_ofList, List.mem_append] at h
  rcases h with h | h
  · rw [List.eq_of_mem_replicate h]
    decide
  · exact Nat.isDigit_of_mem_toDigits (by decide) (by decide) h

theorem length_padded {w n : Nat} (hw : 0 < w) (h : n < 10 ^ w) :
    (padded w n).toList.length = w := by
  have hlength := (Nat.length_toDigits_le_iff (by decide) hw).mpr h
  rw [padded, String.toList_ofList, List.length_append, List.length_replicate]
  omega

theorem ofDigitChars_padded (w n : Nat) : Nat.ofDigitChars 10 (padded w n).toList 0 = n := by
  rw [padded, String.toList_ofList, Nat.ofDigitChars_append, Nat.ofDigitChars_replicate_zero,
    Nat.mul_zero, Nat.ofDigitChars_ten_toDigits]

end Text

namespace Time.Timestamp

theorem length_le_byteLength (cs : List Char) : cs.length ≤ byteLength cs := by
  have hfrom (n : Nat) : n + cs.length ≤ cs.foldl (fun n c => n + c.utf8Size) n := by
    induction cs generalizing n with
    | nil => exact le_refl _
    | cons c rest ih =>
      have hsize := Char.utf8Size_pos c
      have hrest := ih (n + c.utf8Size)
      rw [List.length_cons, List.foldl_cons]
      omega
  simpa [byteLength] using hfrom 0

def NoDigit : List Char → Prop
  | [] => True
  | c :: _ => digit? 10 c = none

theorem digitsFrom_digits {least most : Nat} {digits rest : List Char}
    (hdigits : ∀ c ∈ digits, c.isDigit = true) (hrest : NoDigit rest) (seen value : Nat)
    (hmost : digits.length ≤ most) (hleast : least ≤ seen + digits.length) :
    digitsFrom least most seen value (digits ++ rest) =
      .ok (Nat.ofDigitChars 10 digits value, rest) := by
  induction digits generalizing most seen value with
  | nil =>
    rw [List.nil_append, Nat.ofDigitChars_nil]
    cases most with
    | zero => rw [digitsFrom]
    | succ most =>
      cases rest with
      | nil => rw [digitsFrom]
      | cons c rest =>
        have hseen : ¬seen < least := Nat.not_lt.mpr hleast
        rw [digitsFrom, show digit? 10 c = none from hrest]
        simp only [if_neg hseen]
  | cons c digits ih =>
    obtain ⟨hc, hdigits⟩ := List.forall_mem_cons.mp hdigits
    rw [List.length_cons] at hmost hleast
    obtain ⟨most, rfl⟩ := Nat.exists_eq_add_of_lt (show 0 < most by omega)
    rw [List.cons_append, digitsFrom, digit?_of_isDigit hc, Nat.ofDigitChars_cons,
      Nat.mul_comm 10]
    exact ih hdigits _ _ (by omega) (by omega)

theorem number_padded {least most w n : Nat} {rest : List Char} (hn : n < 10 ^ w) (hw : 0 < w)
    (hleast : least ≤ w) (hmost : w ≤ most) (hrest : NoDigit rest) :
    number least most ((padded w n).toList ++ rest) = .ok (n, rest) := by
  have hlength := length_padded hw hn
  have hbytes : ¬byteLength ((padded w n).toList ++ rest) < least := by
    have hle := length_le_byteLength ((padded w n).toList ++ rest)
    rw [List.length_append, hlength] at hle
    omega
  rw [number, if_neg hbytes, digitsFrom_digits (fun c => isDigit_of_mem_padded) hrest _ _
    (by omega) (by omega), ofDigitChars_padded]

theorem field_padded {least most n : Nat} {rest : List Char} (hn : least ≤ n ∧ n ≤ most)
    (hmost : most < 100) (hrest : NoDigit rest) :
    field 2 2 least most ((padded 2 n).toList ++ rest) = .ok (n, rest) := by
  have hsmall : n < 10 ^ 2 := by omega
  refine bind_eq_ok_iff.mpr
    ⟨_, number_padded hsmall (by decide) (le_refl 2) (le_refl 2) hrest, ?_⟩
  exact bind_eq_ok_iff.mpr ⟨(), if_pos hn, rfl⟩

theorem noDigit_fractionText (nanos : Nat) (rest : List Char) :
    NoDigit ((fractionText nanos).toList ++ '+' :: rest) := by
  rw [fractionText]
  split_ifs
  · rfl
  all_goals
    rw [String.toList_append]
    rfl

theorem fraction_padded {w n : Nat} (hw : 0 < w) (hw' : w ≤ 9) (hn : n < 10 ^ w)
    (rest : List Char) :
    fraction ('.' :: ((padded w n).toList ++ '+' :: rest)) =
      .ok (n * 10 ^ (9 - w), '+' :: rest) := by
  have hnumber : number 1 9 ((padded w n).toList ++ '+' :: rest) = .ok (n, '+' :: rest) :=
    number_padded hn hw hw hw' rfl
  have hseen : ((padded w n).toList ++ '+' :: rest).length - ('+' :: rest).length = w := by
    rw [List.length_append, length_padded hw hn, Nat.add_sub_cancel]
  have hdrop : ('+' :: rest).dropWhile fraction.isDigitChar = '+' :: rest :=
    List.dropWhile_cons_of_neg (by decide)
  rw [fraction]
  refine bind_eq_ok_iff.mpr ⟨_, hnumber, ?_⟩
  simp only [hseen, hdrop]
  rfl

theorem fraction_fractionText {nanos : Nat} (h : nanos < 1000000000) (rest : List Char) :
    fraction ((fractionText nanos).toList ++ '+' :: rest) = .ok (nanos, '+' :: rest) := by
  have hgroups (w unit : Nat) (hw : 0 < w) (hw' : w ≤ 9) (hunit : unit = 10 ^ (9 - w))
      (hsmall : nanos / unit < 10 ^ w) (hwhole : nanos % unit = 0) :
      fraction (("." ++ padded w (nanos / unit)).toList ++ '+' :: rest) =
        .ok (nanos, '+' :: rest) := by
    have hfraction := fraction_padded hw hw' hsmall rest
    rw [← hunit, Nat.div_mul_cancel (Nat.dvd_of_mod_eq_zero hwhole)] at hfraction
    rw [String.toList_append]
    exact hfraction
  rw [fractionText]
  split_ifs with hzero hmilli hmicro
  · rw [hzero]
    rfl
  · exact hgroups 3 1000000 (by decide) (by decide) (by decide) (by omega) hmilli
  · exact hgroups 6 1000 (by decide) (by decide) (by decide) (by omega) hmicro
  · have hnano := hgroups 9 1 (by decide) (by decide) (by decide) (by omega) (Nat.mod_one nanos)
    rwa [Nat.div_one] at hnano

/-- A year of four digits, and a fraction below a second but in a leap second, which ends a
minute. -/
structure Storable (t : Timestamp) : Prop where
  year : 0 ≤ t.date.year ∧ t.date.year ≤ 9999
  nanos : t.nanos < 2000000000
  leap : 1000000000 ≤ t.nanos → t.seconds % 60 = 59

theorem secondOfDay_lt (t : Timestamp) : (t.seconds.fmod secondsPerDay).toNat < 86400 := by
  rw [Int.fmod_eq_emod_of_nonneg _ (by decide), secondsPerDay]
  omega

theorem seconds_eq (t : Timestamp) : t.seconds.fdiv secondsPerDay * secondsPerDay +
    (t.seconds.fmod secondsPerDay).toNat = t.seconds := by
  rw [Int.fdiv_eq_ediv_of_nonneg _ (by decide), Int.fmod_eq_emod_of_nonneg _ (by decide),
    secondsPerDay]
  omega

variable {t : Timestamp}

theorem Storable.clock_bounds (h : t.Storable) :
    t.clock.hour ≤ 23 ∧ t.clock.minute ≤ 59 ∧ t.clock.second ≤ 60 ∧
      t.clock.nanos < 1000000000 := by
  have hday := secondOfDay_lt t
  have hnanos := h.nanos
  simp only [clock]
  split_ifs <;> omega

theorem Storable.ofClock_clock (h : t.Storable) : ofClock t.date t.clock 0 = t := by
  have hseconds := seconds_eq t
  obtain ⟨seconds, nanos⟩ := t
  obtain ⟨_, hnanos, hleap⟩ := h
  simp only [ofClock, date, Date.toDays_ofDays, clock, secondsPerDay]
    at hseconds hnanos hleap ⊢
  generalize (seconds.fmod 86400).toNat = s at *
  rw [Timestamp.mk.injEq]
  split_ifs <;> omega

theorem toList_stored (hyear : 0 ≤ t.date.year ∧ t.date.year ≤ 9999) :
    t.stored.toList = (padded 4 t.date.year.toNat).toList ++ '-' ::
      ((padded 2 t.date.month).toList ++ '-' :: ((padded 2 t.date.day).toList ++ 'T' ::
      ((padded 2 t.clock.hour).toList ++ ':' :: ((padded 2 t.clock.minute).toList ++ ':' ::
      ((padded 2 t.clock.second).toList ++ ((fractionText t.clock.nanos).toList ++
      '+' :: "00:00".toList)))))) := by
  have hdash : "-".toList = ['-'] := rfl
  have hcolon : ":".toList = [':'] := rfl
  have hclock : "T".toList = ['T'] := rfl
  have hzone : "+00:00".toList = '+' :: "00:00".toList := rfl
  simp only [stored, write, yearText, if_pos hyear, String.toList_append, List.append_assoc,
    hdash, hcolon, hclock, hzone, List.cons_append, List.nil_append]

/-- A time in a year of four digits is read back from a store as it was. -/
theorem readStrict_stored (h : t.Storable) : readStrict t.stored = .ok t := by
  obtain ⟨hhour, hminute, hsecond, hnanos⟩ := h.clock_bounds
  have hvalid : t.date.Valid := Date.valid_ofDays _
  have hday : t.date.day ≤ 31 := by
    have hle := hvalid.2.2.2
    rw [daysInMonth] at hle
    split_ifs at hle <;> omega
  have hyear : (t.date.year.toNat : Int) = t.date.year := Int.toNat_of_nonneg h.year.1
  have hyearRead (rest : List Char) :
      number 4 4 ((padded 4 t.date.year.toNat).toList ++ '-' :: rest) =
        .ok (t.date.year.toNat, '-' :: rest) :=
    number_padded (by have := h.year; omega) (by decide) (le_refl 4) (le_refl 4) rfl
  have hread {n least most : Nat} (hn : least ≤ n ∧ n ≤ most) (hmost : most < 100) (c : Char)
      (hc : digit? 10 c = none) (rest : List Char) :
      field 2 2 least most ((padded 2 n).toList ++ c :: rest) = .ok (n, c :: rest) :=
    field_padded hn hmost hc
  have hmonthRead := hread ⟨hvalid.1, hvalid.2.1⟩ (by decide) '-' rfl
  have hdayRead := hread ⟨hvalid.2.2.1, hday⟩ (by decide) 'T' rfl
  have hhourRead := hread ⟨Nat.zero_le _, hhour⟩ (by decide) ':' rfl
  have hminuteRead := hread ⟨Nat.zero_le _, hminute⟩ (by decide) ':' rfl
  have hsecondRead := field_padded ⟨Nat.zero_le _, hsecond⟩ (by decide)
    (noDigit_fractionText t.clock.nanos "00:00".toList)
  have hzone : offset (literal ':') ('+' :: "00:00".toList) = .ok (0, []) := rfl
  have hassemble : assemble ⟨t.date.year.toNat, t.date.month, t.date.day⟩ t.clock 0 = .ok t := by
    rw [hyear, assemble, if_pos hvalid, h.ofClock_clock]
  simp only [readStrict, toList_stored h.year, hyearRead, hmonthRead, hdayRead, hhourRead,
    hminuteRead, hsecondRead, fraction_fractionText hnanos, hzone, literal, dateEnd, ↓reduceIte,
    true_or, bind, Except.bind]
  exact hassemble

end Time.Timestamp

end PlatformCatalog
