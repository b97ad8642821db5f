import PlatformCatalog.Proofs.AttributeChecks
import PlatformCatalog.Proofs.QuotedValues

/-!
# Names in lower case

A URI is read in lower case. The values that it yields stay as they are when
their bare letters are lower-cased again, and an attribute that takes a value
takes it in lower case too.
-/

set_option autoImplicit false

namespace PlatformCatalog

open Text Formatted

def Symbol.lower : Symbol → Symbol
  | .bare c => .bare c.toLower
  | .escaped c => .escaped c

def Value.lower : Value → Value
  | .text s => .text (mapSymbols Symbol.lower s)
  | v => v

/-- What holds of the characters of all small numbers holds of every ASCII character. -/
@[elab_as_elim]
theorem forall_ascii {P : Char → Prop} {c : Char} (hc : c.toNat < 0x80)
    (h : ∀ n < 0x80, P (Char.ofNat n)) : P c := by
  have hall := h c.toNat hc
  rwa [Char.ofNat_toNat] at hall

theorem isAsciiLetter_iff {c : Char} : isAsciiLetter c = true ↔
    97 ≤ c.toNat ∧ c.toNat ≤ 122 ∨ 65 ≤ c.toNat ∧ c.toNat ≤ 90 := by
  simp only [isAsciiLetter, Bool.or_eq_true, Bool.and_eq_true, decide_eq_true_eq, Char.le_def,
    UInt32.le_iff_toNat_le]
  exact Iff.rfl

theorem isAsciiDigit_iff {c : Char} : isAsciiDigit c = true ↔ 48 ≤ c.toNat ∧ c.toNat ≤ 57 := by
  simp only [isAsciiDigit, Bool.and_eq_true, decide_eq_true_eq, Char.le_def,
    UInt32.le_iff_toNat_le]
  exact Iff.rfl

theorem isWordChar_iff {c : Char} :
    isWordChar c = true ↔ isAsciiLetter c = true ∨ isAsciiDigit c = true ∨ c = '_' := by
  rw [isWordChar, Bool.or_eq_true, Bool.or_eq_true, beq_iff_eq, or_assoc]

theorem toNat_lt_of_isWordChar {c : Char} (h : isWordChar c = true) : c.toNat < 0x80 := by
  rcases isWordChar_iff.mp h with hletter | hdigit | rfl
  · rw [isAsciiLetter_iff] at hletter
    omega
  · rw [isAsciiDigit_iff] at hdigit
    omega
  · decide

theorem toNat_lt_of_isAsciiPunctuation {c : Char} (h : Uri.isAsciiPunctuation c = true) :
    c.toNat < 0x80 := by
  simp only [Uri.isAsciiPunctuation, Bool.or_eq_true, Bool.and_eq_true, decide_eq_true_eq] at h
  omega

theorem toLower_eq_self {c : Char} (h : c.toNat < 65 ∨ 90 < c.toNat) : c.toLower = c := by
  refine dif_neg fun hupper => ?_
  have hlow : 65 ≤ c.toNat := UInt32.le_iff_toNat_le.mp hupper.1
  have hhigh : c.toNat ≤ 90 := UInt32.le_iff_toNat_le.mp hupper.2
  omega

theorem toNat_toLower {c : Char} (h : 65 ≤ c.toNat ∧ c.toNat ≤ 90) :
    c.toLower.toNat = c.toNat + 32 := by
  have hupper : c.val ≥ 'A'.val ∧ c.val ≤ 'Z'.val :=
    ⟨UInt32.le_iff_toNat_le.mpr h.1, UInt32.le_iff_toNat_le.mpr h.2⟩
  have hval : c.toLower.val = c.val + 32 := congrArg Char.val (dif_pos hupper)
  have hsmall : c.val.toNat ≤ 90 := h.2
  calc c.toLower.toNat = (c.val + 32).toNat := congrArg UInt32.toNat hval
    _ = (c.val.toNat + 32) % 2 ^ 32 := UInt32.toNat_add c.val 32
    _ = c.val.toNat + 32 := by omega

theorem toLower_cases (c : Char) :
    (65 ≤ c.toNat ∧ c.toNat ≤ 90) ∧ c.toLower.toNat = c.toNat + 32 ∨ c.toLower = c := by
  by_cases h : 65 ≤ c.toNat ∧ c.toNat ≤ 90
  · exact Or.inl ⟨h, toNat_toLower h⟩
  · exact Or.inr (toLower_eq_self (by omega))

theorem toLower_toLower (c : Char) : c.toLower.toLower = c.toLower := by
  rcases toLower_cases c with ⟨hupper, hlower⟩ | hsame
  · exact toLower_eq_self (by omega)
  · rw [hsame, hsame]

theorem toLower_eq_iff {c d : Char} (hd : d = '*' ∨ d = '?' ∨ d = '\\') : c.toLower = d ↔ c = d := by
  have hnumber : d.toNat = 42 ∨ d.toNat = 63 ∨ d.toNat = 92 := by
    rcases hd with rfl | rfl | rfl <;> decide
  rcases toLower_cases c with ⟨hupper, hlower⟩ | hsame
  · constructor
    · rintro rfl
      omega
    · rintro rfl
      omega
  · rw [hsame]

theorem isAsciiLetter_toLower {c : Char} (h : isAsciiLetter c = true) :
    isAsciiLetter c.toLower = true := by
  rw [isAsciiLetter_iff] at h ⊢
  rcases toLower_cases c with ⟨hupper, hlower⟩ | hsame
  · omega
  · rwa [hsame]

theorem isAsciiDigit_toLower {c : Char} (h : isAsciiDigit c = true) :
    isAsciiDigit c.toLower = true := by
  rw [isAsciiDigit_iff] at h ⊢
  rwa [toLower_eq_self (by omega)]

theorem isWordChar_toLower {c : Char} (h : isWordChar c = true) : isWordChar c.toLower = true := by
  rw [isWordChar_iff] at h ⊢
  rcases h with hletter | hdigit | rfl
  · exact Or.inl (isAsciiLetter_toLower hletter)
  · exact Or.inr (Or.inl (isAsciiDigit_toLower hdigit))
  · exact Or.inr (Or.inr rfl)

theorem harmless_lower : Harmless Char.toLower Symbol.lower where
  bare c := rfl
  letter c hc := isAsciiLetter_toLower hc
  digit c hc := isAsciiDigit_toLower hc
  part c hc := by rcases hc with rfl | rfl | rfl <;> decide
  hyphen := rfl
  wildcard x := by
    cases x with
    | bare c =>
      rw [Bool.eq_iff_iff]
      simp [Symbol.lower, Symbol.isWildcard, toLower_eq_iff]
    | escaped c => rfl
  plain x hx := by
    cases x with
    | bare c => simpa [Symbol.lower, toLower_eq_iff] using hx
    | escaped c => simp [Symbol.lower]

theorem QuestionMarkFits.lower {embedded : Bool} {previous : Option Symbol} {rest : List Symbol}
    (h : QuestionMarkFits embedded previous rest) :
    QuestionMarkFits embedded (previous.map Symbol.lower) (rest.map Symbol.lower) := by
  rcases h with rfl | rfl | ⟨hembedded, rfl⟩ | ⟨hembedded, hrun⟩
  · exact Or.inl rfl
  · exact Or.inr (Or.inl rfl)
  · exact Or.inr (Or.inr (Or.inl ⟨hembedded, rfl⟩))
  · refine Or.inr (Or.inr (Or.inr ⟨hembedded, ?_⟩))
    rw [List.head?_map, hrun]
    rfl

theorem Placed.lower {embedded : Bool} {previous : Option Symbol} {symbols : List Symbol}
    (h : Placed embedded previous symbols) :
    Placed embedded (previous.map Symbol.lower) (symbols.map Symbol.lower) := by
  induction h with
  | nil => exact .nil
  | asterisk hends _ ih => exact .asterisk (hends.imp (by simp [·]) (by simp [·])) ih
  | questionMark hfits _ ih => exact .questionMark hfits.lower ih
  | word hc _ ih => exact .word (isWordChar_toLower hc) ih
  | escaped _ ih => exact .escaped ih

theorem toNat_ofNat (n : Nat) : (Char.ofNat n).toNat = n ∨ (Char.ofNat n).toNat = 0 := by
  by_cases hvalid : n.isValidChar
  · left
    rw [Char.ofNat, dif_pos hvalid]
    rfl
  · right
    rw [Char.ofNat, dif_neg hvalid]
    rfl

theorem toLower_of_mem_lowerChar {c d : Char} (h : d ∈ lowerChar c) : d.toLower = d := by
  rw [lowerChar] at h
  split at h
  · next hc =>
    rw [List.mem_singleton.mp h, toLower_toLower]
  · split at h
    · simp only [List.mem_cons, List.not_mem_nil, or_false] at h
      rcases h with rfl | rfl <;> decide
    · split at h
      · next hc _ r hr =>
        -- no run of the table ends up among the upper-case letters of ASCII
        have hruns : ∀ r ∈ caseRuns, 90 < r.first + r.up - r.down := by decide +kernel
        have hrun := hruns r (List.mem_of_find?_eq_some hr)
        have hcovers := List.find?_some hr
        simp only [CaseRun.covers, Bool.and_eq_true, decide_eq_true_eq] at hcovers
        rw [List.mem_singleton.mp h]
        apply toLower_eq_self
        rcases toNat_ofNat (r.shift c.toNat) with heq | heq
        · rw [heq, CaseRun.shift]
          omega
        · omega
      · next hc _ _ =>
        rw [List.mem_singleton.mp h]
        exact toLower_eq_self (by omega)

theorem toLower_of_mem_lowerFrom {before cs : List Char} :
    ∀ d ∈ lowerFrom before cs, d.toLower = d := by
  induction cs generalizing before with
  | nil => simp [lowerFrom]
  | cons c cs ih =>
    intro d hd
    rw [lowerFrom] at hd
    rcases List.mem_append.mp hd with hd | hd
    · split at hd
      · rw [List.mem_singleton.mp hd, lowerSigma]
        split <;> decide
      · exact toLower_of_mem_lowerChar hd
    · exact ih d hd

namespace Uri

theorem lower_decodeFrom {embedded : Bool} {previous : Option Symbol} {cs : List Char}
    {symbols : List Symbol} (hcs : ∀ c ∈ cs, c.toLower = c)
    (h : decodeFrom embedded previous cs = .ok symbols) : ∀ x ∈ symbols, x.lower = x := by
  fun_induction decodeFrom embedded previous cs generalizing symbols with
  | case1 =>
    cases h
    exact fun x hx => absurd hx List.not_mem_nil
  | case2 _ _ c rest _ ih | case7 _ _ _ _ rest _ _ _ _ _ ih =>
    obtain ⟨_, hrest, rfl⟩ := map_cons_eq_ok_iff.mp h
    exact List.forall_mem_cons.mpr ⟨rfl, ih (fun d hd => hcs d (by simp [hd])) hrest⟩
  | case3 _ _ _ _ rest _ _ _ ih | case5 _ _ _ _ rest _ _ _ _ ih =>
    obtain ⟨_, hrest, rfl⟩ := map_cons_eq_ok_iff.mp h
    exact List.forall_mem_cons.mpr ⟨by decide, ih (fun d hd => hcs d (by simp [hd])) hrest⟩
  | case10 _ _ c rest _ _ _ ih =>
    obtain ⟨_, hrest, rfl⟩ := map_cons_eq_ok_iff.mp h
    have hc : c.toLower = c := hcs c (by simp)
    exact List.forall_mem_cons.mpr
      ⟨congrArg Symbol.bare hc, ih (fun d hd => hcs d (by simp [hd])) hrest⟩
  | case4 | case6 | case8 | case9 | case11 => cases h

theorem lower_readValue {component : List Char} {v : Value} (h : readValue component = .ok v) :
    v.lower = v := by
  cases v with
  | any => rfl
  | na => rfl
  | text s =>
    obtain ⟨symbols, hsymbols, hs⟩ := readValue_eq_text h
    have hlow := lower_decodeFrom toLower_of_mem_lowerFrom hsymbols
    rw [Value.lower, mapSymbols_eq_self (placed_decodeFrom hsymbols).plain hs hlow]

end Uri

end PlatformCatalog
