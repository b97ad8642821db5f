import PlatformCatalog.Proofs.LowerCase

/-!
# Percent codes

The text of a value in a URI is ASCII as long as the value quotes nothing but
ASCII punctuation, so it is read back in lower case letter by letter. Then
every percent code yields the symbol that it was made of.
-/

set_option autoImplicit false

namespace PlatformCatalog

open Text Formatted

def Value.IsCoded : Value → Prop
  | .text s => ∀ x ∈ Symbol.ofChars s.toList, x.IsCoded
  | _ => True

namespace Uri

instance (x : Symbol) : Decidable x.IsCoded :=
  match x with
  | .bare _ => isTrue trivial
  | .escaped c => inferInstanceAs (Decidable (isAsciiPunctuation c = true))

instance (v : Value) : Decidable v.IsCoded :=
  match v with
  | .text s => inferInstanceAs (Decidable (∀ x ∈ Symbol.ofChars s.toList, x.IsCoded))
  | .any | .na => isTrue trivial

theorem percentCode_eq {c : Char} (h : c.toNat < 0x80) :
    percentCode c = ['%', Nat.digitChar (c.toNat / 16), Nat.digitChar (c.toNat % 16)] :=
  forall_ascii h (by decide +kernel)

theorem punctuation?_digits {c : Char} (h : isAsciiPunctuation c = true) :
    punctuation? (Nat.digitChar (c.toNat / 16)) (Nat.digitChar (c.toNat % 16)) = some c ∧
      Nat.digitChar (c.toNat / 16) ≠ '0' := by
  have hascii := toNat_lt_of_isAsciiPunctuation h
  revert h
  exact forall_ascii hascii (by decide +kernel)

section

variable {embedded : Bool} {previous : Option Symbol}

theorem decodeFrom_word {c : Char} (hc : isWordChar c = true) (rest : List Char) :
    decodeFrom embedded previous (c :: rest) =
      (.bare c :: ·) <$> decodeFrom true (some (.bare c)) rest := by
  have hdot : c ≠ '.' := isWordChar_ne hc (by decide)
  have hhyphen : c ≠ '-' := isWordChar_ne hc (by decide)
  have htilde : c ≠ '~' := isWordChar_ne hc (by decide)
  have hpercent : c ≠ '%' := isWordChar_ne hc (by decide)
  rw [decodeFrom.eq_def]
  simp only [hdot, hhyphen, htilde, hpercent, hc, or_self, if_true, if_false]

theorem decodeFrom_code (high low : Char) (rest : List Char) :
    decodeFrom embedded previous ('%' :: high :: low :: rest) =
      if high = '0' ∧ low = '1' then
        if questionMarkFits embedded previous rest then
          (.bare '?' :: ·) <$> decodeFrom embedded (some (.bare '?')) rest
        else .error .embeddedWildcard
      else if high = '0' ∧ low = '2' then
        if previous.isNone || rest.isEmpty then
          (.bare '*' :: ·) <$> decodeFrom embedded (some (.bare '*')) rest
        else .error .embeddedWildcard
      else match punctuation? high low with
        | some p => (.escaped p :: ·) <$> decodeFrom true (some (.escaped p)) rest
        | none => .error .invalidPercentEncoding := by
  rw [decodeFrom]
  exact (if_neg (by decide)).trans (if_pos rfl)

theorem decodeFrom_asterisk {rest : List Char} (h : previous = none ∨ rest = []) :
    decodeFrom embedded previous ('%' :: '0' :: '2' :: rest) =
      (.bare '*' :: ·) <$> decodeFrom embedded (some (.bare '*')) rest := by
  rw [decodeFrom_code, if_neg (by decide), if_pos ⟨rfl, rfl⟩, if_pos (by simpa using h)]

theorem decodeFrom_questionMark {rest : List Char}
    (h : questionMarkFits embedded previous rest = true) :
    decodeFrom embedded previous ('%' :: '0' :: '1' :: rest) =
      (.bare '?' :: ·) <$> decodeFrom embedded (some (.bare '?')) rest := by
  rw [decodeFrom_code, if_pos ⟨rfl, rfl⟩, if_pos h]

theorem decodeFrom_escapedText {c : Char} (hc : isAsciiPunctuation c = true) (rest : List Char) :
    decodeFrom embedded previous (escapedText c ++ rest) =
      (.escaped c :: ·) <$> decodeFrom true (some (.escaped c)) rest := by
  rw [escapedText]
  by_cases hbare : c = '-' ∨ c = '.'
  · rw [if_pos hbare, List.singleton_append, decodeFrom.eq_def]
    rcases hbare with rfl | rfl <;> rfl
  · have hascii := toNat_lt_of_isAsciiPunctuation hc
    obtain ⟨hcode, hhigh⟩ := punctuation?_digits hc
    rw [if_neg hbare, if_pos hascii, percentCode_eq hascii]
    refine (decodeFrom_code _ _ rest).trans ?_
    rw [if_neg fun hwild => hhigh hwild.1, if_neg fun hwild => hhigh hwild.1, hcode]

theorem startsWithQuestionMark_flatMap {rest : List Symbol}
    (h : rest.head? = some (.bare '?')) :
    startsWithQuestionMark (rest.flatMap symbolText) = true := by
  cases rest with
  | nil => cases h
  | cons x rest =>
    cases h
    rfl

theorem decodeFrom_flatMap {symbols : List Symbol} (h : Placed embedded previous symbols)
    (hcoded : ∀ x ∈ symbols, x.IsCoded) :
    decodeFrom embedded previous (symbols.flatMap symbolText) = .ok symbols := by
  induction h with
  | nil => rfl
  | @asterisk _ _ rest hends _ ih =>
    have hfits := hends.imp_right (congrArg (List.flatMap symbolText))
    have ih := ih (List.forall_mem_cons.mp hcoded).2
    rw [List.flatMap_cons]
    exact (decodeFrom_asterisk hfits).trans (by rw [ih]; rfl)
  | @questionMark embedded previous rest hfits _ ih =>
    have hstands : questionMarkFits embedded previous (rest.flatMap symbolText) = true := by
      rw [questionMarkFits]
      rcases hfits with rfl | rfl | ⟨rfl, rfl⟩ | ⟨rfl, hrun⟩
      · simp
      · simp
      · simp
      · simp [startsWithQuestionMark_flatMap hrun]
    have ih := ih (List.forall_mem_cons.mp hcoded).2
    rw [List.flatMap_cons]
    exact (decodeFrom_questionMark hstands).trans (by rw [ih]; rfl)
  | @word _ _ rest c hc _ ih =>
    have hquestion : c ≠ '?' := isWordChar_ne hc (by decide)
    have hasterisk : c ≠ '*' := isWordChar_ne hc (by decide)
    have ih := ih (List.forall_mem_cons.mp hcoded).2
    rw [List.flatMap_cons, symbolText, if_neg hquestion, if_neg hasterisk, List.singleton_append,
      decodeFrom_word hc, ih]
    rfl
  | escaped _ ih =>
    obtain ⟨hc, hrest⟩ := List.forall_mem_cons.mp hcoded
    rw [List.flatMap_cons, symbolText, decodeFrom_escapedText hc, ih hrest]
    rfl

end

theorem symbolText_lower {x : Symbol} (hfits : x.Fits) (hcoded : x.IsCoded) :
    ((symbolText x).all fun c => c.toNat < 0x80) = true ∧
      (symbolText x).map Char.toLower = symbolText x.lower := by
  cases x with
  | bare c =>
    rcases hfits with hword | rfl | rfl
    · exact forall_ascii (toNat_lt_of_isWordChar hword) (by decide +kernel)
    · decide
    · decide
  | escaped c => exact forall_ascii (toNat_lt_of_isAsciiPunctuation hcoded) (by decide +kernel)

theorem lowerChars_flatMap {symbols : List Symbol} (hfit : Fit symbols)
    (hcoded : ∀ x ∈ symbols, x.IsCoded) :
    lowerChars (symbols.flatMap symbolText) = (symbols.map Symbol.lower).flatMap symbolText := by
  have hascii : ∀ c ∈ symbols.flatMap symbolText, c.toNat < 0x80 := by
    intro c hc
    obtain ⟨x, hx, hcx⟩ := List.mem_flatMap.mp hc
    simpa using List.all_eq_true.mp (symbolText_lower (hfit x hx) (hcoded x hx)).1 c hcx
  have hlower : ∀ x ∈ symbols, (symbolText x).map Char.toLower = symbolText x.lower := fun x hx =>
    (symbolText_lower (hfit x hx) (hcoded x hx)).2
  rw [lowerChars, lowerFrom_ascii _ _ hascii, List.map_flatMap, List.flatMap_map, List.flatMap_def,
    List.map_congr_left hlower, ← List.flatMap_def]

theorem isCoded_lower_iff {x : Symbol} : x.lower.IsCoded ↔ x.IsCoded := by
  cases x <;> rfl

theorem isCoded_of_lower {v : Value} (hplaced : v.IsPlaced) (h : v.lower.IsCoded) : v.IsCoded := by
  cases v with
  | any => trivial
  | na => trivial
  | text s =>
    obtain ⟨symbols, hplaced, hs⟩ := hplaced
    have hlower := ofChars_mapSymbols hplaced.plain hs (harmless_lower.plain_map hplaced.plain)
    rw [Value.lower, Value.IsCoded, hlower] at h
    rw [Value.IsCoded, hplaced.ofChars_eq hs]
    exact fun x hx => isCoded_lower_iff.mp (h x.lower (List.mem_map_of_mem hx))

theorem isCoded_readValue {component : List Char} {v : Value}
    (h : readValue component = .ok v) : v.IsCoded := by
  cases v with
  | any => trivial
  | na => trivial
  | text s =>
    obtain ⟨symbols, hsymbols, hs⟩ := readValue_eq_text h
    rw [Value.IsCoded, (placed_decodeFrom hsymbols).ofChars_eq hs]
    exact isCoded_decodeFrom hsymbols

theorem eq_of_flatMap_eq {xs ys : List Symbol} (hxs : Placed false none xs)
    (hys : Placed false none ys) (hxcoded : ∀ x ∈ xs, x.IsCoded) (hycoded : ∀ y ∈ ys, y.IsCoded)
    (h : xs.flatMap symbolText = ys.flatMap symbolText) : xs = ys := by
  have hread := decodeFrom_flatMap hxs hxcoded
  rw [h, decodeFrom_flatMap hys hycoded] at hread
  exact (Except.ok.inj hread).symm

/-- What is read back of a value: a lone hyphen stands for no value. -/
def readBack (v : Value) : Value := if v = .text "\\-" then .na else v.lower

theorem readValue_valueText {a : Attribute} {v : Value} (hplaced : v.IsPlaced)
    (hcheck : checkValue a v = .ok ()) (hcoded : v.IsCoded) :
    readValue (valueText v) = .ok (readBack v) := by
  cases v with
  | any => rfl
  | na => rfl
  | text s =>
    rw [readBack]
    split
    · next hs =>
      cases hs
      rfl
    · next hhyphen =>
      obtain ⟨symbols, hplaced, hs⟩ := hplaced
      have hsymbols := hplaced.ofChars_eq hs
      have hcoded : ∀ x ∈ symbols, x.IsCoded := hsymbols ▸ hcoded
      have hlower : Placed false none (symbols.map Symbol.lower) := hplaced.lower
      have hlowerCoded : ∀ x ∈ symbols.map Symbol.lower, x.IsCoded := by
        simpa [isCoded_lower_iff] using hcoded
      have hempty : symbols.flatMap symbolText ≠ [] := by
        intro hnil
        have hsame := eq_of_flatMap_eq hplaced .nil hcoded (by simp) hnil
        rw [hsame] at hs
        exact (checkText_eq_ok_iff.mp hcheck).1 (String.toList_eq_nil_iff.mp hs)
      have hlone : symbols.flatMap symbolText ≠ ['-'] := by
        intro hchar
        have hlast : ∀ x ∈ [Symbol.escaped '-'], x.IsCoded := by decide
        have hsame := eq_of_flatMap_eq hplaced (.escaped .nil) hcoded hlast hchar
        rw [hsame] at hs
        exact hhyphen (congrArg Value.text (String.toList_inj.mp hs))
      rw [valueText, hsymbols, readValue, if_neg hempty, if_neg hlone,
        lowerChars_flatMap hplaced.fit hcoded, decodeFrom_flatMap hlower hlowerCoded, Value.lower,
        mapSymbols_eq hplaced.plain hs]

theorem checkValue_readBack {a : Attribute} {v : Value} (hplaced : v.IsPlaced)
    (hcheck : checkValue a v = .ok ()) : checkValue a (readBack v) = .ok () := by
  rw [readBack]
  split
  · rfl
  · cases v with
    | any => rfl
    | na => rfl
    | text s =>
      obtain ⟨symbols, hplaced, hs⟩ := hplaced
      exact harmless_lower.checkText hplaced.plain hs hcheck

end Uri

end PlatformCatalog
