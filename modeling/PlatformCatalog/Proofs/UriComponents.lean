import PlatformCatalog.Proofs.PercentCodes
import PlatformCatalog.Proofs.WildcardFrames

/-!
# The grammar of URI components

A component in lower case is a row of units: characters that stand for
themselves and percent codes. The reader takes the rows with wildcards at
their ends only, and it yields one symbol for each unit.
-/

set_option autoImplicit false

namespace PlatformCatalog.Uri

open Text Formatted
open PlatformCatalog.Symbol (toChars)

/-- What the reader takes at once: a character, or a percent sign and two digits. -/
inductive Token where
  | plain (c : Char)
  | code (high low : Char)

def codedChar (high low : Char) : Char :=
  if high = '0' ∧ low = '1' then '?'
  else if high = '0' ∧ low = '2' then '*'
  else Char.ofNat ((numeral? 16 [high, low]).getD 0)

def decoded : List Char → List Char
  | '%' :: high :: low :: rest => codedChar high low :: decoded rest
  | c :: rest => c :: decoded rest
  | [] => []

namespace Token

def chars : Token → List Char
  | plain c => [c]
  | code high low => ['%', high, low]

def char : Token → Char
  | plain c => c
  | code high low => codedChar high low

def wildcards : Wildcards Token where
  asterisk := code '0' '2'
  questionMark := code '0' '1'
  differ := by simp

/-- The characters that stand for themselves, the codes of ASCII punctuation, and the wildcards. -/
def IsValid : Token → Prop
  | plain c => ('a' ≤ c ∧ c ≤ 'z') ∨ ('0' ≤ c ∧ c ≤ '9') ∨ c ∈ ['_', '.', '~', '-']
  | code high low => (high = '0' ∧ (low = '1' ∨ low = '2')) ∨
      ∃ n, numeral? 16 [high, low] = some n ∧ isAsciiPunctuation (Char.ofNat n) = true

def symbol : Token → Symbol
  | plain c => if isWordChar c then .bare c else .escaped c
  | code high low =>
    if high = '0' ∧ (low = '1' ∨ low = '2') then .bare (codedChar high low)
    else .escaped (codedChar high low)

theorem char_symbol (x : Token) : x.symbol.char = x.char := by
  cases x with
  | plain c =>
    rw [symbol]
    split <;> rfl
  | code high low =>
    rw [symbol]
    split <;> rfl

theorem isBody_code_iff {high low : Char} :
    wildcards.IsBody (code high low) ↔ ¬(high = '0' ∧ (low = '1' ∨ low = '2')) := by
  simp only [Wildcards.IsBody, wildcards, ne_eq, code.injEq, and_or_left, not_or, and_comm]

theorem symbol_eq_questionMark_iff {x : Token} :
    x.symbol = .bare '?' ↔ x = wildcards.questionMark := by
  constructor
  · intro h
    cases x with
    | plain c =>
      rw [symbol] at h
      split at h
      · next hc =>
        cases h
        exact absurd hc (by decide)
      · cases h
    | code high low =>
      rw [symbol] at h
      split at h
      · next hwild =>
        obtain ⟨rfl, rfl | rfl⟩ := hwild
        · rfl
        · exact absurd h (by decide)
      · cases h
  · rintro rfl
    decide

theorem chars_ne_nil (x : Token) : x.chars ≠ [] := by
  cases x <;> simp [chars]

theorem flatMap_chars_eq_nil_iff {row : List Token} : row.flatMap chars = [] ↔ row = [] := by
  cases row with
  | nil => simp
  | cons x row => simp [chars_ne_nil]

theorem plain_ne_percent {c : Char} (h : (plain c).IsValid) : c ≠ '%' := by
  rintro rfl
  revert h
  simp only [IsValid]
  decide

theorem startsWithQuestionMark_iff {row : List Token} (h : ∀ x ∈ row, x.IsValid) :
    startsWithQuestionMark (row.flatMap chars) = true ↔
      row.head? = some wildcards.questionMark := by
  cases row with
  | nil => simp [startsWithQuestionMark]
  | cons x row =>
    cases x with
    | plain c =>
      have hc := plain_ne_percent (h (plain c) (by simp))
      simp [startsWithQuestionMark, chars, hc, wildcards]
    | code high low => simp [startsWithQuestionMark, chars, wildcards]

theorem questionMarkFits_iff {embedded : Bool} {previous : Option Token} {row : List Token}
    (h : ∀ x ∈ row, x.IsValid) :
    questionMarkFits embedded (previous.map symbol) (row.flatMap chars) = true ↔
      wildcards.QuestionMarkFits embedded previous row := by
  have hprevious : previous.map symbol = some (.bare '?') ↔
      previous = some wildcards.questionMark := by
    cases previous <;> simp [symbol_eq_questionMark_iff]
  simp only [questionMarkFits, Wildcards.QuestionMarkFits, Bool.or_eq_true, Bool.and_eq_true,
    startsWithQuestionMark_iff h, Option.isNone_iff_eq_none, Option.map_eq_none_iff,
    List.isEmpty_iff, flatMap_chars_eq_nil_iff, beq_iff_eq, hprevious, Bool.not_eq_true',
    or_assoc]

end Token

section

open Token

variable {embedded : Bool} {previous : Option Symbol}

theorem decodeFrom_body {x : Token} (hvalid : x.IsValid) (hbody : wildcards.IsBody x)
    (rest : List Char) :
    decodeFrom embedded previous (x.chars ++ rest) =
      (x.symbol :: ·) <$> decodeFrom true (some x.symbol) rest := by
  cases x with
  | plain c =>
    by_cases hword : isWordChar c = true
    · rw [symbol, if_pos hword]
      exact decodeFrom_word hword rest
    · have hmark : c = '.' ∨ c = '-' ∨ c = '~' := by
        rcases hvalid with hc | hc | hc
        · exact absurd (by simp [isWordChar, isAsciiLetter, hc]) hword
        · exact absurd (by simp [isWordChar, isAsciiDigit, hc]) hword
        · have hunderscore : c ≠ '_' := by
            rintro rfl
            exact hword (by decide)
          simpa [hunderscore, or_comm, or_left_comm] using hc
      rw [symbol, if_neg hword, chars, List.singleton_append, decodeFrom.eq_def]
      exact if_pos hmark
  | code high low =>
    have hwild := isBody_code_iff.mp hbody
    obtain ⟨n, hn, hpunctuation⟩ := hvalid.resolve_left hwild
    have hquestion : ¬(high = '0' ∧ low = '1') := fun h => hwild ⟨h.1, Or.inl h.2⟩
    have hasterisk : ¬(high = '0' ∧ low = '2') := fun h => hwild ⟨h.1, Or.inr h.2⟩
    have hcode : punctuation? high low = some (codedChar high low) := by
      rw [codedChar, if_neg hquestion, if_neg hasterisk, punctuation?, hn]
      exact if_pos hpunctuation
    rw [symbol, if_neg hwild]
    refine (decodeFrom_code high low rest).trans ?_
    rw [if_neg hquestion, if_neg hasterisk, hcode]

theorem decodeFrom_asterisk_eq_ok_iff {rest : List Char} {symbols : List Symbol} :
    decodeFrom embedded previous ('%' :: '0' :: '2' :: rest) = .ok symbols ↔
      (previous = none ∨ rest = []) ∧
        ∃ more, decodeFrom embedded (some (.bare '*')) rest = .ok more ∧
          .bare '*' :: more = symbols := by
  by_cases hends : previous = none ∨ rest = []
  · rw [decodeFrom_asterisk hends, map_cons_eq_ok_iff]
    simp [hends]
  · rw [decodeFrom_code, if_neg (by decide), if_pos ⟨rfl, rfl⟩, if_neg (by simpa using hends)]
    simp [hends]

theorem decodeFrom_questionMark_eq_ok_iff {rest : List Char} {symbols : List Symbol} :
    decodeFrom embedded previous ('%' :: '0' :: '1' :: rest) = .ok symbols ↔
      questionMarkFits embedded previous rest = true ∧
        ∃ more, decodeFrom embedded (some (.bare '?')) rest = .ok more ∧
          .bare '?' :: more = symbols := by
  by_cases hfits : questionMarkFits embedded previous rest = true
  · rw [decodeFrom_questionMark hfits, map_cons_eq_ok_iff]
    simp [hfits]
  · rw [decodeFrom_code, if_pos ⟨rfl, rfl⟩, if_neg hfits]
    simp [hfits]

end

open Token in
theorem decodeFrom_row {row : List Token} (h : ∀ x ∈ row, x.IsValid) {embedded : Bool}
    {previous : Option Token} {symbols : List Symbol} :
    decodeFrom embedded (previous.map symbol) (row.flatMap chars) = .ok symbols ↔
      wildcards.Passes embedded previous row ∧ symbols = row.map symbol := by
  induction row using wildcards.unit_induction generalizing embedded previous symbols with
  | nil => simp [decodeFrom, Wildcards.Passes.nil, eq_comm]
  | asterisk rest ih =>
    have hrest := (List.forall_mem_cons.mp h).2
    have hrow : (wildcards.asterisk :: rest).flatMap chars =
        '%' :: '0' :: '2' :: rest.flatMap chars := rfl
    have hmore : ∀ more, decodeFrom embedded (some (.bare '*')) (rest.flatMap chars) = .ok more ↔
        wildcards.Passes embedded (some wildcards.asterisk) rest ∧ more = rest.map symbol :=
      @ih hrest embedded (some wildcards.asterisk)
    rw [hrow, decodeFrom_asterisk_eq_ok_iff, Option.map_eq_none_iff, flatMap_chars_eq_nil_iff,
      Wildcards.passes_asterisk]
    simp only [hmore]
    constructor
    · rintro ⟨hends, more, ⟨hpasses, rfl⟩, rfl⟩
      exact ⟨⟨hends, hpasses⟩, rfl⟩
    · rintro ⟨⟨hends, hpasses⟩, rfl⟩
      exact ⟨hends, _, ⟨hpasses, rfl⟩, rfl⟩
  | questionMark rest ih =>
    have hrest := (List.forall_mem_cons.mp h).2
    have hrow : (wildcards.questionMark :: rest).flatMap chars =
        '%' :: '0' :: '1' :: rest.flatMap chars := rfl
    have hmore : ∀ more, decodeFrom embedded (some (.bare '?')) (rest.flatMap chars) = .ok more ↔
        wildcards.Passes embedded (some wildcards.questionMark) rest ∧ more = rest.map symbol :=
      @ih hrest embedded (some wildcards.questionMark)
    rw [hrow, decodeFrom_questionMark_eq_ok_iff, questionMarkFits_iff hrest,
      Wildcards.passes_questionMark]
    simp only [hmore]
    constructor
    · rintro ⟨hfits, more, ⟨hpasses, rfl⟩, rfl⟩
      exact ⟨⟨hfits, hpasses⟩, rfl⟩
    · rintro ⟨⟨hfits, hpasses⟩, rfl⟩
      exact ⟨hfits, _, ⟨hpasses, rfl⟩, rfl⟩
  | body x rest hx ih =>
    obtain ⟨hvalid, hrest⟩ := List.forall_mem_cons.mp h
    have hmore : ∀ more, decodeFrom true (some x.symbol) (rest.flatMap chars) = .ok more ↔
        wildcards.Passes true (some x) rest ∧ more = rest.map symbol :=
      @ih hrest true (some x)
    rw [List.flatMap_cons, decodeFrom_body hvalid hx, map_cons_eq_ok_iff,
      Wildcards.passes_body hx]
    simp only [hmore]
    constructor
    · rintro ⟨more, ⟨hpasses, rfl⟩, rfl⟩
      exact ⟨hpasses, rfl⟩
    · rintro ⟨hpasses, rfl⟩
      exact ⟨_, ⟨hpasses, rfl⟩, rfl⟩

structure Spells (cs : List Char) (row : List Token) : Prop where
  valid : ∀ x ∈ row, x.IsValid
  chars_eq : cs = row.flatMap Token.chars

theorem Spells.cons {x : Token} (hx : x.IsValid) {cs : List Char} {row : List Token}
    (h : Spells cs row) : Spells (x.chars ++ cs) (x :: row) :=
  ⟨List.forall_mem_cons.mpr ⟨hx, h.valid⟩, by rw [h.chars_eq, List.flatMap_cons]⟩

theorem Token.isValid_plain {c : Char} (hc : c.toLower = c) (hword : isWordChar c = true) :
    (plain c).IsValid := by
  have hchanged : 'A' ≤ c ∧ c ≤ 'Z' → c.toLower ≠ c := by
    rintro ⟨hlow, hhigh⟩ heq
    have hmore := toNat_toLower ⟨UInt32.le_iff_toNat_le.mp hlow, UInt32.le_iff_toNat_le.mp hhigh⟩
    rw [heq] at hmore
    omega
  simp only [isWordChar, isAsciiLetter, isAsciiDigit, Bool.or_eq_true, Bool.and_eq_true,
    decide_eq_true_eq, beq_iff_eq] at hword
  rcases hword with ((hletter | hupper) | hdigit) | rfl
  · exact Or.inl hletter
  · exact absurd hc (hchanged hupper)
  · exact Or.inr (Or.inl hdigit)
  · exact Or.inr (Or.inr (by decide))

theorem Token.isValid_code {high low p : Char} (h : punctuation? high low = some p) :
    (code high low).IsValid := by
  rw [punctuation?] at h
  split at h
  · next n hn =>
    split at h
    · next hp => exact Or.inr ⟨n, hn, hp⟩
    · cases h
  · cases h

theorem spells_of_decodeFrom {embedded : Bool} {previous : Option Symbol} {cs : List Char}
    {symbols : List Symbol} (hcs : ∀ c ∈ cs, c.toLower = c)
    (h : decodeFrom embedded previous cs = .ok symbols) : ∃ row, Spells cs row := by
  fun_induction decodeFrom embedded previous cs generalizing symbols with
  | case1 => exact ⟨[], by simp, rfl⟩
  | case2 _ _ c rest hmark ih =>
    obtain ⟨_, hmore, _⟩ := map_cons_eq_ok_iff.mp h
    obtain ⟨row, hrow⟩ := ih (fun d hd => hcs d (by simp [hd])) hmore
    have hvalid : (Token.plain c).IsValid := by
      rcases hmark with rfl | rfl | rfl <;> exact Or.inr (Or.inr (by decide))
    exact ⟨.plain c :: row, hrow.cons hvalid⟩
  | case3 _ _ high low rest hcode _ _ ih | case5 _ _ high low rest _ hcode _ _ ih =>
    obtain ⟨_, hmore, _⟩ := map_cons_eq_ok_iff.mp h
    obtain ⟨row, hrow⟩ := ih (fun d hd => hcs d (by simp [hd])) hmore
    have hvalid : (Token.code high low).IsValid := Or.inl ⟨hcode.1, by simp [hcode.2]⟩
    exact ⟨.code high low :: row, hrow.cons hvalid⟩
  | case7 _ _ high low rest _ _ _ hcode _ ih =>
    obtain ⟨_, hmore, _⟩ := map_cons_eq_ok_iff.mp h
    obtain ⟨row, hrow⟩ := ih (fun d hd => hcs d (by simp [hd])) hmore
    exact ⟨.code high low :: row, hrow.cons (Token.isValid_code hcode)⟩
  | case10 _ _ c rest _ _ hword ih =>
    obtain ⟨_, hmore, _⟩ := map_cons_eq_ok_iff.mp h
    obtain ⟨row, hrow⟩ := ih (fun d hd => hcs d (by simp [hd])) hmore
    exact ⟨.plain c :: row, hrow.cons (Token.isValid_plain (hcs c (by simp)) hword)⟩
  | case4 | case6 | case8 | case9 | case11 => cases h

theorem decodeFrom_eq_ok_iff {cs : List Char} (hcs : ∀ c ∈ cs, c.toLower = c) (hne : cs ≠ [])
    {symbols : List Symbol} :
    decodeFrom false none cs = .ok symbols ↔
      ∃ row, Spells cs row ∧ Token.wildcards.IsFramed row ∧ symbols = row.map Token.symbol := by
  constructor
  · intro h
    obtain ⟨row, hvalid, rfl⟩ := spells_of_decodeFrom hcs h
    obtain ⟨hpasses, hsymbols⟩ := (@decodeFrom_row _ hvalid false none symbols).mp h
    have hrow : row ≠ [] := by
      rintro rfl
      exact hne rfl
    exact ⟨row, ⟨hvalid, rfl⟩, Wildcards.passes_iff_isFramed.mp ⟨hpasses, hrow⟩, hsymbols⟩
  · rintro ⟨row, ⟨hvalid, rfl⟩, hframed, hsymbols⟩
    have hpasses := (Wildcards.passes_iff_isFramed.mpr hframed).1
    exact (@decodeFrom_row _ hvalid false none symbols).mpr ⟨hpasses, hsymbols⟩

/-- The value that a component stands for. A text has the symbols of a framed row of tokens, which
the component spells in lower case. -/
inductive StandsFor (component : List Char) : Value → Prop
  | any : component = [] → StandsFor component .any
  | na : component = ['-'] → StandsFor component .na
  | text {row : List Token} : component ≠ ['-'] → Spells (lowerChars component) row →
      Token.wildcards.IsFramed row →
      StandsFor component (.text (String.ofList (toChars (row.map Token.symbol))))

theorem lowerChar_ne_nil (c : Char) : lowerChar c ≠ [] := by
  rw [lowerChar]
  split
  · simp
  · split
    · simp
    · split <;> simp

theorem lowerChars_ne_nil {cs : List Char} (h : cs ≠ []) : lowerChars cs ≠ [] := by
  obtain ⟨c, rest, rfl⟩ := List.exists_cons_of_ne_nil h
  rw [lowerChars, lowerFrom]
  refine List.append_ne_nil_of_left_ne_nil ?_ _
  split
  · simp
  · exact lowerChar_ne_nil c

theorem Spells.ne_nil {component : List Char} {row : List Token}
    (h : Spells (lowerChars component) row) (hframed : Token.wildcards.IsFramed row) :
    component ≠ [] := by
  rintro rfl
  have hrow := (Wildcards.passes_iff_isFramed.mpr hframed).2
  exact hrow (Token.flatMap_chars_eq_nil_iff.mp h.chars_eq.symm)

theorem readValue_eq_ok_iff {component : List Char} {v : Value} :
    readValue component = .ok v ↔ StandsFor component v := by
  have hread := fun hne symbols => @decodeFrom_eq_ok_iff (lowerChars component)
    toLower_of_mem_lowerFrom (lowerChars_ne_nil hne) symbols
  constructor
  · intro h
    rw [readValue] at h
    split at h
    · next hany =>
      cases h
      exact .any hany
    · next hany =>
      split at h
      · next hna =>
        cases h
        exact .na hna
      · next hna =>
        split at h
        · next symbols hsymbols =>
          cases h
          obtain ⟨row, hspells, hframed, rfl⟩ := (hread hany symbols).mp hsymbols
          exact .text hna hspells hframed
        · cases h
  · intro h
    cases h with
    | any hany =>
      rw [hany]
      rfl
    | na hna =>
      rw [hna]
      rfl
    | text hna hspells hframed =>
      have hany := hspells.ne_nil hframed
      rw [readValue, if_neg hany, if_neg hna, (hread hany _).mpr ⟨_, hspells, hframed, rfl⟩]

theorem Token.fits_symbol (x : Token) : x.symbol.Fits := by
  cases x with
  | plain c =>
    rw [symbol]
    split
    · next hword => exact Or.inl hword
    · trivial
  | code high low =>
    rw [symbol]
    split
    · next hwild =>
      obtain ⟨rfl, rfl | rfl⟩ := hwild
      · exact Or.inr (Or.inr rfl)
      · exact Or.inr (Or.inl rfl)
    · trivial

theorem fit_map_symbol (row : List Token) : Fit (row.map Token.symbol) := by
  intro x hx
  obtain ⟨token, _, rfl⟩ := List.mem_map.mp hx
  exact token.fits_symbol

theorem decoded_flatMap {row : List Token} (h : ∀ x ∈ row, x.IsValid) :
    decoded (row.flatMap Token.chars) = row.map Token.char := by
  induction row with
  | nil => rfl
  | cons x row ih =>
    obtain ⟨hx, hrow⟩ := List.forall_mem_cons.mp h
    rw [List.map_cons, ← ih hrow, List.flatMap_cons]
    cases x with
    | plain c =>
      rw [Token.chars, List.singleton_append, decoded]
      · rfl
      · exact fun _ _ _ hpercent _ => Token.plain_ne_percent hx hpercent
    | code high low => rfl

/-- Unquoted, a text is the component in lower case with its percent codes decoded. -/
theorem StandsFor.unquote_eq {component : List Char} {s : String}
    (h : StandsFor component (.text s)) :
    unquote s = String.ofList (decoded (lowerChars component)) := by
  cases h with
  | text _ hspells _ =>
    rw [unquote, String.toList_ofList, Symbol.ofChars_toChars (plain_of_fit (fit_map_symbol _)),
      hspells.chars_eq, decoded_flatMap hspells.valid, List.map_map]
    exact congrArg String.ofList (List.map_congr_left fun x _ => x.char_symbol)

end PlatformCatalog.Uri
