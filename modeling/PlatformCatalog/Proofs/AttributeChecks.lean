import PlatformCatalog.Name.Basic

/-!
# What attributes take

An attribute goes on taking a text while its symbols change in ways that do
not concern it: wildcards stay wildcards, letters letters, and the quoted
hyphen of a language tag stays what it is.
-/

set_option autoImplicit false

namespace PlatformCatalog

namespace Symbol

theorem toChars_append (xs ys : List Symbol) : toChars (xs ++ ys) = toChars xs ++ toChars ys := by
  induction xs with
  | nil => rfl
  | cons x xs ih => cases x <;> simp [toChars, ih]

theorem toChars_map_bare (cs : List Char) : toChars (cs.map .bare) = cs := by
  induction cs with
  | nil => rfl
  | cons c cs ih => rw [List.map_cons, toChars, ih]

theorem ofChars_bare_append {cs : List Char} (h : ∀ c ∈ cs, c ≠ '\\') (rest : List Char) :
    ofChars (cs ++ rest) = cs.map .bare ++ ofChars rest := by
  induction cs with
  | nil => rfl
  | cons c cs ih =>
    obtain ⟨hc, hcs⟩ := List.forall_mem_cons.mp h
    rw [List.cons_append, List.map_cons, List.cons_append, ← ih hcs]
    cases cs ++ rest with
    | nil => simp [ofChars, hc]
    | cons d more => rw [ofChars, if_neg hc]

theorem toChars_eq_nil {symbols : List Symbol} (h : toChars symbols = []) : symbols = [] := by
  cases symbols with
  | nil => rfl
  | cons x rest => cases x <;> cases h

end Symbol

def mapSymbols (f : Symbol → Symbol) (s : String) : String :=
  String.ofList (Symbol.toChars ((Symbol.ofChars s.toList).map f))

theorem mapSymbols_eq {symbols : List Symbol} (hplain : Symbol.Plain symbols) {s : String}
    (hs : s.toList = Symbol.toChars symbols) (f : Symbol → Symbol) :
    mapSymbols f s = String.ofList (Symbol.toChars (symbols.map f)) := by
  rw [mapSymbols, hs, Symbol.ofChars_toChars hplain]

theorem mapSymbols_eq_self {symbols : List Symbol} (hplain : Symbol.Plain symbols) {s : String}
    (hs : s.toList = Symbol.toChars symbols) {f : Symbol → Symbol} (hf : ∀ x ∈ symbols, f x = x) :
    mapSymbols f s = s := by
  rw [mapSymbols_eq hplain hs, List.map_congr_left hf, List.map_id', ← hs, String.ofList_toList]

theorem ofChars_mapSymbols {symbols : List Symbol} (hplain : Symbol.Plain symbols) {s : String}
    (hs : s.toList = Symbol.toChars symbols) {f : Symbol → Symbol}
    (hchanged : Symbol.Plain (symbols.map f)) :
    Symbol.ofChars (mapSymbols f s).toList = symbols.map f := by
  rw [mapSymbols_eq hplain hs, String.toList_ofList, Symbol.ofChars_toChars hchanged]

/-- A text is not empty, and part and language have rules of their own. -/
theorem checkText_eq_ok_iff {a : Attribute} {s : String} :
    checkText a s = .ok () ↔ s ≠ "" ∧ (a = .part → s = "a" ∨ s = "o" ∨ s = "h") ∧
      (a = .language → hasWildcard s.toList = true ∨ isLanguageTag s.toList = true) := by
  unfold checkText
  by_cases hs : s = ""
  · simp [hs]
  · rw [if_neg (by simpa using hs)]
    cases a with
    | part => by_cases hpart : s = "a" ∨ s = "o" ∨ s = "h" <;> simp [hs, hpart]
    | language =>
      by_cases htag : (hasWildcard s.toList || isLanguageTag s.toList) = true
      · rw [if_pos htag]
        simpa [hs] using htag
      · rw [if_neg htag]
        simpa [hs] using htag
    | _ => simp [hs]

theorem isAsciiLetter_ne {c d : Char} (hc : isAsciiLetter c = true) (hd : isAsciiLetter d = false) :
    c ≠ d := by
  rintro rfl
  rw [hc] at hd
  cases hd

theorem isAsciiDigit_ne {c d : Char} (hc : isAsciiDigit c = true) (hd : isAsciiDigit d = false) :
    c ≠ d := by
  rintro rfl
  rw [hc] at hd
  cases hd

structure IsTag (letters rest : List Char) : Prop where
  length : letters.length = 2 ∨ letters.length = 3
  letters : ∀ c ∈ letters, isAsciiLetter c = true
  rest : rest = [] ∨ ∃ region, isRegion region = true ∧ rest = '\\' :: '-' :: region

theorem isTag_of_isLanguageTag {cs : List Char} (h : isLanguageTag cs = true) :
    ∃ letters rest, cs = letters ++ rest ∧ IsTag letters rest := by
  refine ⟨cs.takeWhile isAsciiLetter, cs.dropWhile isAsciiLetter,
    List.takeWhile_append_dropWhile.symm, ?_⟩
  simp only [isLanguageTag, Bool.and_eq_true, Bool.or_eq_true, beq_iff_eq] at h
  refine ⟨h.1, List.all_eq_true.mp List.all_takeWhile, ?_⟩
  have hrest := h.2
  split at hrest
  · next hnil => exact Or.inl hnil
  · next region hregion => exact Or.inr ⟨region, hrest, hregion⟩
  · cases hrest

theorem IsTag.isLanguageTag {letters rest : List Char} (h : IsTag letters rest) :
    isLanguageTag (letters ++ rest) = true := by
  have hstop : rest.takeWhile isAsciiLetter = [] := by
    rcases h.rest with rfl | ⟨region, _, rfl⟩
    · rfl
    · exact List.takeWhile_cons_of_neg (by decide)
  have htake : (letters ++ rest).takeWhile isAsciiLetter = letters := by
    rw [List.takeWhile_append_of_pos h.letters, hstop, List.append_nil]
  have hdrop : (letters ++ rest).dropWhile isAsciiLetter = rest := by
    rw [List.dropWhile_append_of_pos h.letters]
    rcases h.rest with rfl | ⟨region, _, rfl⟩
    · rfl
    · exact List.dropWhile_cons_of_neg (by decide)
  rw [PlatformCatalog.isLanguageTag, htake, hdrop]
  rcases h.rest with rfl | ⟨region, hregion, rfl⟩
  · simpa using h.length
  · simpa [hregion] using h.length

theorem isRegion_ne {region : List Char} (h : isRegion region = true) :
    ∀ c ∈ region, c ≠ '\\' := by
  simp only [isRegion, Bool.or_eq_true, Bool.and_eq_true, List.all_eq_true] at h
  rcases h with ⟨_, hletters⟩ | ⟨_, hdigits⟩
  · exact fun c hc => isAsciiLetter_ne (hletters c hc) (by decide)
  · exact fun c hc => isAsciiDigit_ne (hdigits c hc) (by decide)

/-- A change of symbols that attributes do not mind: bare characters change by `f`. -/
structure Harmless (f : Char → Char) (g : Symbol → Symbol) : Prop where
  bare : ∀ c, g (.bare c) = .bare (f c)
  letter : ∀ c, isAsciiLetter c = true → isAsciiLetter (f c) = true
  digit : ∀ c, isAsciiDigit c = true → isAsciiDigit (f c) = true
  part : ∀ c, c = 'a' ∨ c = 'o' ∨ c = 'h' → f c = c
  hyphen : g (.escaped '-') = .escaped '-'
  wildcard : ∀ x, (g x).isWildcard = x.isWildcard
  plain : ∀ x, x ≠ .bare '\\' → g x ≠ .bare '\\'

namespace Harmless

variable {f : Char → Char} {g : Symbol → Symbol}

theorem plain_map (hg : Harmless f g) {symbols : List Symbol} (h : Symbol.Plain symbols) :
    Symbol.Plain (symbols.map g) := by
  intro hm
  obtain ⟨x, hx, hgx⟩ := List.mem_map.mp hm
  exact hg.plain x (fun hbare => h (hbare ▸ hx)) hgx

theorem map_bare (hg : Harmless f g) (cs : List Char) :
    (cs.map Symbol.bare).map g = (cs.map f).map Symbol.bare := by
  simp [hg.bare]

theorem isRegion_map (hg : Harmless f g) {region : List Char} (h : isRegion region = true) :
    isRegion (region.map f) = true := by
  simp only [isRegion, Bool.or_eq_true, Bool.and_eq_true, List.all_eq_true, List.length_map,
    List.forall_mem_map] at h ⊢
  rcases h with ⟨hlength, hletters⟩ | ⟨hlength, hdigits⟩
  · exact Or.inl ⟨hlength, fun c hc => hg.letter c (hletters c hc)⟩
  · exact Or.inr ⟨hlength, fun c hc => hg.digit c (hdigits c hc)⟩

theorem isLanguageTag_map (hg : Harmless f g) {cs : List Char} (h : isLanguageTag cs = true) :
    isLanguageTag (Symbol.toChars ((Symbol.ofChars cs).map g)) = true := by
  obtain ⟨letters, rest, rfl, htag⟩ := isTag_of_isLanguageTag h
  have hplain : ∀ c ∈ letters, c ≠ '\\' := fun c hc =>
    isAsciiLetter_ne (htag.letters c hc) (by decide)
  have hletters : ∀ c ∈ letters.map f, isAsciiLetter c = true := by
    simpa using fun c hc => hg.letter c (htag.letters c hc)
  rw [Symbol.ofChars_bare_append hplain, List.map_append, hg.map_bare, Symbol.toChars_append,
    Symbol.toChars_map_bare]
  refine IsTag.isLanguageTag ⟨by simpa using htag.length, hletters, ?_⟩
  rcases htag.rest with rfl | ⟨region, hregion, rfl⟩
  · exact Or.inl rfl
  · refine Or.inr ⟨region.map f, hg.isRegion_map hregion, ?_⟩
    have hbare := Symbol.ofChars_bare_append (isRegion_ne hregion) []
    rw [List.append_nil, Symbol.ofChars, List.append_nil] at hbare
    rw [Symbol.ofChars, if_pos rfl, hbare, List.map_cons, hg.hyphen, hg.map_bare, Symbol.toChars,
      Symbol.toChars_map_bare]

theorem hasWildcard_map (hg : Harmless f g) {symbols : List Symbol} (h : Symbol.Plain symbols) :
    hasWildcard (Symbol.toChars (symbols.map g)) = hasWildcard (Symbol.toChars symbols) := by
  rw [hasWildcard, hasWildcard, Symbol.ofChars_toChars (hg.plain_map h),
    Symbol.ofChars_toChars h, List.any_map]
  exact congrArg symbols.any (funext hg.wildcard)

theorem checkText (hg : Harmless f g) {symbols : List Symbol} (hplain : Symbol.Plain symbols)
    {a : Attribute} {s : String} (hs : s.toList = Symbol.toChars symbols)
    (h : checkText a s = .ok ()) : checkText a (mapSymbols g s) = .ok () := by
  obtain ⟨hempty, hpart, hlanguage⟩ := checkText_eq_ok_iff.mp h
  rw [mapSymbols_eq hplain hs]
  have hsymbols : symbols = Symbol.ofChars s.toList := by rw [hs, Symbol.ofChars_toChars hplain]
  refine checkText_eq_ok_iff.mpr ⟨fun hnil => ?_, fun ha => ?_, fun ha => ?_⟩
  · have hchars : Symbol.toChars (symbols.map g) = [] := String.ofList_eq_empty_iff.mp hnil
    rw [List.map_eq_nil_iff.mp (Symbol.toChars_eq_nil hchars)] at hs
    exact hempty (String.toList_eq_nil_iff.mp hs)
  · have hsame : String.ofList (Symbol.toChars (symbols.map g)) = s := by
      rw [hsymbols]
      rcases hpart ha with rfl | rfl | rfl
      · simp [Symbol.ofChars, hg.bare, hg.part 'a', Symbol.toChars]
      · simp [Symbol.ofChars, hg.bare, hg.part 'o', Symbol.toChars]
      · simp [Symbol.ofChars, hg.bare, hg.part 'h', Symbol.toChars]
    rw [hsame]
    exact hpart ha
  · rw [String.toList_ofList]
    rcases hlanguage ha with hwild | htag
    · rw [hs] at hwild
      exact Or.inl ((hg.hasWildcard_map hplain).trans hwild)
    · rw [hsymbols]
      exact Or.inr (hg.isLanguageTag_map htag)

end Harmless

end PlatformCatalog
