import PlatformCatalog.Proofs.UriRoundTrip

/-!
# Names with the same URI

A URI confuses a lone hyphen with no value, and a quoted control character
with the wildcard that has its percent code. Everything else about a name can
be told from its URI.
-/

set_option autoImplicit false

namespace PlatformCatalog

open Text Formatted

def Symbol.inUri : Symbol → Symbol
  | .bare c => .bare c
  | .escaped c =>
    if c = '\x01' then .bare '?' else if c = '\x02' then .bare '*' else .escaped c

/-- The value as far as a URI tells it. -/
def Value.inUri : Value → Value
  | .text s =>
    if s = "\\-" then .na
    else .text (mapSymbols Symbol.inUri s)
  | v => v

def Name.inUri (n : Name) : Name := n.map Value.inUri

namespace Uri

def firstSymbol : List Char → Option (Symbol × List Char)
  | [] => none
  | c :: rest =>
    if c = '%' then
      match rest with
      | high :: low :: rest =>
        (numeral? 16 [high, low]).map fun n => ((Symbol.escaped (Char.ofNat n)).inUri, rest)
      | _ => none
    else some (if isWordChar c then .bare c else .escaped c, rest)

theorem firstSymbol_cons {c : Char} (hc : c ≠ '%') (rest : List Char) :
    firstSymbol (c :: rest) = some (if isWordChar c then .bare c else .escaped c, rest) := by
  rw [firstSymbol.eq_def]
  exact if_neg hc

theorem numeral?_digits {c : Char} (h : c.toNat < 0x80) :
    numeral? 16 [Nat.digitChar (c.toNat / 16), Nat.digitChar (c.toNat % 16)] = some c.toNat :=
  forall_ascii h (by decide +kernel)

theorem firstSymbol_escapedText (c : Char) (rest : List Char) :
    firstSymbol (escapedText c ++ rest) = some ((Symbol.escaped c).inUri, rest) := by
  rw [escapedText]
  by_cases hbare : c = '-' ∨ c = '.'
  · rcases hbare with rfl | rfl <;> rfl
  · rw [if_neg hbare]
    by_cases hascii : c.toNat < 0x80
    · rw [if_pos hascii, percentCode_eq hascii]
      simp [firstSymbol, numeral?_digits hascii]
    · have hne : ∀ d : Char, d.toNat < 0x80 → c ≠ d := by
        rintro d hd rfl
        exact hascii hd
      have hword : ¬isWordChar c = true := fun hword => hascii (toNat_lt_of_isWordChar hword)
      rw [if_neg hascii, List.singleton_append, firstSymbol_cons (hne '%' (by decide)),
        if_neg hword, Symbol.inUri, if_neg (hne _ (by decide)), if_neg (hne _ (by decide))]

theorem firstSymbol_symbolText {x : Symbol} (hx : x.Fits) (rest : List Char) :
    firstSymbol (symbolText x ++ rest) = some (x.inUri, rest) := by
  cases x with
  | bare c =>
    rcases hx with hword | rfl | rfl
    · have hquestion : c ≠ '?' := isWordChar_ne hword (by decide)
      have hasterisk : c ≠ '*' := isWordChar_ne hword (by decide)
      have hpercent : c ≠ '%' := isWordChar_ne hword (by decide)
      rw [symbolText, if_neg hquestion, if_neg hasterisk, List.singleton_append,
        firstSymbol_cons hpercent, if_pos hword]
      rfl
    · rfl
    · rfl
  | escaped c => exact firstSymbol_escapedText c rest

theorem map_inUri_eq {xs ys : List Symbol} (hxs : Fit xs) (hys : Fit ys)
    (h : xs.flatMap symbolText = ys.flatMap symbolText) :
    xs.map Symbol.inUri = ys.map Symbol.inUri := by
  have hfirst := congrArg firstSymbol h
  induction xs generalizing ys with
  | nil =>
    cases ys with
    | nil => rfl
    | cons y ys =>
      rw [List.flatMap_cons, firstSymbol_symbolText (hys y (by simp))] at hfirst
      cases hfirst
  | cons x xs ih =>
    obtain ⟨hx, hxs⟩ := List.forall_mem_cons.mp hxs
    rw [List.flatMap_cons, firstSymbol_symbolText hx] at hfirst
    cases ys with
    | nil => cases hfirst
    | cons y ys =>
      obtain ⟨hy, hys⟩ := List.forall_mem_cons.mp hys
      rw [List.flatMap_cons, firstSymbol_symbolText hy] at hfirst
      obtain ⟨hsymbol, hrest⟩ := Prod.mk.inj (Option.some.inj hfirst)
      rw [List.map_cons, List.map_cons, hsymbol, ih hxs hys hrest (congrArg firstSymbol hrest)]

theorem symbolText_inUri (x : Symbol) : symbolText x.inUri = symbolText x := by
  cases x with
  | bare c => rfl
  | escaped c =>
    rw [Symbol.inUri]
    split
    · next hc =>
      subst hc
      decide
    · split
      · next hc =>
        subst hc
        decide
      · rfl

def symbols : Value → List Symbol
  | .any => []
  | .na => [.escaped '-']
  | .text s => Symbol.ofChars s.toList

def valueOf (row : List Symbol) : Value :=
  if row = [] then .any
  else if row = [.escaped '-'] then .na
  else .text (String.ofList (Symbol.toChars row))

theorem valueText_eq_flatMap (v : Value) : valueText v = (symbols v).flatMap symbolText := by
  cases v <;> rfl

theorem inUri_eq_hyphen {x : Symbol} (h : x.inUri = .escaped '-') : x = .escaped '-' := by
  cases x with
  | bare c => cases h
  | escaped c =>
    rw [Symbol.inUri] at h
    split at h
    · cases h
    · split at h
      · cases h
      · exact h

section

variable {a : Attribute} {v w : Value}

theorem fit_symbols (h : v.IsPlaced) : Fit (symbols v) := by
  cases v with
  | any => simp [symbols, Fit]
  | na => simp [symbols, Fit, Symbol.Fits]
  | text s =>
    obtain ⟨row, hplaced, hs⟩ := h
    rw [symbols, hplaced.ofChars_eq hs]
    exact hplaced.fit

theorem inUri_eq_valueOf (hplaced : v.IsPlaced) (hcheck : checkValue a v = .ok ()) :
    v.inUri = valueOf ((symbols v).map Symbol.inUri) := by
  cases v with
  | any => rfl
  | na => rfl
  | text s =>
    obtain ⟨row, hplaced, hs⟩ := hplaced
    rw [Value.inUri]
    split
    · next hhyphen =>
      subst hhyphen
      rfl
    · next hhyphen =>
      have hnil : row ≠ [] := by
        rintro rfl
        exact (checkText_eq_ok_iff.mp hcheck).1 (String.toList_eq_nil_iff.mp hs)
      have hlone : row.map Symbol.inUri ≠ [.escaped '-'] := by
        intro hlone
        obtain ⟨x, rfl, hx⟩ := List.map_eq_singleton_iff.mp hlone
        rw [inUri_eq_hyphen hx] at hs
        exact hhyphen (String.toList_inj.mp hs)
      rw [symbols, hplaced.ofChars_eq hs, valueOf, if_neg (by simpa using hnil), if_neg hlone,
        mapSymbols_eq hplaced.plain hs]

theorem plain_inUri {row : List Symbol} (h : Symbol.Plain row) :
    Symbol.Plain (row.map Symbol.inUri) := by
  intro hm
  obtain ⟨x, hx, hbackslash⟩ := List.mem_map.mp hm
  cases x with
  | bare c => exact h (hbackslash ▸ hx)
  | escaped c =>
    rw [Symbol.inUri] at hbackslash
    split at hbackslash
    · cases hbackslash
    · split at hbackslash <;> cases hbackslash

theorem valueText_inUri (h : v.IsPlaced) : valueText v.inUri = valueText v := by
  cases v with
  | any => rfl
  | na => rfl
  | text s =>
    rw [Value.inUri]
    split
    · next hhyphen =>
      subst hhyphen
      rfl
    · obtain ⟨row, hplaced, hs⟩ := h
      rw [valueText, valueText, ofChars_mapSymbols hplaced.plain hs (plain_inUri hplaced.plain),
        hplaced.ofChars_eq hs, List.flatMap_map]
      exact congrArg (row.flatMap ·) (funext symbolText_inUri)

theorem inUri_eq_of_valueText_eq (hv : v.IsPlaced) (hw : w.IsPlaced)
    (hvcheck : checkValue a v = .ok ()) (hwcheck : checkValue a w = .ok ())
    (h : valueText v = valueText w) : v.inUri = w.inUri := by
  rw [valueText_eq_flatMap, valueText_eq_flatMap] at h
  rw [inUri_eq_valueOf hv hvcheck, inUri_eq_valueOf hw hwcheck,
    map_inUri_eq (fit_symbols hv) (fit_symbols hw) h]

theorem inUri_eq_any_iff : v.inUri = .any ↔ v = .any := by
  cases v with
  | any => simp [Value.inUri]
  | na => simp [Value.inUri]
  | text s =>
    rw [Value.inUri]
    split <;> simp

end

section

variable {m n : Name}

theorem componentText_inUri (hn : n.Each Value.IsPlaced) (a : Attribute) :
    componentText n.inUri a = componentText n a := by
  have htext : ∀ a, valueText (n.inUri.get a) = valueText (n.get a) := by
    intro a
    rw [Name.inUri, Name.get_map, valueText_inUri (hn a).1]
  have hunset : extendedUnset n.inUri = extendedUnset n := by
    simp [extendedUnset, Name.inUri, Name.get_map, inUri_eq_any_iff]
  by_cases h : a = .edition ∧ extendedUnset n = false
  · rw [h.1, componentText_packed h.2, componentText_packed (hunset.trans h.2)]
    simp only [htext]
  · rw [componentText_unpacked h, componentText_unpacked (hunset ▸ h), htext]

theorem write_inUri (hn : n.Each Value.IsPlaced) : write n.inUri = write n := by
  simp only [write_eq, funext (componentText_inUri hn)]

theorem tilde_mem_componentText_iff (hn : n.Each Value.IsPlaced) :
    '~' ∈ componentText n .edition ↔ extendedUnset n = false := by
  constructor
  · intro htilde
    cases hunset : extendedUnset n with
    | false => rfl
    | true =>
      rw [componentText_unpacked (by simp [hunset])] at htilde
      exact absurd htilde (separator_notMem_valueText (by decide) (hn .edition).1)
  · intro hunset
    rw [componentText_packed hunset]
    exact List.mem_cons_self

theorem componentText_eq_of_write_eq (hm : m.Each Value.IsPlaced) (hn : n.Each Value.IsPlaced)
    (h : write m = write n) : ∀ a ∈ attributes, componentText m a = componentText n a := by
  rw [write_eq, write_eq] at h
  have htrimmed := List.append_cancel_left (String.ofList_injective h)
  obtain ⟨k, hk⟩ := exists_components hm
  obtain ⟨l, hl⟩ := exists_components hn
  rw [htrimmed] at hk
  have hkl : k = l := by
    have hlength := congrArg List.length hk
    have hlength' := congrArg List.length hl
    simp only [List.length_map, List.length_append, List.length_replicate] at hlength hlength'
    omega
  rw [hkl, ← hl] at hk
  exact List.map_inj_left.mp hk

theorem valueText_eq_of_write_eq (hm : m.Each Value.IsPlaced) (hn : n.Each Value.IsPlaced)
    (h : write m = write n) (a : Attribute) : valueText (m.get a) = valueText (n.get a) := by
  have hcomponents := componentText_eq_of_write_eq hm hn h
  have hedition := hcomponents .edition (by decide)
  -- the edition is packed in both names or in neither, as only a packed one has a tilde
  have hunset : extendedUnset m = false ↔ extendedUnset n = false := by
    rw [← tilde_mem_componentText_iff hm, hedition, tilde_mem_componentText_iff hn]
  have hunpacked : ¬(a = .edition ∧ extendedUnset m = false) → a ∈ attributes →
      valueText (m.get a) = valueText (n.get a) := by
    intro hkind ha
    rw [← componentText_unpacked hkind, hcomponents a ha, componentText_unpacked]
    rwa [← hunset]
  cases hm' : extendedUnset m with
  | false =>
    by_cases ha : a ∈ packed
    · rw [componentText_packed hm', componentText_packed (hunset.mp hm')] at hedition
      have hsplit := congrArg (splitAtEach '~') (List.cons.inj hedition).2
      rw [splitAtEach_packed hm, splitAtEach_packed hn] at hsplit
      exact List.map_inj_left.mp hsplit a ha
    · refine hunpacked ?_ ?_
      · rintro ⟨rfl, _⟩
        exact ha (by decide)
      · cases a <;> simp [packed, Attribute.extended, attributes] at ha ⊢
  | true =>
    by_cases ha : a ∈ attributes
    · exact hunpacked (by simp [hm']) ha
    · have hn' : extendedUnset n = true := by simpa [hm'] using hunset
      rw [get_of_extendedUnset hm' ha, get_of_extendedUnset hn' ha]

/-- Two names have the same URI if and only if their values are the same as far as URIs tell. -/
theorem write_eq_write_iff (hm : m.Each Value.IsPlaced) (hn : n.Each Value.IsPlaced) :
    write m = write n ↔ m.inUri = n.inUri := by
  constructor
  · intro h
    refine Name.ext_get fun a => ?_
    rw [Name.inUri, Name.get_map, Name.inUri, Name.get_map]
    exact inUri_eq_of_valueText_eq (hm a).1 (hn a).1 (hm a).2 (hn a).2
      (valueText_eq_of_write_eq hm hn h a)
  · intro h
    rw [← write_inUri hm, h, write_inUri hn]

end

end Uri

end PlatformCatalog
