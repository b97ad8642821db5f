import PlatformCatalog.Proofs.EqualUris
import PlatformCatalog.Proofs.RelationalIngestion

/-!
# Records of the same name

A record holds three encodings of its name: the URI, the formatted string and
the words of the attributes. Each of them confuses a few values that the
others tell apart, so records may have one in common and differ in another.
Records are merged by the URI.
-/

set_option autoImplicit false

namespace PlatformCatalog

/-- The value as far as its word in a record tells it. -/
def Value.inRecord : Value → Value
  | .text s => if s = "ANY" then .any else if s = "NA" then .na else .text s
  | v => v

def Name.inRecord (n : Name) : Name := n.map Value.inRecord

/-- The value is confused with no other one: it is not the word of a logical value, neither
hyphen nor asterisk on its own, and it quotes neither an underscore nor one of the two control
characters that have the percent codes of wildcards. -/
def Value.IsRegular : Value → Prop
  | .text s => s ∉ ["ANY", "NA", "\\-", "*"] ∧ .escaped '_' ∉ Symbol.ofChars s.toList ∧
      .escaped '\x01' ∉ Symbol.ofChars s.toList ∧ .escaped '\x02' ∉ Symbol.ofChars s.toList
  | _ => True

instance (v : Value) : Decidable v.IsRegular :=
  match v with
  | .text s => inferInstanceAs (Decidable (s ∉ ["ANY", "NA", "\\-", "*"] ∧
      .escaped '_' ∉ Symbol.ofChars s.toList ∧ .escaped '\x01' ∉ Symbol.ofChars s.toList ∧
        .escaped '\x02' ∉ Symbol.ofChars s.toList))
  | .any | .na => isTrue trivial

section

variable {v w : Value}

theorem Value.inRecord_eq (v : Value) : v.inRecord =
    if v.word = "ANY" then .any else if v.word = "NA" then .na else .text v.word := by
  cases v <;> rfl

theorem Value.word_inRecord (v : Value) : v.inRecord.word = v.word := by
  rw [inRecord_eq]
  split
  · next h => exact h.symm
  · split
    · next h => exact h.symm
    · rfl

theorem Value.word_eq_word_iff : v.word = w.word ↔ v.inRecord = w.inRecord := by
  constructor
  · intro h
    rw [inRecord_eq, inRecord_eq, h]
  · intro h
    rw [← word_inRecord v, h, word_inRecord]

theorem Value.IsRegular.inRecord_eq (h : v.IsRegular) : v.inRecord = v := by
  cases v with
  | any => rfl
  | na => rfl
  | text s =>
    obtain ⟨hs, _⟩ := h
    simp only [List.mem_cons, not_or] at hs
    rw [inRecord, if_neg hs.1, if_neg hs.2.1]

theorem Value.IsPlaced.mapSymbols_eq_self {s : String} (h : (Value.text s).IsPlaced)
    {f : Symbol → Symbol} (hf : ∀ x ∈ Symbol.ofChars s.toList, f x = x) : mapSymbols f s = s := by
  obtain ⟨symbols, hplaced, hs⟩ := h
  rw [hplaced.ofChars_eq hs] at hf
  exact PlatformCatalog.mapSymbols_eq_self hplaced.plain hs hf

theorem Value.IsRegular.canonical_eq (h : v.IsRegular) (hplaced : v.IsPlaced) :
    v.canonical = v := by
  cases v with
  | any => rfl
  | na => rfl
  | text s =>
    obtain ⟨hs, hunderscore, _⟩ := h
    simp only [List.mem_cons, not_or] at hs
    rw [canonical, if_neg hs.2.2.1, if_neg hs.2.2.2.1, hplaced.mapSymbols_eq_self]
    intro x hx
    cases x with
    | bare c => rfl
    | escaped c =>
      refine if_neg ?_
      rintro rfl
      exact hunderscore hx

theorem Value.IsRegular.inUri_eq (h : v.IsRegular) (hplaced : v.IsPlaced) : v.inUri = v := by
  cases v with
  | any => rfl
  | na => rfl
  | text s =>
    obtain ⟨hs, _, hfirst, hsecond⟩ := h
    simp only [List.mem_cons, not_or] at hs
    rw [inUri, if_neg hs.2.2.1, hplaced.mapSymbols_eq_self]
    intro x hx
    cases x with
    | bare c => rfl
    | escaped c =>
      rw [Symbol.inUri, if_neg, if_neg]
      · rintro rfl
        exact hsecond hx
      · rintro rfl
        exact hfirst hx

end

theorem Formatted.write_eq_write_iff {m n : Name} (hm : m.Each Value.IsPlaced)
    (hn : n.Each Value.IsPlaced) : write m = write n ↔ m.canonical = n.canonical := by
  constructor
  · intro h
    have hread := read_write hm
    rw [h, read_write hn] at hread
    exact (Except.ok.inj hread).symm
  · intro h
    rw [← write_canonical hm, h, write_canonical hn]

theorem Name.word_eq_word_iff {m n : Name} :
    (∀ a, m.word a = n.word a) ↔ m.inRecord = n.inRecord := by
  constructor
  · intro h
    refine ext_get fun a => ?_
    rw [inRecord, get_map, inRecord, get_map]
    exact Value.word_eq_word_iff.mp (h a)
  · intro h a
    have ha := congrArg (get · a) h
    simp only [inRecord, get_map] at ha
    exact Value.word_eq_word_iff.mpr ha

theorem Name.map_eq {f : Value → Value} {n : Name} (h : ∀ a, f (n.get a) = n.get a) :
    n.map f = n :=
  ext_get fun a => (get_map f n a).trans (h a)

theorem Name.eq_of_isRegular {n : Name} (hplaced : n.Each Value.IsPlaced)
    (h : ∀ a, (n.get a).IsRegular) : n.inUri = n ∧ n.canonical = n ∧ n.inRecord = n :=
  ⟨map_eq fun a => (h a).inUri_eq (hplaced a).1, map_eq fun a => (h a).canonical_eq (hplaced a).1,
    map_eq fun a => (h a).inRecord_eq⟩

theorem Record.word_ofName (source : Source) (title : String) (n : Name) (deprecated : Bool)
    (a : Attribute) : (ofName source title n deprecated).word a = n.word a := by
  cases a <;> rfl

theorem Record.ofIdentifier_of_parse {identifier : String} {n : Name}
    (h : Name.parse identifier = .ok n) (source : Source) (title : String) (deprecated : Bool) :
    ofIdentifier source title identifier deprecated = .ok (ofName source title n deprecated) := by
  rw [ofIdentifier, h]

theorem RelationalStore.takes_both_iff (q r : Record) :
    (∃ s, executeAll {} [.insert q, .insert r] = .ok s) ↔
      ¬(q.source = r.source ∧ q.uri = r.uri) := by
  have hboth : executeAll {} [.insert q, .insert r] =
      if q.source = r.source ∧ q.uri = r.uri then
        .error (.relational "the source has a record of that name")
      else .ok { records := [q, r] } := by
    by_cases h : q.source = r.source ∧ q.uri = r.uri <;>
      simp [executeAll, execute, h, bind, Except.bind]
  rw [hboth]
  split <;> simp_all

/-- What the encodings in two records tell of their names. The URI, the formatted string and the
words are each the same exactly if the names are the same but for what that encoding confuses, so
all of them agree on regular names. Two records of a batch become one record, and the table of a
source refuses one of them, exactly if the names are the same as far as URIs tell. -/
theorem equal_records_iff {source₁ source₂ : Source} {title₁ title₂ identifier₁ identifier₂ : String}
    {deprecated₁ deprecated₂ : Bool} {r₁ r₂ : Record} {n₁ n₂ : Name}
    (h₁ : Name.parse identifier₁ = .ok n₁) (h₂ : Name.parse identifier₂ = .ok n₂)
    (hr₁ : Record.ofIdentifier source₁ title₁ identifier₁ deprecated₁ = .ok r₁)
    (hr₂ : Record.ofIdentifier source₂ title₂ identifier₂ deprecated₂ = .ok r₂) :
    (r₁.uri = r₂.uri ↔ n₁.inUri = n₂.inUri) ∧
      (r₁.formatted = r₂.formatted ↔ n₁.canonical = n₂.canonical) ∧
      ((∀ a, r₁.word a = r₂.word a) ↔ n₁.inRecord = n₂.inRecord) ∧
      ((∀ a, (n₁.get a).IsRegular ∧ (n₂.get a).IsRegular) →
        (r₁.uri = r₂.uri ↔ n₁ = n₂) ∧ (r₁.formatted = r₂.formatted ↔ n₁ = n₂) ∧
          ((∀ a, r₁.word a = r₂.word a) ↔ n₁ = n₂)) ∧
      (∀ source b, r₁ ∈ converted source b → r₂ ∈ converted source b →
        ∃ k₁ ∈ normalize source b, ∃ k₂ ∈ normalize source b,
          (∀ k ∈ normalize source b, k.uri = r₁.uri ↔ k = k₁) ∧
          (∀ k ∈ normalize source b, k.uri = r₂.uri ↔ k = k₂) ∧
          (k₁ = k₂ ↔ n₁.inUri = n₂.inUri)) ∧
      ((∃ s, RelationalStore.executeAll {} [.insert r₁, .insert r₂] = .ok s) ↔
        ¬(r₁.source = r₂.source ∧ n₁.inUri = n₂.inUri)) := by
  have hplaced₁ := Name.isPlaced_parse h₁
  have hplaced₂ := Name.isPlaced_parse h₂
  obtain rfl := Except.ok.inj ((Record.ofIdentifier_of_parse h₁ ..).symm.trans hr₁)
  obtain rfl := Except.ok.inj ((Record.ofIdentifier_of_parse h₂ ..).symm.trans hr₂)
  have huri := Uri.write_eq_write_iff hplaced₁ hplaced₂
  have hformatted := Formatted.write_eq_write_iff hplaced₁ hplaced₂
  have hwords : (∀ a, (Record.ofName source₁ title₁ n₁ deprecated₁).word a =
      (Record.ofName source₂ title₂ n₂ deprecated₂).word a) ↔ n₁.inRecord = n₂.inRecord := by
    simp only [Record.word_ofName]
    exact Name.word_eq_word_iff
  refine ⟨huri, hformatted, hwords, fun hregular => ?_, fun source b hb₁ hb₂ => ?_, ?_⟩
  · obtain ⟨hinUri₁, hcanonical₁, hinRecord₁⟩ :=
      Name.eq_of_isRegular hplaced₁ fun a => (hregular a).1
    obtain ⟨hinUri₂, hcanonical₂, hinRecord₂⟩ :=
      Name.eq_of_isRegular hplaced₂ fun a => (hregular a).2
    rw [hinUri₁, hinUri₂] at huri
    rw [hcanonical₁, hcanonical₂] at hformatted
    rw [hinRecord₁, hinRecord₂] at hwords
    exact ⟨huri, hformatted, hwords⟩
  · obtain ⟨k₁, hk₁, k₂, hk₂, honly₁, honly₂, hmerged⟩ := merged_iff hb₁ hb₂
    exact ⟨k₁, hk₁, k₂, hk₂, honly₁, honly₂, hmerged.trans huri⟩
  · rw [RelationalStore.takes_both_iff]
    exact not_congr (and_congr_right fun _ => huri)

def mixedFormatted : String := "cpe:2.3:a:acme\\+:tool?:1.0:-:*:*:*:unix:*:*"

theorem parse_mixedFormatted : Name.parse mixedFormatted = .ok mixedName.lower :=
  toOption_eq_some_iff.mp (by decide)

def mixedBatch : Batch := { active := [⟨"", [mixedUri, mixedFormatted]⟩] }

theorem equal_records_mixed : ∃ q r,
    Record.ofIdentifier .nvd "" mixedUri false = .ok q ∧
      Record.ofIdentifier .nvd "" mixedFormatted false = .ok r ∧
      (q.uri = r.uri ∧ q.formatted = r.formatted ∧ ∀ a, q.word a = r.word a) ∧
      ∃ k ∈ normalize .nvd mixedBatch, ∀ p ∈ normalize .nvd mixedBatch, p.uri = r.uri ↔ p = k := by
  have hq := Record.ofIdentifier_of_parse parse_mixedUri.1 .nvd "" false
  have hr := Record.ofIdentifier_of_parse parse_mixedFormatted .nvd "" false
  have hregular : ∀ a, (mixedName.lower.get a).IsRegular := by
    intro a
    cases a <;> decide +kernel
  have hmem : Record.ofName .nvd "" mixedName.lower false ∈ converted .nvd mixedBatch := by
    simp [converted, convert, mixedBatch, hq, Except.toOption]
  obtain ⟨_, _, _, hequal, hmerged, _⟩ :=
    equal_records_iff parse_mixedUri.1 parse_mixedFormatted hq hr
  obtain ⟨huri, hformatted, hwords⟩ := hequal fun a => ⟨hregular a, hregular a⟩
  obtain ⟨_, _, k, hk, _, honly, _⟩ := hmerged .nvd mixedBatch hmem hmem
  exact ⟨_, _, hq, hr, ⟨huri.mpr rfl, hformatted.mpr rfl, hwords.mpr rfl⟩, k, hk, honly⟩

def Record.Agree (q r : Record) : Prop :=
  (q.uri = r.uri ↔ q.formatted = r.formatted) ∧ (q.uri = r.uri ↔ ∀ a, q.word a = r.word a)

instance (q r : Record) : Decidable (q.Agree r) :=
  decidable_of_iff ((q.uri = r.uri ↔ q.formatted = r.formatted) ∧
    (q.uri = r.uri ↔ ∀ a ∈ Attribute.all, q.word a = r.word a))
    (by simp [Record.Agree, Attribute.mem_all])

/-- Texts of different names that some encoding confuses: an underscore with and without a
backslash, a lone hyphen and no value, a lone asterisk and any value, the word for any value and
that value, a quoted control character and a wildcard. -/
def confused : List (String × String) :=
  [("cpe:2.3:a:big_co:tool:1.0:*:*:*:*:*:*:*", "cpe:2.3:a:big\\_co:tool:1.0:*:*:*:*:*:*:*"),
    ("cpe:/a:%2d", "cpe:/a:-"), ("cpe:/a:%02", "cpe:/a"),
    ("cpe:2.3:a:ANY:*:*:*:*:*:*:*:*:*", "cpe:2.3:a:*:*:*:*:*:*:*:*:*:*"),
    ("cpe:2.3:a:\\\x01:*:*:*:*:*:*:*:*:*", "cpe:2.3:a:?:*:*:*:*:*:*:*:*:*")]

/-- Whether the two texts have records that do not agree. -/
def disagree (p : String × String) : Bool :=
  match Record.ofIdentifier .nvd "" p.1 false, Record.ofIdentifier .nvd "" p.2 false with
  | .ok q, .ok r => !decide (q.Agree r)
  | _, _ => false

theorem exists_of_disagree {p : String × String} (h : disagree p = true) :
    ∃ q r, Record.ofIdentifier .nvd "" p.1 false = .ok q ∧
      Record.ofIdentifier .nvd "" p.2 false = .ok r ∧ ¬q.Agree r := by
  rw [disagree] at h
  split at h
  · next q r hq hr => exact ⟨q, r, hq, hr, by simpa using h⟩
  · cases h

/-- Equal URIs, equal formatted strings and equal words are not the same thing. -/
theorem not_agree_of_confused :
    ¬∃ p ∈ confused, ∀ source title deprecated q r,
      Record.ofIdentifier source title p.1 deprecated = .ok q →
      Record.ofIdentifier source title p.2 deprecated = .ok r → q.Agree r := by
  have hall : ∀ p ∈ confused, disagree p = true := by decide +kernel
  rintro ⟨p, hp, h⟩
  obtain ⟨q, r, hq, hr, hdisagree⟩ := exists_of_disagree (hall p hp)
  exact hdisagree (h .nvd "" false q r hq hr)

end PlatformCatalog
