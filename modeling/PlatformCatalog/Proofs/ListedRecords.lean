import Mathlib.Algebra.GroupWithZero.Nat
import PlatformCatalog.Proofs.FormattedGrammar
import PlatformCatalog.Proofs.Normalization
import PlatformCatalog.Proofs.UriRoundTrip
import PlatformCatalog.Record.Listing

/-!
# Listings that are read back

A reader of a listing cuts it at newlines, and each line at its first four
tabs. It meets the records again unless a title holds a newline or a
formatted string holds a newline or a tab. A formatted string is the only
field before the title that can, for it shows whatever character a backslash
stands before.
-/

set_option autoImplicit false

namespace PlatformCatalog

open PlatformCatalog.Symbol (toChars)

/-- The lines of a text. What stands behind the last newline is a line unless it is empty. -/
def linesOf : List Char → List (List Char)
  | [] => []
  | c :: rest =>
    if c = '\n' then [] :: linesOf rest
    else match linesOf rest with
      | [] => [[c]]
      | l :: ls => (c :: l) :: ls

/-- The pieces of a text that is cut at its first `n` tabs. -/
def cutAtTabs : Nat → List Char → List (List Char)
  | 0, cs => [cs]
  | _ + 1, [] => [[]]
  | n + 1, c :: rest =>
    if c = '\t' then [] :: cutAtTabs n rest else (cutAtTabs (n + 1) rest).modifyHead (c :: ·)

def IsSeparator (c : Char) : Prop := c = '\t' ∨ c = '\n'

instance (c : Char) : Decidable (IsSeparator c) := inferInstanceAs (Decidable (_ ∨ _))

namespace Record

def fields (r : Record) : List (List Char) :=
  [r.source.name.toList, r.uri.toList, r.formatted.toList, (flagText r.deprecated).toList,
    r.title.toList]

def IsClear (r : Record) : Prop :=
  '\t' ∉ r.formatted.toList ∧ '\n' ∉ r.formatted.toList ∧ '\n' ∉ r.title.toList

instance (r : Record) : Decidable r.IsClear := inferInstanceAs (Decidable (_ ∧ _ ∧ _))

end Record

/-- The lines of the listing are as many as the records, and the pieces of each are the fields of
the record in its place. -/
def ReadsBack (rs : List Record) : Prop :=
  (linesOf (listing rs).toList).map (cutAtTabs 4) = rs.map Record.fields

instance (rs : List Record) : Decidable (ReadsBack rs) := inferInstanceAs (Decidable (_ = _))

section

variable {l cs rest : List Char} {n : Nat}

theorem linesOf_append (h : '\n' ∉ l) (rest : List Char) :
    linesOf (l ++ '\n' :: rest) = l :: linesOf rest := by
  induction l with
  | nil => rw [List.nil_append, linesOf, if_pos rfl]
  | cons c l ih =>
    have hc := List.ne_of_not_mem_cons h
    rw [List.cons_append, linesOf, if_neg hc.symm, ih (List.not_mem_of_not_mem_cons h)]

theorem newline_notMem_of_mem_linesOf (h : l ∈ linesOf cs) : '\n' ∉ l := by
  induction cs generalizing l with
  | nil => cases h
  | cons c cs ih =>
    rw [linesOf] at h
    split at h
    · rcases List.mem_cons.mp h with rfl | h
      · exact List.not_mem_nil
      · exact ih h
    · next hc =>
      split at h
      · obtain rfl := List.mem_singleton.mp h
        simpa using Ne.symm hc
      · next first ls hls =>
        rcases List.mem_cons.mp h with rfl | h
        · exact List.not_mem_cons_of_ne_of_not_mem (Ne.symm hc) (ih (by simp [hls]))
        · exact ih (by simp [hls, h])

theorem length_linesOf (cs rest : List Char) :
    (linesOf (cs ++ '\n' :: rest)).length = cs.count '\n' + 1 + (linesOf rest).length := by
  induction cs with
  | nil =>
    rw [List.nil_append, linesOf, if_pos rfl, List.length_cons, List.count_nil]
    omega
  | cons c cs ih =>
    rw [List.cons_append, linesOf]
    split
    · next hc =>
      rw [List.length_cons, ih, hc, List.count_cons_self]
      omega
    · next hc =>
      rw [List.count_cons_of_ne hc]
      cases hlines : linesOf (cs ++ '\n' :: rest) with
      | nil =>
        rw [hlines, List.length_nil] at ih
        omega
      | cons first ls => rw [← ih, hlines, List.length_cons, List.length_cons]

theorem cutAtTabs_append (h : '\t' ∉ l) (n : Nat) (rest : List Char) :
    cutAtTabs (n + 1) (l ++ '\t' :: rest) = l :: cutAtTabs n rest := by
  induction l with
  | nil => rw [List.nil_append, cutAtTabs, if_pos rfl]
  | cons c l ih =>
    have hc := List.ne_of_not_mem_cons h
    rw [List.cons_append, cutAtTabs, if_neg hc.symm, ih (List.not_mem_of_not_mem_cons h),
      List.modifyHead_cons]

theorem cutAtTabs_ne_nil (n : Nat) (cs : List Char) : cutAtTabs n cs ≠ [] := by
  fun_induction cutAtTabs n cs <;> simp_all

theorem tab_notMem_of_mem_dropLast {p : List Char} (h : p ∈ (cutAtTabs n cs).dropLast) :
    '\t' ∉ p := by
  fun_induction cutAtTabs n cs generalizing p with
  | case1 | case2 => cases h
  | case3 n rest ih =>
    rw [List.dropLast_cons_of_ne_nil (cutAtTabs_ne_nil n rest)] at h
    rcases List.mem_cons.mp h with rfl | h
    · exact List.not_mem_nil
    · exact ih h
  | case4 n c rest hc ih =>
    obtain ⟨first, more, hcut⟩ := List.exists_cons_of_ne_nil (cutAtTabs_ne_nil (n + 1) rest)
    rw [hcut] at h ih
    cases more with
    | nil => cases h
    | cons second more =>
      rw [List.modifyHead_cons, List.dropLast_cons_of_ne_nil (by simp)] at h
      rw [List.dropLast_cons_of_ne_nil (by simp)] at ih
      rcases List.mem_cons.mp h with rfl | h
      · exact List.not_mem_cons_of_ne_of_not_mem (Ne.symm hc) (ih List.mem_cons_self)
      · exact ih (List.mem_cons_of_mem first h)

theorem mem_of_mem_cutAtTabs {p : List Char} {c : Char} (h : p ∈ cutAtTabs n cs) (hc : c ∈ p) :
    c ∈ cs := by
  fun_induction cutAtTabs n cs generalizing p with
  | case1 cs =>
    obtain rfl := List.mem_singleton.mp h
    exact hc
  | case2 =>
    obtain rfl := List.mem_singleton.mp h
    cases hc
  | case3 n rest ih =>
    rcases List.mem_cons.mp h with rfl | h
    · cases hc
    · exact List.mem_cons_of_mem _ (ih h hc)
  | case4 n d rest hd ih =>
    obtain ⟨first, more, hcut⟩ := List.exists_cons_of_ne_nil (cutAtTabs_ne_nil (n + 1) rest)
    rw [hcut] at h ih
    rcases List.mem_cons.mp h with rfl | h
    · exact (List.mem_cons.mp hc).elim (fun hcd => hcd ▸ List.mem_cons_self)
        fun hc => List.mem_cons_of_mem d (ih List.mem_cons_self hc)
    · exact List.mem_cons_of_mem d (ih (List.mem_cons_of_mem first h) hc)

end

section

variable {source : Source} {r : Record} {c : Char}

theorem Record.toList_line (r : Record) : r.line.toList =
    r.source.name.toList ++ '\t' :: (r.uri.toList ++ '\t' :: (r.formatted.toList ++ '\t' ::
      ((flagText r.deprecated).toList ++ '\t' :: r.title.toList))) := by
  simp [line]

theorem toList_listing_cons (r : Record) (rs : List Record) :
    (listing (r :: rs)).toList = r.line.toList ++ '\n' :: (listing rs).toList := by
  simp [listing]

theorem IsSeparator.ne {d : Char} (hc : IsSeparator c) (hd : ¬IsSeparator d) : c ≠ d := by
  rintro rfl
  exact hd hc

theorem IsSeparator.notMem {cs : List Char} (hc : IsSeparator c) (h : '\t' ∉ cs ∧ '\n' ∉ cs) :
    c ∉ cs := by
  rcases hc with rfl | rfl
  · exact h.1
  · exact h.2

theorem IsSeparator.isCodedAlways (hc : IsSeparator c) : Uri.IsCodedAlways c := by
  rcases hc with rfl | rfl <;> decide

theorem separator_notMem_source (hc : IsSeparator c) (source : Source) :
    c ∉ source.name.toList := by
  cases source <;> exact hc.notMem (by decide)

theorem separator_notMem_flagText (hc : IsSeparator c) (b : Bool) : c ∉ (flagText b).toList := by
  cases b <;> exact hc.notMem (by decide)

theorem separator_notMem_uri (hc : IsSeparator c) {n : Name} (hn : n.Each Value.IsPlaced) :
    c ∉ (Uri.write n).toList := by
  have hmark : c ∉ Uri.mark.toList := hc.notMem (by decide)
  have htilde : c ≠ '~' := hc.ne (by decide)
  have hcolon : c ≠ ':' := hc.ne (by decide)
  rw [Uri.write_eq, String.toList_ofList]
  intro hmem
  obtain ⟨k, hk⟩ := Uri.exists_trimEnd ':'
    (Formatted.joinBy ':' (Uri.attributes.map (Uri.componentText n)))
  rcases List.mem_append.mp hmem with hmem | hmem
  · exact hmark hmem
  · have hjoined := List.mem_append_left (List.replicate k ':') hmem
    rw [← hk] at hjoined
    obtain ⟨t, ht, hct⟩ := (Uri.mem_joinBy_iff hcolon).mp hjoined
    obtain ⟨a, _, rfl⟩ := List.mem_map.mp ht
    exact Uri.separator_notMem_componentText hn hc.isCodedAlways htilde a hct

theorem separator_notMem_uri_of_mem {b : Batch} (hc : IsSeparator c) (h : r ∈ normalize source b) :
    c ∉ r.uri.toList := by
  obtain ⟨title, identifier, n, deprecated, hn, rfl⟩ := exists_parse_of_mem_normalize h
  exact separator_notMem_uri hc (Name.isPlaced_parse hn)

theorem Record.cutAtTabs_line (huri : '\t' ∉ r.uri.toList) (h : '\t' ∉ r.formatted.toList) :
    cutAtTabs 4 r.line.toList = r.fields := by
  rw [toList_line, cutAtTabs_append (separator_notMem_source (Or.inl rfl) r.source),
    cutAtTabs_append huri, cutAtTabs_append h,
    cutAtTabs_append (separator_notMem_flagText (Or.inl rfl) r.deprecated), cutAtTabs]
  rfl

theorem Record.count_line (huri : '\n' ∉ r.uri.toList) :
    r.line.toList.count '\n' = r.formatted.toList.count '\n' + r.title.toList.count '\n' := by
  have hsource := List.count_eq_zero.mpr (separator_notMem_source (Or.inr rfl) r.source)
  have hflag := List.count_eq_zero.mpr (separator_notMem_flagText (Or.inr rfl) r.deprecated)
  have htab : '\t' ≠ '\n' := by decide
  rw [toList_line]
  simp only [List.count_append, List.count_cons_of_ne htab, hsource, hflag,
    List.count_eq_zero.mpr huri]
  omega

variable {rs : List Record}

theorem readsBack_of_isClear (huri : ∀ r ∈ rs, ∀ c, IsSeparator c → c ∉ r.uri.toList)
    (h : ∀ r ∈ rs, r.IsClear) : ReadsBack rs := by
  induction rs with
  | nil => rfl
  | cons r rs ih =>
    obtain ⟨⟨htab, hnewline, htitle⟩, hrest⟩ := List.forall_mem_cons.mp h
    obtain ⟨hhead, htail⟩ := List.forall_mem_cons.mp huri
    have hline : '\n' ∉ r.line.toList := by
      rw [← List.count_eq_zero, Record.count_line (hhead _ (Or.inr rfl)),
        List.count_eq_zero.mpr hnewline, List.count_eq_zero.mpr htitle]
    rw [ReadsBack, toList_listing_cons, linesOf_append hline, List.map_cons,
      Record.cutAtTabs_line (hhead _ (Or.inl rfl)) htab, ih htail hrest, List.map_cons]

theorem isClear_of_readsBack (h : ReadsBack rs) (hr : r ∈ rs) : r.IsClear := by
  have hmem : r.fields ∈ rs.map Record.fields := List.mem_map_of_mem hr
  rw [← h] at hmem
  obtain ⟨l, hl, hcut⟩ := List.mem_map.mp hmem
  have hfield : ∀ p ∈ r.fields, '\n' ∉ p := by
    intro p hp hc
    rw [← hcut] at hp
    exact newline_notMem_of_mem_linesOf hl (mem_of_mem_cutAtTabs hp hc)
  have hbefore : ∀ p ∈ r.fields.dropLast, '\t' ∉ p := by
    rw [← hcut]
    exact fun p => tab_notMem_of_mem_dropLast
  exact ⟨hbefore _ (by simp [Record.fields]), hfield _ (by simp [Record.fields]),
    hfield _ (by simp [Record.fields])⟩

theorem length_linesOf_listing (huri : ∀ r ∈ rs, '\n' ∉ r.uri.toList) :
    (linesOf (listing rs).toList).length =
      (rs.map fun r => r.formatted.toList.count '\n' + r.title.toList.count '\n' + 1).sum := by
  induction rs with
  | nil => rfl
  | cons r rs ih =>
    obtain ⟨hhead, htail⟩ := List.forall_mem_cons.mp huri
    rw [toList_listing_cons, length_linesOf, Record.count_line hhead, ih htail, List.map_cons,
      List.sum_cons]

end

theorem Symbol.mem_toChars_iff {symbols : List Symbol} {c : Char} (hc : c ≠ '\\') :
    c ∈ toChars symbols ↔ c ∈ symbols.map Symbol.char := by
  induction symbols with
  | nil => rfl
  | cons x symbols ih => cases x <;> simp [toChars, Symbol.char, hc, ih]

namespace Formatted

variable {c : Char}

theorem mem_symbolText_iff (hc : c ≠ '\\') {symbols : List Symbol} :
    c ∈ symbols.flatMap symbolText ↔ c ∈ symbols.map Symbol.char := by
  induction symbols with
  | nil => rfl
  | cons x symbols ih =>
    have hx : c ∈ symbolText x ↔ c = x.char := by
      cases x with
      | bare d => exact List.mem_singleton
      | escaped d =>
        rw [symbolText]
        split <;> simp [Symbol.char, hc]
    rw [List.flatMap_cons, List.mem_append, hx, ih, List.map_cons, List.mem_cons]

theorem mem_valueText_iff (hc : c ≠ '\\') {component : List Char} {v : Value}
    (h : readValue component = .ok v) : c ∈ valueText v ↔ c ∈ component := by
  rcases readValue_eq_ok_iff.mp h with ⟨rfl, rfl⟩ | ⟨rfl, rfl⟩ | ⟨_, symbols, hsymbols, rfl⟩
  · rfl
  · rfl
  · obtain ⟨read, _, rfl, rfl⟩ := quoteFrom_eq_map hsymbols
    have hplain := plain_of_fit (fit_map_quoted read)
    rw [valueText, String.toList_ofList, Symbol.ofChars_toChars hplain, mem_symbolText_iff hc,
      Symbol.mem_toChars_iff hc, List.map_map]
    simp only [Function.comp_def, char_quoted]

theorem Cut.mem_iff (hc : c ≠ ':') {cs : List Char} {pieces : List (List Char)}
    (h : Cut cs pieces) : c ∈ cs ↔ ∃ p ∈ pieces, c ∈ p := by
  induction h with
  | last | dangling => simp
  | colon _ _ ih => simp [hc, ih]

theorem exists_mem_iff_of_forall₂ {α β : Type} {P : α → Prop} {Q : β → Prop} {xs : List α}
    {ys : List β} (h : List.Forall₂ (fun x y => P x ↔ Q y) xs ys) :
    (∃ x ∈ xs, P x) ↔ ∃ y ∈ ys, Q y := by
  induction h with
  | nil => simp
  | cons hfirst _ ih => rw [List.exists_mem_cons_iff, List.exists_mem_cons_iff, hfirst, ih]

theorem separator_mem_write_iff (hc : IsSeparator c) {s : String} {n : Name}
    (h : read s = .ok n) : c ∈ (write n).toList ↔ c ∈ s.toList := by
  have hmark : c ∉ mark.toList := hc.notMem (by decide)
  have hcolon : c ≠ ':' := hc.ne (by decide)
  have hescape : c ≠ '\\' := hc.ne (by decide)
  have hlower : c.toLower = c := by rcases hc with rfl | rfl <;> decide
  obtain ⟨components, ⟨beginning, rest, hs, hbeginning, hcut⟩, hlength, hfill⟩ :=
    read_eq_ok_iff.mp h
  have hstart : c ∉ beginning := by
    intro hmem
    have hmapped := List.mem_map_of_mem (f := Char.toLower) hmem
    rw [hbeginning, hlower] at hmapped
    exact hmark hmapped
  have hread := read_get_fillWith (by decide) hlength.symm hfill
  have hvalues : (∃ t ∈ Attribute.all.map fun a => valueText (n.get a), c ∈ t) ↔
      ∃ p ∈ components, c ∈ p := by
    simp only [List.mem_map, exists_exists_and_eq_and]
    exact exists_mem_iff_of_forall₂ (hread.imp fun _ _ hv => mem_valueText_iff hescape hv)
  rw [write, String.toList_ofList, List.mem_append, or_iff_right hmark, Uri.mem_joinBy_iff hcolon,
    hvalues, ← hcut.mem_iff hcolon, hs, List.mem_append, or_iff_right hstart]

end Formatted

theorem IsSeparator.char_ne {c : Char} (hc : IsSeparator c) {x : Symbol} (hfits : x.Fits)
    (hcoded : x.IsCoded) : x.char ≠ c := by
  rintro rfl
  cases x with
  | bare d =>
    rcases hfits with hword | hwild | hwild
    · rcases hc with rfl | rfl <;> cases hword
    · exact hc.ne (by decide) hwild
    · exact hc.ne (by decide) hwild
  | escaped d => rcases hc with rfl | rfl <;> cases hcoded

theorem separator_notMem_write_of_uri {c : Char} (hc : IsSeparator c) {s : String} {n : Name}
    (h : Uri.read s = .ok n) : c ∉ (Formatted.write n).toList := by
  have hmark : c ∉ Formatted.mark.toList := hc.notMem (by decide)
  have hcolon : c ≠ ':' := hc.ne (by decide)
  have hescape : c ≠ '\\' := hc.ne (by decide)
  have hread := Uri.each_read (P := fun v => v.IsPlaced ∧ v.IsCoded) ⟨trivial, trivial⟩
    (fun component v hv => ⟨Uri.isPlaced_readValue component v hv, Uri.isCoded_readValue hv⟩) h
  rw [Formatted.write, String.toList_ofList, List.mem_append, or_iff_right hmark,
    Uri.mem_joinBy_iff hcolon]
  rintro ⟨t, ht, hct⟩
  obtain ⟨a, _, rfl⟩ := List.mem_map.mp ht
  obtain ⟨⟨hplaced, hcoded⟩, _⟩ := hread a
  cases hv : n.get a with
  | any | na =>
    rw [hv] at hct
    exact hc.notMem (by decide) hct
  | text value =>
    rw [hv] at hct hplaced hcoded
    obtain ⟨symbols, hsymbols, hs⟩ := hplaced
    rw [Value.IsCoded, hsymbols.ofChars_eq hs] at hcoded
    rw [Formatted.valueText, hsymbols.ofChars_eq hs, Formatted.mem_symbolText_iff hescape] at hct
    obtain ⟨x, hx, hxc⟩ := List.mem_map.mp hct
    exact hc.char_ne (hsymbols.fit x hx) (hcoded x hx) hxc

def isFormatted (s : String) : Bool := (dropBeginning Formatted.mark.toList s.toList).isSome

theorem separator_mem_formatted_iff {c : Char} (hc : IsSeparator c) {source : Source}
    {title identifier : String} {deprecated : Bool} {r : Record}
    (h : Record.ofIdentifier source title identifier deprecated = .ok r) :
    c ∈ r.formatted.toList ↔ isFormatted identifier = true ∧ c ∈ identifier.toList := by
  rw [Record.ofIdentifier] at h
  split at h
  · next n hn =>
    cases h
    rw [Name.parse, ← isFormatted] at hn
    split at hn
    · next hformatted =>
      rw [and_iff_right hformatted]
      exact Formatted.separator_mem_write_iff hc hn
    · next hformatted =>
      split at hn
      · exact iff_of_false (separator_notMem_write_of_uri hc hn) fun hmem => hformatted hmem.1
      · cases hn
  · cases h

/-- The listing of a batch is read back if and only if none of its records has a newline in the
title or a separator in the formatted string. Each newline there makes one more line. The formatted
string of a record has the separators of the identifier that it was read from, or none if that was
a URI. -/
theorem listing_reads_back_iff (source : Source) (b : Batch) :
    (ReadsBack (normalize source b) ↔ ∀ r ∈ normalize source b, r.IsClear) ∧
      (linesOf (listing (normalize source b)).toList).length =
        ((normalize source b).map fun r =>
          r.formatted.toList.count '\n' + r.title.toList.count '\n' + 1).sum ∧
      ∀ title identifier deprecated r,
        Record.ofIdentifier source title identifier deprecated = .ok r →
        r.title = title ∧ ∀ c, IsSeparator c →
          (c ∈ r.formatted.toList ↔ isFormatted identifier = true ∧ c ∈ identifier.toList) := by
  have huri : ∀ r ∈ normalize source b, ∀ c, IsSeparator c → c ∉ r.uri.toList :=
    fun r hr c hc => separator_notMem_uri_of_mem hc hr
  refine ⟨⟨fun h r hr => isClear_of_readsBack h hr, readsBack_of_isClear huri⟩,
    length_linesOf_listing fun r hr => huri r hr '\n' (Or.inr rfl), ?_⟩
  intro title identifier deprecated r h
  refine ⟨?_, fun c hc => separator_mem_formatted_iff hc h⟩
  rw [Record.ofIdentifier] at h
  split at h <;> cases h
  rfl

def tabbedBatch : Batch where
  active := [⟨"NTP\t4.2.8", ["cpe:2.3:a:ntp:ntp\\-d:4.2.8:*:*:*:*:*:*:*", "cpe:/a:ntp:ntp:4.2.8"]⟩]

theorem listing_reads_back_iff_tabbed :
    ReadsBack (normalize .nvd tabbedBatch) ∧
      ∃ r, Record.ofIdentifier .nvd "NTP" "cpe:2.3:a:ntp:ntp\\\t:*:*:*:*:*:*:*:*" false = .ok r ∧
        '\t' ∈ r.formatted.toList := by
  obtain ⟨hreads, _, hformatted⟩ := listing_reads_back_iff .nvd tabbedBatch
  refine ⟨hreads.mpr (by decide +kernel), ?_⟩
  obtain ⟨r, hr⟩ := Option.isSome_iff_exists.mp (by decide +kernel : (Record.ofIdentifier .nvd "NTP"
    "cpe:2.3:a:ntp:ntp\\\t:*:*:*:*:*:*:*:*" false).toOption.isSome = true)
  have hread := toOption_eq_some_iff.mp hr
  exact ⟨r, hread, ((hformatted _ _ _ _ hread).2 '\t' (Or.inl rfl)).mpr (by decide +kernel)⟩

def brokenBatch : Batch where
  active := [⟨"NTP\n4.2.8", ["cpe:/a:ntp:ntp:4.2.8"]⟩]

theorem not_reads_back : ¬∀ source b, ReadsBack (normalize source b) :=
  fun h => absurd (h .nvd brokenBatch) (by decide +kernel)

end PlatformCatalog
