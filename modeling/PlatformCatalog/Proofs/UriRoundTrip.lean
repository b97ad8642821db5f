import PlatformCatalog.Proofs.FormattedRoundTrip
import PlatformCatalog.Proofs.PercentCodes

/-!
# URIs that are read back

A URI gives a name back in lower case as long as the name quotes nothing but
ASCII punctuation and no value is a lone hyphen. It gives no other name back.
-/

set_option autoImplicit false

namespace PlatformCatalog

open Text Formatted

def Name.lower (n : Name) : Name := n.map Value.lower

namespace Uri

theorem splitAtEach_eq_splitOn (separator : Char) (cs : List Char) :
    splitAtEach separator cs = cs.splitOn separator := by
  induction cs with
  | nil => rfl
  | cons c cs ih =>
    rw [splitAtEach, List.splitOn_cons_eq_if_modifyHead, ih]
    by_cases hc : c = separator
    · simp [hc]
    · rw [if_neg hc, if_neg (by simpa using hc)]
      cases hsplit : cs.splitOn separator with
      | nil => exact absurd hsplit (List.splitOn_ne_nil separator cs)
      | cons p ps => rfl

theorem joinBy_eq_intercalate (separator : Char) (ts : List (List Char)) :
    joinBy separator ts = [separator].intercalate ts := by
  fun_induction joinBy separator ts with
  | case1 => rfl
  | case2 t => simp [List.intercalate]
  | case3 t u rest ih =>
    rw [List.intercalate_cons_of_ne_nil (by simp), ih, List.append_assoc, List.singleton_append]

theorem splitAtEach_joinBy {separator : Char} {ts : List (List Char)} (hts : ts ≠ [])
    (h : ∀ t ∈ ts, separator ∉ t) : splitAtEach separator (joinBy separator ts) = ts := by
  rw [splitAtEach_eq_splitOn, joinBy_eq_intercalate, List.splitOn_intercalate separator h hts]

theorem splitAtEach_append_replicate (separator : Char) (cs : List Char) (k : Nat) :
    splitAtEach separator (cs ++ List.replicate k separator) =
      splitAtEach separator cs ++ List.replicate k [] := by
  induction k generalizing cs with
  | zero => simp
  | succ k ih =>
    have hrest := ih []
    rw [List.nil_append, splitAtEach_eq_splitOn] at hrest
    rw [List.replicate_succ, splitAtEach_eq_splitOn, List.splitOn_append_cons_self, hrest,
      ← splitAtEach_eq_splitOn, List.replicate_succ]
    rfl

theorem exists_trimEnd (c : Char) (cs : List Char) :
    ∃ k, cs = trimEnd c cs ++ List.replicate k c := by
  refine ⟨(cs.reverse.takeWhile (· == c)).length, ?_⟩
  have hend : cs.reverse.takeWhile (· == c) =
      List.replicate (cs.reverse.takeWhile (· == c)).length c := by
    rw [List.eq_replicate_iff]
    exact ⟨rfl, fun d hd => by simpa using List.all_eq_true.mp List.all_takeWhile d hd⟩
  rw [trimEnd, ← List.reverse_inj, List.reverse_append, List.reverse_reverse,
    List.reverse_replicate, ← hend, List.takeWhile_append_dropWhile]

/-- The beginning of a URI does not end in a colon, so no part of it is left out. -/
theorem write_eq (n : Name) : write n =
    String.ofList (mark.toList ++ trimEnd ':' (joinBy ':' (attributes.map (componentText n)))) := by
  rw [write, trimEnd, List.reverse_append, List.dropWhile_append]
  split
  · next hempty =>
    rw [trimEnd, List.isEmpty_iff.mp hempty]
    rfl
  · rw [List.reverse_append, List.reverse_reverse, trimEnd]

theorem readComponents_append_replicate (as : List Attribute) (cs : List (List Char)) (k : Nat)
    (n : Name) : readComponents as (cs ++ List.replicate k []) n = readComponents as cs n := by
  induction as generalizing cs k n with
  | nil => rfl
  | cons a as ih =>
    cases cs with
    | nil =>
      have hhead : (List.replicate k ([] : List Char)).headD [] = [] := by cases k <;> rfl
      have hrest := ih [] (k - 1)
      simp only [List.nil_append] at hrest
      simp only [readComponents, List.nil_append, hhead, List.tail_replicate, List.headD_nil,
        List.tail_nil, hrest]
    | cons c cs => simp only [readComponents, List.cons_append, List.headD_cons, List.tail_cons, ih]

def IsCodedAlways (c : Char) : Prop :=
  c.toNat < 0x80 ∧ isWordChar c = false ∧ c ∉ ['%', '-', '.']

instance (c : Char) : Decidable (IsCodedAlways c) :=
  inferInstanceAs (Decidable (_ ∧ _ ∧ _))

section

variable {separator : Char}

theorem separator_notMem_escapedText (hs : IsCodedAlways separator) (c : Char) :
    separator ∉ escapedText c := by
  obtain ⟨hsmall, hword, hmark⟩ := hs
  by_cases hc : c.toNat < 0x80
  · have hall : (escapedText c).all (fun d => isWordChar d || ['%', '-', '.'].contains d) = true :=
      forall_ascii hc (by decide +kernel)
    intro hmem
    have hstands := List.all_eq_true.mp hall separator hmem
    rw [hword, Bool.false_or, List.contains_iff_mem] at hstands
    exact hmark hstands
  · have hne : separator ≠ c := by
      rintro rfl
      exact hc hsmall
    rw [escapedText]
    split
    · simpa using hne
    · simpa [hc] using hne

theorem separator_notMem_symbolText (hs : IsCodedAlways separator) {x : Symbol} (hx : x.Fits) :
    separator ∉ symbolText x := by
  cases x with
  | bare c =>
    rw [symbolText]
    split
    · intro hmem
      simp only [List.mem_cons, List.not_mem_nil, or_false] at hmem
      rcases hmem with rfl | rfl | rfl <;> revert hs <;> decide
    · next hquestion =>
      split
      · intro hmem
        simp only [List.mem_cons, List.not_mem_nil, or_false] at hmem
        rcases hmem with rfl | rfl | rfl <;> revert hs <;> decide
      · next hasterisk =>
        rintro (_ | ⟨_, ⟨⟩⟩)
        rcases hx with hx | hx | hx
        · exact isWordChar_ne hx hs.2.1 rfl
        · exact hasterisk hx
        · exact hquestion hx
  | escaped c => exact separator_notMem_escapedText hs c

theorem separator_notMem_valueText (hs : IsCodedAlways separator) {v : Value}
    (h : v.IsPlaced) : separator ∉ valueText v := by
  cases v with
  | any => exact List.not_mem_nil
  | na =>
    intro hmem
    obtain rfl := List.mem_singleton.mp hmem
    exact hs.2.2 (by decide)
  | text s =>
    obtain ⟨symbols, hplaced, hchars⟩ := h
    rw [valueText, hplaced.ofChars_eq hchars]
    intro hc
    obtain ⟨x, hx, hcx⟩ := List.mem_flatMap.mp hc
    exact separator_notMem_symbolText hs (hplaced.fit x hx) hcx

end

def extendedUnset (n : Name) : Bool := Attribute.extended.all fun a => n.get a = .any

def carried (n : Name) (a : Attribute) : List Attribute :=
  if a = .edition ∧ extendedUnset n = false then packed else [a]

theorem mem_joinBy_iff {separator c : Char} (hc : c ≠ separator) {ts : List (List Char)} :
    c ∈ joinBy separator ts ↔ ∃ t ∈ ts, c ∈ t := by
  fun_induction joinBy separator ts with
  | case1 => simp
  | case2 t => simp
  | case3 t u rest ih => simp [hc, ih]

section

variable {n : Name}

theorem componentText_packed (h : extendedUnset n = false) :
    componentText n .edition = '~' :: joinBy '~' (packed.map fun a => valueText (n.get a)) := by
  rw [componentText, if_pos rfl, editionText, ← extendedUnset, h]
  rfl

theorem componentText_unpacked {a : Attribute} (h : ¬(a = .edition ∧ extendedUnset n = false)) :
    componentText n a = valueText (n.get a) := by
  rw [componentText]
  split
  · next ha =>
    have hunset : extendedUnset n = true := by simpa [ha] using h
    rw [editionText, ← extendedUnset, if_pos hunset, ha]
    rfl
  · rfl

theorem separator_notMem_componentText (hn : n.Each Value.IsPlaced) {separator : Char}
    (hs : IsCodedAlways separator) (htilde : separator ≠ '~') (a : Attribute) :
    separator ∉ componentText n a := by
  by_cases h : a = .edition ∧ extendedUnset n = false
  · rw [h.1, componentText_packed h.2]
    intro hc
    obtain ⟨t, ht, hct⟩ := (mem_joinBy_iff htilde).mp ((List.mem_cons.mp hc).resolve_left htilde)
    obtain ⟨b, _, rfl⟩ := List.mem_map.mp ht
    exact separator_notMem_valueText hs (hn b).1 hct
  · rw [componentText_unpacked h]
    exact separator_notMem_valueText hs (hn a).1

theorem splitAtEach_packed (hn : n.Each Value.IsPlaced) :
    splitAtEach '~' (joinBy '~' (packed.map fun a => valueText (n.get a))) =
      packed.map fun a => valueText (n.get a) := by
  refine splitAtEach_joinBy (by simp [packed]) fun t ht => ?_
  obtain ⟨a, _, rfl⟩ := List.mem_map.mp ht
  exact separator_notMem_valueText (by decide) (hn a).1

theorem exists_components (hn : n.Each Value.IsPlaced) :
    ∃ k, attributes.map (componentText n) =
      splitAtEach ':' (trimEnd ':' (joinBy ':' (attributes.map (componentText n)))) ++
        List.replicate k [] := by
  obtain ⟨k, hk⟩ := exists_trimEnd ':' (joinBy ':' (attributes.map (componentText n)))
  refine ⟨k, ?_⟩
  rw [← splitAtEach_append_replicate, ← hk, splitAtEach_joinBy (by simp [attributes])]
  intro t ht
  obtain ⟨a, _, rfl⟩ := List.mem_map.mp ht
  exact separator_notMem_componentText hn (by decide) (by decide) a

theorem get_of_extendedUnset (h : extendedUnset n = true) {a : Attribute} (ha : a ∉ attributes) :
    n.get a = .any := by
  have hextended : a ∈ Attribute.extended := by
    cases a <;> simp [attributes, Attribute.extended] at ha ⊢
  simpa using List.all_eq_true.mp h a hextended

theorem get_of_notMem_carried {a : Attribute} (h : a ∉ attributes.flatMap (carried n)) :
    n.get a = .any := by
  cases hunset : extendedUnset n with
  | false => cases a <;> simp [attributes, carried, hunset, packed, Attribute.extended] at h
  | true =>
    refine get_of_extendedUnset hunset fun ha => h ?_
    simpa [carried, hunset] using ha

end

section

variable {n : Name} (hn : n.Each fun v => v.IsPlaced ∧ v.IsCoded)

include hn

theorem readComponent_componentText (a : Attribute) (m : Name) :
    readComponent a (componentText n a) m =
      .ok (m.putAll (fun b => readBack (n.get b)) (carried n a)) := by
  have hplaced : n.Each Value.IsPlaced := fun b => ⟨(hn b).1.1, (hn b).2⟩
  have hread : ∀ b, readValue (valueText (n.get b)) = .ok (readBack (n.get b)) ∧
      checkValue b (readBack (n.get b)) = .ok () := fun b =>
    ⟨readValue_valueText (hn b).1.1 (hn b).2 (hn b).1.2, checkValue_readBack (hn b).1.1 (hn b).2⟩
  by_cases h : a = .edition ∧ extendedUnset n = false
  · rw [carried, if_pos h, h.1, componentText_packed h.2, readComponent, if_pos ⟨rfl, rfl⟩, unpack]
    simp only [List.drop_succ_cons, List.drop_zero]
    rw [splitAtEach_packed hplaced, if_pos (by simp), fill_eq, fillWith_map fun b _ => hread b]
  · have htilde : ¬(a = .edition ∧ (valueText (n.get a)).head? = some '~') := fun hhead =>
      separator_notMem_valueText (by decide) (hn a).1.1 (List.mem_of_head? hhead.2)
    rw [carried, if_neg h, componentText_unpacked h, readComponent, if_neg htilde, fill_eq]
    exact fillWith_map (fun b (_ : b ∈ [a]) => hread b) m

theorem readComponents_componentText (as : List Attribute) (m : Name) :
    readComponents as (as.map (componentText n)) m =
      .ok (m.putAll (fun b => readBack (n.get b)) (as.flatMap (carried n))) := by
  induction as generalizing m with
  | nil => rfl
  | cons a as ih =>
    rw [List.map_cons, List.flatMap_cons, Name.putAll_append]
    exact bind_eq_ok_iff.mpr ⟨_, readComponent_componentText hn a m, ih _⟩

theorem read_write : read (write n) = .ok (n.map readBack) := by
  obtain ⟨k, hk⟩ := exists_components (n := n) fun b => ⟨(hn b).1.1, (hn b).2⟩
  have hlength := congrArg List.length hk
  rw [List.length_map, List.length_append, List.length_replicate] at hlength
  rw [read, write_eq, String.toList_ofList, dropBeginning_append]
  simp only
  rw [if_pos (by omega), ← readComponents_append_replicate _ _ k, ← hk,
    readComponents_componentText hn]
  refine congrArg Except.ok (Name.ext_get fun b => ?_)
  rw [Name.get_putAll, Name.get_map]
  split
  · rfl
  · next hb =>
    rw [get_of_notMem_carried hb]
    cases b <;> rfl

end

/-- A URI gives the lower-case name back to coded names without a lone hyphen, and to no others. -/
theorem read_write_eq_lower_iff {n : Name} (hn : n.Each Value.IsPlaced) :
    read (write n) = .ok n.lower ↔ ∀ a, (n.get a).IsCoded ∧ n.get a ≠ .text "\\-" := by
  constructor
  · intro h
    have hcoded : ∀ a, (n.get a).IsCoded := by
      intro a
      have hlower := (each_read trivial (fun _ _ => isCoded_readValue) h a).1
      rw [Name.lower, Name.get_map] at hlower
      exact isCoded_of_lower (hn a).1 hlower
    rw [read_write fun a => ⟨⟨(hn a).1, hcoded a⟩, (hn a).2⟩] at h
    refine fun a => ⟨hcoded a, fun hhyphen => ?_⟩
    have hsame := congrArg (Name.get · a) (Except.ok.inj h)
    simp [Name.lower, Name.get_map, hhyphen, readBack, Value.lower] at hsame
  · intro h
    rw [read_write fun a => ⟨⟨(hn a).1, (h a).1⟩, (hn a).2⟩]
    refine congrArg Except.ok (Name.ext_get fun a => ?_)
    rw [Name.get_map, Name.lower, Name.get_map, readBack, if_neg (h a).2]

end Uri

/-- The URI of a name is read back as the name in lower case if and only if nothing but ASCII
punctuation is escaped in it and no value is a lone hyphen. A name that comes from a URI meets the
first condition and is in lower case. -/
theorem uri_round_trip {s : String} {n : Name} (h : Name.parse s = .ok n) :
    (Uri.read (Uri.write n) = .ok n.lower ↔
        ∀ a, (n.get a).IsCoded ∧ n.get a ≠ .text "\\-") ∧
      (Uri.read s = .ok n →
        (Uri.read (Uri.write n) = .ok n ↔ ∀ a, n.get a ≠ .text "\\-")) := by
  have hround := Uri.read_write_eq_lower_iff (Name.isPlaced_parse h)
  refine ⟨hround, fun huri => ?_⟩
  have hread := Uri.each_read (P := fun v => v.IsCoded ∧ v.lower = v) ⟨trivial, rfl⟩
    (fun _ _ hv => ⟨Uri.isCoded_readValue hv, Uri.lower_readValue hv⟩) huri
  have hlower : n.lower = n := Name.ext_get fun a => by
    rw [Name.lower, Name.get_map, (hread a).1.2]
  rw [hlower] at hround
  exact hround.trans ⟨fun hall a => (hall a).2, fun hall a => ⟨(hread a).1.1, hall a⟩⟩

def mixedName : Name where
  part := .text "a"
  vendor := .text "Acme\\+"
  product := .text "Tool?"
  version := .text "1\\.0"
  update := .na
  targetSoftware := .text "Unix"

def mixedString : String := "cpe:2.3:a:Acme\\+:Tool?:1.0:-:*:*:*:Unix:*:*"

def mixedUri : String := "cpe:/a:acme%2b:tool%01:1.0:-:~~~unix~~"

theorem parse_mixedString : Name.parse mixedString = .ok mixedName :=
  toOption_eq_some_iff.mp (by decide +kernel)

theorem parse_mixedUri :
    Name.parse mixedUri = .ok mixedName.lower ∧ Uri.read mixedUri = .ok mixedName.lower :=
  ⟨toOption_eq_some_iff.mp (by decide +kernel), toOption_eq_some_iff.mp (by decide +kernel)⟩

theorem uri_round_trip_mixed :
    (Name.parse mixedString = .ok mixedName ∧
        Uri.read (Uri.write mixedName) = .ok mixedName.lower) ∧
      Name.parse mixedUri = .ok mixedName.lower ∧
        Uri.read (Uri.write mixedName.lower) = .ok mixedName.lower := by
  have hlone : ∀ a, mixedName.lower.get a ≠ .text "\\-" := by
    intro a
    cases a <;> decide +kernel
  refine ⟨⟨parse_mixedString, (uri_round_trip parse_mixedString).1.mpr fun a => ?_⟩,
    parse_mixedUri.1, ((uri_round_trip parse_mixedUri.1).2 parse_mixedUri.2).mpr hlone⟩
  cases a <;> decide +kernel

end PlatformCatalog
