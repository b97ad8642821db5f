import PlatformCatalog.Proofs.Scans
import PlatformCatalog.Proofs.SetKeys
import PlatformCatalog.Proofs.TextOrder

/-!
# Tables of sets

The sets of all families lie in one table, and a scan reads on until a row
does not fit. Whatever texts the records hold, a scan meets the rows of its
own set or family and no others.
-/

set_option autoImplicit false

namespace PlatformCatalog

open Text

def InByteOrder (ts : List String) : Prop :=
  ts.Pairwise fun t u => t.toUTF8.data.toList < u.toUTF8.data.toList

theorem inByteOrder_of_ascending {ts : List String}
    (h : Ordered.Ascending Ordered.textBefore ts) : InByteOrder ts := by
  refine h.imp fun {t u} htu => ?_
  exact (lt_iff_bytes_lt t u).mp (of_decide_eq_true htu)

theorem setKey_eq_setKey_iff {d e : Family × Item} (hd : IsRegular d) (he : IsRegular e) :
    d.1.setKey d.2.group = e.1.setKey e.2.group ↔ d.1 = e.1 ∧ d.2.group = e.2.group := by
  constructor
  · intro h
    have hfamily := Family.setKey_inj_family h
    refine ⟨hfamily, ?_⟩
    cases hf : e.1.isGrouped with
    | true =>
      rw [hfamily] at h
      exact Family.setKey_inj_group hf h
    | false => rw [hd (hfamily ▸ hf), he hf]
  · rintro ⟨hfamily, hgroup⟩
    rw [hfamily, hgroup]

namespace KeyValueStore

/-- The rows of the sets are those of the items, in order. -/
structure IsTableOf (s : KeyValueStore) (entries : List (Family × Item)) : Prop where
  inOrder : Ordered.Ascending Ordered.pairBefore s.sets
  rows : ∀ row, row ∈ s.sets ↔ row ∈ entries.map setRow

section

variable {s : KeyValueStore} {entries : List (Family × Item)} {f : Family} {group member : String}

theorem isTableOf_ofList (entries : List (Family × Item))
    (hashes : List ((String × String) × String)) :
    IsTableOf ⟨Ordered.ofList Ordered.pairBefore (entries.map setRow), hashes⟩ entries where
  inOrder := Ordered.ascending_ofList Ordered.pairBefore_strict _
  rows row := Ordered.mem_ofList Ordered.pairBefore_strict _ row

variable (h : s.IsTableOf entries) (hitems : ∀ e ∈ entries, ∃ r : Record, e ∈ r.items)

include h hitems in
theorem IsTableOf.mem_sets_iff (hf : f.isGrouped = false → group = "") :
    (f.setKey group, member) ∈ s.sets ↔ (f, ⟨group, member⟩) ∈ entries := by
  have hregular : ∀ e ∈ entries, IsRegular e := fun e he => by
    obtain ⟨r, hr⟩ := hitems e he
    exact Record.isRegular_of_mem_items hr
  have hown : IsRegular (f, ⟨group, member⟩) := hf
  rw [h.rows]
  exact setRow_mem_map hown hregular

include h hitems in
theorem IsTableOf.mem_groups_iff (hf : f.isGrouped = true) :
    group ∈ s.groups f.keyStart ↔ ∃ member, (f, ⟨group, member⟩) ∈ entries := by
  have hkey : f.keyStart ++ group = f.setKey group := by rw [Family.setKey, if_pos hf]
  rw [mem_groups h.inOrder, hkey]
  apply exists_congr
  intro member
  exact h.mem_sets_iff hitems fun hsingle => by rw [hf] at hsingle; cases hsingle

theorem ascending_groups (s : KeyValueStore) (start : String) :
    Ordered.Ascending Ordered.textBefore (s.groups start) :=
  Ordered.ascending_ofList Ordered.textBefore_strict _

end

end KeyValueStore

open KeyValueStore

/-- In a table of any items of any records, the members that are found under the key of a family
and a group are those of its items, in the order of their bytes. The groups that are found for a
family of titles are those of its items, and no two families or groups have the same key. -/
theorem scans_of_table {s : KeyValueStore} {entries : List (Family × Item)}
    (hitems : ∀ e ∈ entries, ∃ r : Record, e ∈ r.items) (htable : s.IsTableOf entries) :
    (∀ f group, (f.isGrouped = false → group = "") →
        (∀ member, member ∈ s.members (f.setKey group) ↔ (f, ⟨group, member⟩) ∈ entries) ∧
          InByteOrder (s.members (f.setKey group))) ∧
      (∀ f, f = .urisByTitle ∨ f = .urisBySearchTitle →
        (∀ group, group ∈ s.groups f.keyStart ↔ ∃ member, (f, ⟨group, member⟩) ∈ entries) ∧
          InByteOrder (s.groups f.keyStart)) ∧
      ∀ (q r : Record), ∀ d ∈ q.items, ∀ e ∈ r.items,
        (d.1 ≠ e.1 ∨ d.2.group ≠ e.2.group) → d.1.setKey d.2.group ≠ e.1.setKey e.2.group := by
  refine ⟨?_, ?_, ?_⟩
  · intro f group hf
    constructor
    · intro member
      rw [mem_members htable.inOrder, htable.mem_sets_iff hitems hf]
    · exact inByteOrder_of_ascending (ascending_members htable.inOrder _)
  · intro f hf
    have hgrouped : f.isGrouped = true := by rcases hf with rfl | rfl <;> rfl
    exact ⟨fun group => htable.mem_groups_iff hitems hgrouped,
      inByteOrder_of_ascending (s.ascending_groups f.keyStart)⟩
  · intro q r d hd e he hne hkey
    have hd := Record.isRegular_of_mem_items hd
    have he := Record.isRegular_of_mem_items he
    obtain ⟨hfamily, hgroup⟩ := (setKey_eq_setKey_iff hd he).mp hkey
    exact hne.elim (fun hdiffer => hdiffer hfamily) fun hdiffer => hdiffer hgroup

def blankRecord : Record :=
  ⟨.nvd, "", "", "", "", "", "", "", "", "", "", "", "", "", "", "", false⟩

def hashedRecord : Record := { blankRecord with title := "#", searchTitle := "#", uri := "cpe:/" }

def blankItems : List (Family × Item) := blankRecord.items ++ hashedRecord.items

def blankTable : KeyValueStore := ⟨Ordered.ofList Ordered.pairBefore (blankItems.map setRow), []⟩

theorem scans_of_table_blank :
    (∀ e ∈ blankItems, ∃ r : Record, e ∈ r.items) ∧ blankTable.IsTableOf blankItems ∧
      "" ∈ blankTable.members (Family.urisByTitle.setKey "") ∧
      "cpe:/" ∉ blankTable.members (Family.urisByTitle.setKey "") ∧
      "" ∈ blankTable.groups Family.urisByTitle.keyStart ∧
      Family.urisByTitle.setKey "" ≠ Family.urisByTitle.setKey "#" := by
  have hitems : ∀ e ∈ blankItems, ∃ r : Record, e ∈ r.items := by
    intro e he
    rcases List.mem_append.mp he with hblank | hhashed
    · exact ⟨blankRecord, hblank⟩
    · exact ⟨hashedRecord, hhashed⟩
  have htable : blankTable.IsTableOf blankItems := isTableOf_ofList blankItems []
  obtain ⟨hmembers, hgroups, hkeys⟩ := scans_of_table hitems htable
  obtain ⟨hmember, _⟩ := hmembers .urisByTitle "" (by decide)
  obtain ⟨hgroup, _⟩ := hgroups .urisByTitle (Or.inl rfl)
  refine ⟨hitems, htable, (hmember "").mpr (by decide), ?_, (hgroup "").mpr ⟨"", by decide⟩, ?_⟩
  · rw [hmember]
    decide
  · exact hkeys blankRecord hashedRecord (.urisByTitle, ⟨"", ""⟩) (by decide)
      (.urisByTitle, ⟨"#", "cpe:/"⟩) (by decide) (Or.inr (by decide))

end PlatformCatalog
