import PlatformCatalog.Proofs.QuotedValues
import PlatformCatalog.Record.Listing

/-!
# The records of a batch

Every record of a batch is that of a name that was read. It carries the
source of the batch, and no two of them have the same URI.
-/

set_option autoImplicit false

namespace PlatformCatalog

variable {source : Source} {b : Batch}

def converted (source : Source) (b : Batch) : List Record :=
  convert source b.active false ++ convert source b.deprecated true

def Record.IsOf (source : Source) (r : Record) : Prop :=
  ∃ title n deprecated, n.IsQuoted ∧ r = ofName source title n deprecated

theorem Record.IsOf.source_eq {r : Record} (h : r.IsOf source) : r.source = source := by
  obtain ⟨_, _, _, _, rfl⟩ := h
  rfl

theorem Record.IsOf.ofMember?_pair {r : Record} (h : r.IsOf source) :
    Product.ofMember? r.pair.member = some r.pair := by
  obtain ⟨_, n, _, hn, rfl⟩ := h
  exact Product.ofMember?_member (hn .vendor) (n.word .product)

theorem exists_parse_of_mem_convert {entries : List Entry} {deprecated : Bool} {r : Record}
    (h : r ∈ convert source entries deprecated) :
    ∃ title identifier n, Name.parse identifier = .ok n ∧
      r = Record.ofName source title n deprecated := by
  obtain ⟨e, _, h⟩ := List.mem_flatMap.mp h
  obtain ⟨identifier, _, h⟩ := List.mem_filterMap.mp h
  rw [Record.ofIdentifier] at h
  split at h
  · next n hn => exact ⟨e.title, identifier, n, hn, (Option.some.inj h).symm⟩
  · cases h

theorem isOf_of_mem_convert {entries : List Entry} {deprecated : Bool} {r : Record}
    (h : r ∈ convert source entries deprecated) : r.IsOf source := by
  obtain ⟨title, _, n, hn, rfl⟩ := exists_parse_of_mem_convert h
  exact ⟨title, n, deprecated, Name.isQuoted_of_parse hn, rfl⟩

theorem keepFirst_sublist (seen : List String) (rs : List Record) :
    (keepFirst seen rs).Sublist rs := by
  induction rs generalizing seen with
  | nil => exact .slnil
  | cons r rest ih =>
    rw [keepFirst]
    split
    · exact (ih seen).cons r
    · exact (ih (r.uri :: seen)).cons_cons r

theorem uri_notMem_of_mem_keepFirst {seen : List String} {rs : List Record} {r : Record}
    (h : r ∈ keepFirst seen rs) : r.uri ∉ seen := by
  induction rs generalizing seen with
  | nil => cases h
  | cons q rest ih =>
    rw [keepFirst] at h
    split at h
    · exact ih h
    · next hq =>
      rcases List.mem_cons.mp h with rfl | hrest
      · exact hq
      · exact fun hseen => ih hrest (List.mem_cons_of_mem q.uri hseen)

theorem pairwise_uri_keepFirst (seen : List String) (rs : List Record) :
    (keepFirst seen rs).Pairwise fun q r => q.uri ≠ r.uri := by
  induction rs generalizing seen with
  | nil => exact .nil
  | cons r rest ih =>
    rw [keepFirst]
    split
    · exact ih seen
    · refine List.pairwise_cons.mpr ⟨fun q hq heq => ?_, ih (r.uri :: seen)⟩
      apply uri_notMem_of_mem_keepFirst hq
      rw [← heq]
      exact List.mem_cons_self

theorem exists_mem_keepFirst {seen : List String} {rs : List Record} {r : Record} (hr : r ∈ rs)
    (hseen : r.uri ∉ seen) : ∃ k ∈ keepFirst seen rs, k.uri = r.uri := by
  induction rs generalizing seen with
  | nil => cases hr
  | cons q rest ih =>
    rw [keepFirst]
    split
    · next hq =>
      rcases List.mem_cons.mp hr with rfl | hr
      · exact absurd hq hseen
      · exact ih hr hseen
    · by_cases hrq : r.uri = q.uri
      · exact ⟨q, List.mem_cons_self, hrq.symm⟩
      · rcases List.mem_cons.mp hr with rfl | hr
        · exact absurd rfl hrq
        · have hnew : r.uri ∉ q.uri :: seen := by simp [hrq, hseen]
          obtain ⟨k, hk, huri⟩ := ih hr hnew
          exact ⟨k, List.mem_cons_of_mem q hk, huri⟩

theorem isOf_of_mem_normalize {r : Record} (h : r ∈ normalize source b) : r.IsOf source := by
  rcases List.mem_append.mp ((keepFirst_sublist [] _).subset h) with h | h
  · exact isOf_of_mem_convert h
  · exact isOf_of_mem_convert h

theorem exists_parse_of_mem_normalize {r : Record} (h : r ∈ normalize source b) :
    ∃ title identifier n deprecated, Name.parse identifier = .ok n ∧
      r = Record.ofName source title n deprecated := by
  rcases List.mem_append.mp ((keepFirst_sublist [] _).subset h) with h | h
  · obtain ⟨title, identifier, n, hn, hr⟩ := exists_parse_of_mem_convert h
    exact ⟨title, identifier, n, false, hn, hr⟩
  · obtain ⟨title, identifier, n, hn, hr⟩ := exists_parse_of_mem_convert h
    exact ⟨title, identifier, n, true, hn, hr⟩

theorem source_of_mem_normalize {r : Record} (h : r ∈ normalize source b) : r.source = source :=
  (isOf_of_mem_normalize h).source_eq

theorem pairwise_uri_normalize (source : Source) (b : Batch) :
    (normalize source b).Pairwise fun q r => q.uri ≠ r.uri :=
  pairwise_uri_keepFirst [] _

theorem eq_of_mem_normalize {k l : Record} (hk : k ∈ normalize source b)
    (hl : l ∈ normalize source b) (h : k.uri = l.uri) : k = l := by
  have hdistinct := List.pairwise_iff_getElem.mp (pairwise_uri_normalize source b)
  obtain ⟨i, hi, rfl⟩ := List.mem_iff_getElem.mp hk
  obtain ⟨j, hj, rfl⟩ := List.mem_iff_getElem.mp hl
  rcases Nat.lt_trichotomy i j with hij | rfl | hij
  · exact absurd h (hdistinct i j hi hj hij)
  · rfl
  · exact absurd h.symm (hdistinct j i hj hi hij)

theorem keepFirst_append (seen : List String) (xs ys : List Record) :
    ∃ more, (∀ uri, uri ∈ more ↔ uri ∈ seen ∨ uri ∈ xs.map (·.uri)) ∧
      keepFirst seen (xs ++ ys) = keepFirst seen xs ++ keepFirst more ys := by
  induction xs generalizing seen with
  | nil => exact ⟨seen, by simp, rfl⟩
  | cons x xs ih =>
    rw [List.cons_append, keepFirst, keepFirst]
    split
    · next hx =>
      obtain ⟨more, hmem, hmore⟩ := ih seen
      refine ⟨more, fun uri => ?_, hmore⟩
      have hsame : uri = x.uri → uri ∈ seen := fun h => h ▸ hx
      rw [hmem, List.map_cons, List.mem_cons, ← or_assoc, or_iff_left_of_imp hsame]
    · obtain ⟨more, hmem, hmore⟩ := ih (x.uri :: seen)
      refine ⟨more, fun uri => ?_, by rw [hmore, List.cons_append]⟩
      rw [hmem, List.map_cons, List.mem_cons, List.mem_cons, or_assoc, or_left_comm]

theorem deprecated_of_mem_convert {source : Source} {entries : List Entry} {deprecated : Bool}
    {r : Record} (h : r ∈ convert source entries deprecated) : r.deprecated = deprecated := by
  obtain ⟨_, _, n, _, rfl⟩ := exists_parse_of_mem_convert h
  rfl

theorem active_iff_of_mem_normalize {source : Source} {b : Batch} {r : Record}
    (h : r ∈ normalize source b) :
    r.deprecated = false ↔ ∃ a ∈ convert source b.active false, a.uri = r.uri := by
  constructor
  · intro hr
    rcases List.mem_append.mp ((keepFirst_sublist [] _).subset h) with hmem | hmem
    · exact ⟨r, hmem, rfl⟩
    · cases hr.symm.trans (deprecated_of_mem_convert hmem)
  · rintro ⟨a, ha, huri⟩
    obtain ⟨k, hk, hka⟩ := exists_mem_keepFirst ha List.not_mem_nil
    obtain ⟨more, -, hsplit⟩ := keepFirst_append [] (convert source b.active false)
      (convert source b.deprecated true)
    have hkept : k ∈ normalize source b := by
      rw [normalize, hsplit]
      exact List.mem_append_left _ hk
    rw [eq_of_mem_normalize h hkept (huri.symm.trans hka.symm)]
    exact deprecated_of_mem_convert ((keepFirst_sublist [] _).subset hk)

/-- Each record of a batch is kept in exactly one record, and two of them are kept in the same one
if and only if their URIs are the same. -/
theorem merged_iff {q r : Record}
    (hq : q ∈ converted source b) (hr : r ∈ converted source b) :
    ∃ k ∈ normalize source b, ∃ l ∈ normalize source b,
      (∀ p ∈ normalize source b, p.uri = q.uri ↔ p = k) ∧
      (∀ p ∈ normalize source b, p.uri = r.uri ↔ p = l) ∧ (k = l ↔ q.uri = r.uri) := by
  have hseen : ∀ p : Record, p.uri ∉ ([] : List String) := fun _ => List.not_mem_nil
  obtain ⟨k, hk, hkq⟩ := exists_mem_keepFirst hq (hseen q)
  obtain ⟨l, hl, hlr⟩ := exists_mem_keepFirst hr (hseen r)
  refine ⟨k, hk, l, hl, fun p hp => ⟨fun h => ?_, fun h => h ▸ hkq⟩,
    fun p hp => ⟨fun h => ?_, fun h => h ▸ hlr⟩, fun h => ?_, fun h => ?_⟩
  · exact eq_of_mem_normalize hp hk (h.trans hkq.symm)
  · exact eq_of_mem_normalize hp hl (h.trans hlr.symm)
  · rw [← hkq, h, hlr]
  · exact eq_of_mem_normalize hk hl (hkq.trans (h.trans hlr.symm))

end PlatformCatalog
