import PlatformCatalog.Proofs.RelationalIngestion
import PlatformCatalog.Proofs.Scans
import PlatformCatalog.Store.Backend

/-!
# Answers

Whatever store it is, its answers follow from the records of the last
batches alone. The key-value store reads them from its sets, the relational
store from its table.
-/

set_option autoImplicit false

namespace PlatformCatalog

theorem Product.before_strict : Ordered.Strict Product.before := by
  apply Ordered.pairBefore_strict.comap fun p : Product => (p.vendor, p.product)
  intro p q h
  obtain ⟨hvendor, hproduct⟩ := Prod.mk.inj h
  cases p
  cases q
  exact congrArg₂ Product.mk hvendor hproduct

namespace Latest

def records (latest : Latest) : List Record :=
  Source.all.flatMap fun source => (latest source).elim [] (normalize source)

theorem mem_records {latest : Latest} {r : Record} : r ∈ latest.records ↔ latest.Brings r := by
  rw [records, List.mem_flatMap, Brings]
  constructor
  · intro h
    obtain ⟨source, _, hr⟩ := h
    cases hb : latest source with
    | none =>
      rw [hb] at hr
      cases hr
    | some b =>
      rw [hb] at hr
      exact ⟨source, b, hb, hr⟩
  · intro h
    obtain ⟨source, b, hb, hr⟩ := h
    have hmem : r ∈ (latest source).elim [] (normalize source) := by rwa [hb]
    exact ⟨source, Source.mem_all source, hmem⟩

/-- The values of a column that are most similar to the query, with the URIs they stand with. -/
def similar (latest : Latest) (column : Record → String) (query : String) (n : Nat)
    (a : Algorithm) : List Entry :=
  (Ranking.search a query n (Ordered.ofList Ordered.textBefore (latest.records.map column))).map
    fun title => ⟨title, Ordered.ofList Ordered.textBefore
      ((latest.records.filter fun r => column r = title).map Record.uri)⟩

end Latest

/-- The answers of a store that follow from the last batches. Products come in order, and those
with deprecated records only come apart. -/
structure Store.Answers (s : Store) (latest : Latest) : Prop where
  activeInOrder : Ordered.Ascending Product.before s.products.1
  active : ∀ p, p ∈ s.products.1 ↔ ∃ r, latest.Brings r ∧ r.deprecated = false ∧ r.pair = p
  deprecatedInOrder : Ordered.Ascending Product.before s.products.2
  deprecated : ∀ p, p ∈ s.products.2 ↔
    (∃ r, latest.Brings r ∧ r.deprecated = true ∧ r.pair = p) ∧
      ¬∃ r, latest.Brings r ∧ r.deprecated = false ∧ r.pair = p
  isDeprecated : ∀ uri, s.isDeprecated uri = true ↔
    (∃ r, latest.Brings r ∧ r.deprecated = true ∧ r.uri = uri) ∧
      ¬∃ r, latest.Brings r ∧ r.deprecated = false ∧ r.uri = uri
  similarTitles : ∀ query n a,
    s.similarTitles query n a = latest.similar Record.title query n a
  similarSearchTitles : ∀ query n a,
    s.similarSearchTitles query n a = latest.similar Record.searchTitle query n a

namespace RelationalStore

variable {s : RelationalStore} {latest : Latest}

theorem mem_active {r : Record} : r ∈ s.active ↔ r ∈ s.records ∧ r.deprecated = false := by
  simp [active]

theorem mem_retired {r : Record} : r ∈ s.retired ↔ r ∈ s.records ∧ r.deprecated = true := by
  simp [retired]

theorem Tracks.mem_active_products (h : s.Tracks latest) (p : Product) :
    p ∈ s.products.1 ↔ ∃ r, latest.Brings r ∧ r.deprecated = false ∧ r.pair = p := by
  have hmem := Ordered.mem_ofList Product.before_strict (s.active.map Record.pair) p
  apply hmem.trans
  simp only [List.mem_map, mem_active, h.records, and_assoc]

theorem Tracks.mem_deprecated_products (h : s.Tracks latest) (p : Product) :
    p ∈ s.products.2 ↔ (∃ r, latest.Brings r ∧ r.deprecated = true ∧ r.pair = p) ∧
      ¬∃ r, latest.Brings r ∧ r.deprecated = false ∧ r.pair = p := by
  have hmem := Ordered.mem_ofList Product.before_strict ((s.retired.filter fun d =>
    !s.active.any fun a => a.pair = d.pair).map Record.pair) p
  apply hmem.trans
  rw [List.mem_map]
  constructor
  · intro hp
    obtain ⟨d, hd, rfl⟩ := hp
    obtain ⟨hretired, hnone⟩ := List.mem_filter.mp hd
    obtain ⟨hrecord, hdeprecated⟩ := mem_retired.mp hretired
    constructor
    · exact ⟨d, (h.records d).mp hrecord, hdeprecated, rfl⟩
    · intro hactive
      obtain ⟨a, ha, hfresh, hpair⟩ := hactive
      have hmem : a ∈ s.active := mem_active.mpr ⟨(h.records a).mpr ha, hfresh⟩
      have hany : (s.active.any fun a => a.pair = d.pair) = true :=
        List.any_eq_true.mpr ⟨a, hmem, by simpa using hpair⟩
      simp [hany] at hnone
  · intro hp
    obtain ⟨⟨d, hd, hdeprecated, rfl⟩, hnone⟩ := hp
    have hretired : d ∈ s.retired := mem_retired.mpr ⟨(h.records d).mpr hd, hdeprecated⟩
    have hany : (s.active.any fun a => a.pair = d.pair) = false := by
      rw [List.any_eq_false]
      intro a ha hpair
      obtain ⟨hrecord, hfresh⟩ := mem_active.mp ha
      exact hnone ⟨a, (h.records a).mp hrecord, hfresh, by simpa using hpair⟩
    exact ⟨d, List.mem_filter.mpr ⟨hretired, by rw [hany]; rfl⟩, rfl⟩

theorem Tracks.isDeprecated_iff (h : s.Tracks latest) (uri : String) :
    s.isDeprecated uri = true ↔
      (∃ r, latest.Brings r ∧ r.deprecated = true ∧ r.uri = uri) ∧
        ¬∃ r, latest.Brings r ∧ r.deprecated = false ∧ r.uri = uri := by
  have hretired : (s.retired.any fun r => r.uri = uri) = true ↔
      ∃ r, latest.Brings r ∧ r.deprecated = true ∧ r.uri = uri := by
    simp [List.any_eq_true, mem_retired, h.records, and_assoc]
  have hactive : (s.active.any fun r => r.uri = uri) = true ↔
      ∃ r, latest.Brings r ∧ r.deprecated = false ∧ r.uri = uri := by
    simp [List.any_eq_true, mem_active, h.records, and_assoc]
  rw [isDeprecated, Bool.and_eq_true, Bool.not_eq_true', ← Bool.not_eq_true, hretired, hactive]

theorem Tracks.similar_eq (h : s.Tracks latest) (column : Record → String) (query : String)
    (n : Nat) (a : Algorithm) : s.similar column query n a = latest.similar column query n a := by
  have hsame : ∀ r, r ∈ s.records ↔ r ∈ latest.records :=
    fun r => (h.records r).trans Latest.mem_records.symm
  have hcandidates : distinct (s.records.map column) =
      Ordered.ofList Ordered.textBefore (latest.records.map column) := by
    apply Ordered.ofList_congr Ordered.textBefore_strict
    intro title
    simp only [List.mem_map, hsame]
  rw [similar, hcandidates, Latest.similar]
  apply List.map_congr_left
  intro title _
  congr 1
  apply Ordered.ofList_congr Ordered.textBefore_strict
  intro uri
  simp only [List.mem_map, List.mem_filter, hsame]

theorem Tracks.answers (h : s.Tracks latest) : (Store.relational s).Answers latest where
  activeInOrder := Ordered.ascending_ofList Product.before_strict _
  active := h.mem_active_products
  deprecatedInOrder := Ordered.ascending_ofList Product.before_strict _
  deprecated := h.mem_deprecated_products
  isDeprecated := h.isDeprecated_iff
  similarTitles := h.similar_eq Record.title
  similarSearchTitles := h.similar_eq Record.searchTitle

end RelationalStore

namespace Record

theorem mem_items_activeUris {r : Record} {uri : String} :
    (.activeUris, ⟨"", uri⟩) ∈ r.items ↔ r.deprecated = false ∧ r.uri = uri := by
  grind [items]

theorem mem_items_deprecatedUris {r : Record} {uri : String} :
    (.deprecatedUris, ⟨"", uri⟩) ∈ r.items ↔ r.deprecated = true ∧ r.uri = uri := by
  grind [items]

theorem mem_items_products {r : Record} {member : String} :
    (.products, ⟨"", member⟩) ∈ r.items ↔ r.deprecated = false ∧ r.pair.member = member := by
  grind [items]

theorem mem_items_deprecatedProducts {r : Record} {member : String} :
    (.deprecatedProducts, ⟨"", member⟩) ∈ r.items ↔
      r.deprecated = true ∧ r.pair.member = member := by
  grind [items]

theorem mem_items_urisByTitle {r : Record} {title uri : String} :
    (.urisByTitle, ⟨title, uri⟩) ∈ r.items ↔ r.title = title ∧ r.uri = uri := by
  grind [items]

theorem mem_items_urisBySearchTitle {r : Record} {title uri : String} :
    (.urisBySearchTitle, ⟨title, uri⟩) ∈ r.items ↔ r.searchTitle = title ∧ r.uri = uri := by
  grind [items]

end Record

theorem Latest.Brings.ofMember?_pair {latest : Latest} {r : Record} (h : latest.Brings r) :
    Product.ofMember? r.pair.member = some r.pair := by
  obtain ⟨_, _, _, hr⟩ := h
  exact (isOf_of_mem_normalize hr).ofMember?_pair

namespace KeyValueStore

variable {s : KeyValueStore} {latest : Latest}

theorem Tracks.setRow_mem_sets (h : s.Tracks latest) {e : Family × Item} (he : IsRegular e) :
    setRow e ∈ s.sets ↔ ∃ r, latest.Brings r ∧ e ∈ r.items := by
  rw [h.exact (setRow e)]
  constructor
  · intro hrow
    obtain ⟨u, d, hd, hrow⟩ := hrow
    obtain rfl := setRow_injective (h.sound.regular u d hd) he hrow
    obtain ⟨b, hb, hmem⟩ := (h.holds_iff u d).mp hd
    obtain ⟨r, hr, hitem⟩ := List.mem_flatMap.mp hmem
    exact ⟨r, ⟨u, b, hb, hr⟩, hitem⟩
  · intro hrecord
    obtain ⟨r, ⟨u, b, hb, hr⟩, hitem⟩ := hrecord
    have hmem : e ∈ contribution u b := List.mem_flatMap.mpr ⟨r, hr, hitem⟩
    exact ⟨u, e, (h.holds_iff u e).mpr ⟨b, hb, hmem⟩, rfl⟩

theorem Tracks.single_mem_sets (h : s.Tracks latest) {f : Family} (hf : f.isGrouped = false)
    (member : String) :
    (f.keyStart, member) ∈ s.sets ↔ ∃ r, latest.Brings r ∧ (f, ⟨"", member⟩) ∈ r.items := by
  have hregular : IsRegular (f, ⟨"", member⟩) := fun _ => rfl
  have hrow := h.setRow_mem_sets hregular
  rwa [setRow, Family.setKey, if_neg (by simp [hf])] at hrow

theorem Tracks.grouped_mem_sets (h : s.Tracks latest) {f : Family} (hf : f.isGrouped = true)
    (group member : String) :
    (f.keyStart ++ group, member) ∈ s.sets ↔
      ∃ r, latest.Brings r ∧ (f, ⟨group, member⟩) ∈ r.items := by
  have hregular : IsRegular (f, ⟨group, member⟩) := by
    intro hnot
    rw [hf] at hnot
    cases hnot
  have hrow := h.setRow_mem_sets hregular
  rwa [setRow, Family.setKey, if_pos hf] at hrow

theorem Tracks.mem_productsOf (h : s.Tracks latest) {f : Family} (hf : f.isGrouped = false)
    {deprecated : Bool} (hitems : ∀ (r : Record) (member : String),
      (f, ⟨"", member⟩) ∈ r.items ↔ r.deprecated = deprecated ∧ r.pair.member = member)
    (p : Product) :
    p ∈ s.productsOf f ↔ ∃ r, latest.Brings r ∧ r.deprecated = deprecated ∧ r.pair = p := by
  rw [productsOf, Ordered.mem_ofList Product.before_strict, List.mem_filterMap]
  constructor
  · intro hp
    obtain ⟨member, hmember, hp⟩ := hp
    rw [mem_members h.sound.sets, h.single_mem_sets hf] at hmember
    obtain ⟨r, hr, hitem⟩ := hmember
    obtain ⟨hdeprecated, rfl⟩ := (hitems r member).mp hitem
    rw [hr.ofMember?_pair] at hp
    exact ⟨r, hr, hdeprecated, Option.some.inj hp⟩
  · intro hp
    obtain ⟨r, hr, hdeprecated, rfl⟩ := hp
    have hmember : r.pair.member ∈ s.members f.keyStart := by
      rw [mem_members h.sound.sets, h.single_mem_sets hf]
      exact ⟨r, hr, (hitems r _).mpr ⟨hdeprecated, rfl⟩⟩
    exact ⟨r.pair.member, hmember, hr.ofMember?_pair⟩

theorem Tracks.mem_active_products (h : s.Tracks latest) (p : Product) :
    p ∈ s.products.1 ↔ ∃ r, latest.Brings r ∧ r.deprecated = false ∧ r.pair = p :=
  h.mem_productsOf rfl (fun _ _ => Record.mem_items_products) p

theorem Tracks.mem_deprecated_products (h : s.Tracks latest) (p : Product) :
    p ∈ s.products.2 ↔ (∃ r, latest.Brings r ∧ r.deprecated = true ∧ r.pair = p) ∧
      ¬∃ r, latest.Brings r ∧ r.deprecated = false ∧ r.pair = p := by
  have hretired := h.mem_productsOf (f := .deprecatedProducts) rfl
    (fun _ _ => Record.mem_items_deprecatedProducts) p
  have hactive := h.mem_active_products p
  rw [products] at hactive
  rw [products, List.mem_filter, Bool.not_eq_true', ← Bool.not_eq_true, List.contains_iff_mem,
    hretired, hactive]

theorem Tracks.isDeprecated_iff (h : s.Tracks latest) (uri : String) :
    s.isDeprecated uri = true ↔
      (∃ r, latest.Brings r ∧ r.deprecated = true ∧ r.uri = uri) ∧
        ¬∃ r, latest.Brings r ∧ r.deprecated = false ∧ r.uri = uri := by
  rw [isDeprecated, Bool.and_eq_true, Bool.not_eq_true', ← Bool.not_eq_true, contains_iff,
    contains_iff, h.single_mem_sets rfl, h.single_mem_sets rfl]
  simp only [Record.mem_items_deprecatedUris, Record.mem_items_activeUris]

theorem Tracks.similar_eq (h : s.Tracks latest) {f : Family} (hf : f.isGrouped = true)
    {column : Record → String} (hitems : ∀ (r : Record) (title uri : String),
      (f, ⟨title, uri⟩) ∈ r.items ↔ column r = title ∧ r.uri = uri)
    (query : String) (n : Nat) (a : Algorithm) :
    s.similar f query n a = latest.similar column query n a := by
  have hcandidates : s.groups f.keyStart =
      Ordered.ofList Ordered.textBefore (latest.records.map column) := by
    apply Ordered.Ascending.ext Ordered.textBefore_strict
    · exact Ordered.ascending_ofList Ordered.textBefore_strict _
    · exact Ordered.ascending_ofList Ordered.textBefore_strict _
    · intro title
      rw [mem_groups h.sound.sets, Ordered.mem_ofList Ordered.textBefore_strict, List.mem_map]
      simp only [h.grouped_mem_sets hf, hitems, Latest.mem_records]
      constructor
      · intro htitle
        obtain ⟨_, r, hr, htitle, _⟩ := htitle
        exact ⟨r, hr, htitle⟩
      · intro htitle
        obtain ⟨r, hr, htitle⟩ := htitle
        exact ⟨r.uri, r, hr, htitle, rfl⟩
  rw [similar, hcandidates, Latest.similar]
  apply List.map_congr_left
  intro title _
  congr 1
  apply Ordered.Ascending.ext Ordered.textBefore_strict
  · exact ascending_members h.sound.sets _
  · exact Ordered.ascending_ofList Ordered.textBefore_strict _
  · intro uri
    rw [mem_members h.sound.sets, Family.setKey, if_pos hf, h.grouped_mem_sets hf,
      Ordered.mem_ofList Ordered.textBefore_strict, List.mem_map]
    simp only [hitems, List.mem_filter, Latest.mem_records, decide_eq_true_eq, and_assoc]

theorem Tracks.answers (h : s.Tracks latest) : (Store.keyValue s).Answers latest where
  activeInOrder := Ordered.ascending_ofList Product.before_strict _
  active := h.mem_active_products
  deprecatedInOrder := (Ordered.ascending_ofList Product.before_strict _).filter _
  deprecated := h.mem_deprecated_products
  isDeprecated := h.isDeprecated_iff
  similarTitles := h.similar_eq rfl fun _ _ _ => Record.mem_items_urisByTitle
  similarSearchTitles := h.similar_eq rfl fun _ _ _ => Record.mem_items_urisBySearchTitle

end KeyValueStore

namespace Store

variable {s t : Store} {latest : Latest}

theorem Answers.products_eq (hs : s.Answers latest) (ht : t.Answers latest) :
    s.products = t.products := by
  apply Prod.ext
  · apply hs.activeInOrder.ext Product.before_strict ht.activeInOrder
    intro p
    rw [hs.active, ht.active]
  · apply hs.deprecatedInOrder.ext Product.before_strict ht.deprecatedInOrder
    intro p
    rw [hs.deprecated, ht.deprecated]

theorem Answers.isDeprecated_eq (hs : s.Answers latest) (ht : t.Answers latest) (uri : String) :
    s.isDeprecated uri = t.isDeprecated uri := by
  rw [Bool.eq_iff_iff, hs.isDeprecated, ht.isDeprecated]

end Store

end PlatformCatalog
