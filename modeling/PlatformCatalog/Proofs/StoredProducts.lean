import PlatformCatalog.Proofs.Interleaving
import PlatformCatalog.Proofs.Lookups
import PlatformCatalog.Proofs.MemberScan

/-!
# Stored products

The members of the product sets are those of records, whatever calls have
been made, side by side or broken off. The vendor of a record ends where the
member is cut, so every member gives its product back.
-/

set_option autoImplicit false

namespace PlatformCatalog

def Record.IsBuilt (r : Record) : Prop :=
  ∃ source title identifier deprecated,
    ofIdentifier source title identifier deprecated = .ok r

theorem Record.IsBuilt.isLegible {r : Record} (h : r.IsBuilt) : r.pair.IsLegible := by
  obtain ⟨source, title, identifier, deprecated, h⟩ := h
  rw [ofIdentifier] at h
  split at h
  · next n hn =>
    cases h
    exact Name.isLegible hn (n.word .product)
  · cases h

theorem Record.isBuilt_of_mem_normalize {source : Source} {b : Batch} {r : Record}
    (h : r ∈ normalize source b) : r.IsBuilt := by
  obtain ⟨title, identifier, n, deprecated, hn, rfl⟩ := exists_parse_of_mem_normalize h
  exact ⟨source, title, identifier, deprecated, by rw [ofIdentifier, hn]⟩

def IsItem (e : Family × Item) : Prop := ∃ r : Record, r.IsBuilt ∧ e ∈ r.items

theorem isItem_of_mem_contribution {source : Source} {b : Batch} {e : Family × Item}
    (h : e ∈ contribution source b) : IsItem e := by
  obtain ⟨r, hr, he⟩ := List.mem_flatMap.mp h
  exact ⟨r, Record.isBuilt_of_mem_normalize hr, he⟩

namespace KeyValueStore

def HoldsItems (s : KeyValueStore) : Prop := ∀ row ∈ s.sets, ∃ e, IsItem e ∧ setRow e = row

def Stage.AddsItems : Stage → Prop
  | .writing left => ∀ e ∈ added left, IsItem e
  | _ => True

section

variable {s : KeyValueStore}

theorem HoldsItems.commit (h : s.HoldsItems) (hs : s.Sound) {c : Commit}
    (hc : ∀ e ∈ c.added, IsItem e) : (s.commit c).HoldsItems := by
  intro row hrow
  rcases ((mem_sets_commit hs.sets c row).mp hrow).2 with hadded | hold
  · obtain ⟨e, he, hrow⟩ := List.mem_map.mp hadded
    exact ⟨e, hc e he, hrow⟩
  · exact h row hold

theorem HoldsItems.advance (h : s.HoldsItems) (hs : s.Sound) (c : Intake) {stage : Stage}
    (hstage : stage.AddsItems) :
    (advance c s stage).1.HoldsItems ∧ (advance c s stage).2.AddsItems := by
  cases stage with
  | begun =>
    refine ⟨h, ?_⟩
    rw [KeyValueStore.advance]
    cases Stamp.gate s.stamp c.batchSize <;> trivial
  | checked =>
    refine ⟨h, ?_⟩
    rw [KeyValueStore.advance]
    cases s.manifest c.source <;> trivial
  | reading own read left =>
    refine ⟨by cases left <;> exact h, ?_⟩
    cases left with
    | nil =>
      intro e he
      rw [added_plan] at he
      exact isItem_of_mem_contribution he
    | cons u left =>
      rw [KeyValueStore.advance]
      cases s.manifest u <;> trivial
  | writing left =>
    cases left with
    | nil => exact ⟨h, hstage⟩
    | cons commit left =>
      obtain ⟨hcommit, hleft⟩ := List.forall_mem_append.mp hstage
      exact ⟨h.commit hs hcommit, hleft⟩
  | failed e => exact ⟨h, trivial⟩

structure Race.HoldsItems (w : Race) : Prop where
  store : w.store.HoldsItems
  stages : ∀ i, (w.stage i).AddsItems

theorem Race.HoldsItems.turn {w : Race} (h : w.HoldsItems) (hw : w.Sound) (calls : Bool → Intake)
    (i : Bool) : (w.turn calls i).HoldsItems := by
  have hstep := h.store.advance hw.store (calls i) (h.stages i)
  refine ⟨hstep.1, fun j => ?_⟩
  by_cases hj : j = i
  · rw [hj, stage_turn_self]
    exact hstep.2
  · rw [stage_turn_of_ne w hj]
    exact h.stages j

theorem Race.HoldsItems.run {w : Race} (h : w.HoldsItems) (hw : w.Sound) (calls : Bool → Intake)
    (turns : List Bool) : (w.run calls turns).HoldsItems := by
  induction turns generalizing w with
  | nil => exact h
  | cons i rest ih => exact ih (h.turn hw calls i) (hw.turn calls i)

theorem Attainable.holdsItems (hs : s.Attainable) : s.HoldsItems := by
  induction hs with
  | fresh => exact fun row hrow => absurd hrow List.not_mem_nil
  | stamped stamp _ ih => exact ih
  | @raced s calls turns hs ih =>
    have hbegin : Race.HoldsItems ⟨s, fun _ => .begun⟩ := ⟨ih, fun _ => trivial⟩
    exact (hbegin.run ⟨hs.sound, fun _ => trivial⟩ calls turns).store

def IsOfProducts (f : Family) : Prop := f = .products ∨ f = .deprecatedProducts

theorem exists_isBuilt_of_mem_members (hs : s.Attainable) {f : Family} (hf : IsOfProducts f)
    {member : String} (h : member ∈ s.members f.keyStart) :
    ∃ r : Record, r.IsBuilt ∧ r.pair.member = member := by
  rw [mem_members hs.sound.sets] at h
  obtain ⟨⟨g, item⟩, ⟨r, hr, hitem⟩, hrow⟩ := hs.holdsItems _ h
  obtain ⟨hkey, rfl⟩ := Prod.mk.inj hrow
  have hsingle : f.isGrouped = false := by rcases hf with rfl | rfl <;> rfl
  have hkey : g.setKey item.group = f.setKey "" := by
    rw [hkey, Family.setKey, if_neg (by simp [hsingle])]
  obtain rfl := Family.setKey_inj_family hkey
  refine ⟨r, hr, ?_⟩
  rcases hf with rfl | rfl <;> grind [Record.items]

theorem mem_productsOf_iff (f : Family) (p : Product) :
    p ∈ s.productsOf f ↔ p.IsLegible ∧ p.member ∈ s.members f.keyStart := by
  rw [productsOf, Ordered.mem_ofList Product.before_strict, List.mem_filterMap]
  constructor
  · rintro ⟨member, hmember, hp⟩
    obtain rfl := Product.member_of_ofMember? hp
    exact ⟨hp, hmember⟩
  · rintro ⟨hp, hmember⟩
    exact ⟨p.member, hmember, hp⟩

end

end KeyValueStore

open KeyValueStore

/-- The member of a record is cut into vendor and product again, so records with another vendor or
product share neither the member nor the set of their URIs. Whatever calls have been made, the
members of the product sets are those of records, and no product is left out of the lists. Any text
at all is cut as a scan of its bytes finds, which is over in time and cuts through no character. -/
theorem members_cut_back :
    (∀ source title identifier deprecated r,
        Record.ofIdentifier source title identifier deprecated = .ok r →
        Product.ofMember? r.pair.member = some r.pair) ∧
      (∀ q r : Record, q.IsBuilt → r.IsBuilt → q.pair ≠ r.pair →
        q.pair.member ≠ r.pair.member ∧
          Family.urisByProduct.setKey q.pair.member ≠
            Family.urisByProduct.setKey r.pair.member) ∧
      (∀ s : KeyValueStore, s.Attainable →
        (∀ f, IsOfProducts f → ∀ member ∈ s.members f.keyStart,
            ∃ r : Record, r.IsBuilt ∧ r.pair.member = member) ∧
          ∀ r : Record, r.IsBuilt →
            (r.pair ∈ s.products.1 ↔ r.pair.member ∈ s.members Family.products.keyStart) ∧
            (r.pair ∈ s.products.2 ↔ r.pair ∉ s.products.1 ∧
              r.pair.member ∈ s.members Family.deprecatedProducts.keyStart)) ∧
      ∀ s : String, ∃ found,
        (Product.Scan.turn s.toUTF8.data.toList)^[s.utf8ByteSize + 1] (.before 0) = .over found ∧
          Product.ofMember? s = found.map (Product.sliceAt s) ∧
          ∀ i ∈ found, Product.IsCut s i ∧
            (Product.sliceAt s i).vendor ++ "##" ++ (Product.sliceAt s i).product = s := by
  refine ⟨?_, ?_, ?_, Product.exists_scan⟩
  · intro source title identifier deprecated r h
    exact Record.IsBuilt.isLegible ⟨source, title, identifier, deprecated, h⟩
  · intro q r hq hr hne
    have hmember : q.pair.member ≠ r.pair.member := fun h =>
      hne ((hq.isLegible.member_eq_iff hr.isLegible).mp h)
    exact ⟨hmember, fun h => hmember (Family.setKey_inj_group rfl h)⟩
  · intro s hs
    constructor
    · exact fun f hf member h => exists_isBuilt_of_mem_members hs hf h
    · intro r hr
      have hactive := mem_productsOf_iff (s := s) Family.products r.pair
      have hdeprecated := mem_productsOf_iff (s := s) Family.deprecatedProducts r.pair
      rw [and_iff_right hr.isLegible] at hactive hdeprecated
      refine ⟨hactive, ?_⟩
      rw [products, List.mem_filter, hdeprecated, Bool.not_eq_true', ← Bool.not_eq_true,
        List.contains_iff_mem, and_comm]

def signedTool : Batch where
  active := [⟨"Tool", ["cpe:/a:acme%23:%23tool:1.0"]⟩]
  deprecated := [⟨"Tool", ["cpe:/a:acme:tool:1.0"]⟩]

def signedStore : KeyValueStore :=
  (race (fun _ => ⟨.nvd, signedTool, 2⟩) fresh (.replicate 6 true)).store

theorem members_cut_back_signed :
    signedStore.Attainable ∧ ∃ q r : Record, q.IsBuilt ∧ r.IsBuilt ∧
      q.pair = ⟨"acme\\#", "\\#tool"⟩ ∧ q.pair ≠ r.pair ∧
      Product.ofMember? q.pair.member = some q.pair ∧ q.pair.member ≠ r.pair.member ∧
      q.pair ∈ signedStore.products.1 ∧ r.pair ∈ signedStore.products.2 := by
  obtain ⟨hsplit, hdiffer, hstores, _⟩ := members_cut_back
  have hstore : signedStore.Attainable := Attainable.fresh.raced _ _
  obtain ⟨q, hqmem, hqpair⟩ : ∃ q ∈ normalize .nvd signedTool, q.pair = ⟨"acme\\#", "\\#tool"⟩ := by
    decide +kernel
  obtain ⟨r, hrmem, hrpair⟩ : ∃ r ∈ normalize .nvd signedTool, r.pair = ⟨"acme", "tool"⟩ := by
    decide +kernel
  have hq : q.IsBuilt := Record.isBuilt_of_mem_normalize hqmem
  have hr : r.IsBuilt := Record.isBuilt_of_mem_normalize hrmem
  have hne : q.pair ≠ r.pair := by
    rw [hqpair, hrpair]
    decide
  have ⟨source, title, identifier, deprecated, hbuilt⟩ := hq
  have hactive : q.pair ∈ signedStore.products.1 := by
    rw [((hstores signedStore hstore).2 q hq).1, hqpair]
    decide +kernel
  have hdeprecated : r.pair ∈ signedStore.products.2 := by
    rw [((hstores signedStore hstore).2 r hr).2, hrpair]
    decide +kernel
  exact ⟨hstore, q, r, hq, hr, hqpair, hne, hsplit source title identifier deprecated q hbuilt,
    (hdiffer q r hq hr hne).1, hactive, hdeprecated⟩

end PlatformCatalog
