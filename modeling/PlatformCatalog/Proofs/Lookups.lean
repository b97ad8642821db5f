import PlatformCatalog.Proofs.Agreement

/-!
# Looking up a product

The key-value store keeps the URIs of a product in one set, under a key that
no other product has. Whether a URI is active is a question about all sources
and all products, and it divides the set in two.
-/

set_option autoImplicit false

namespace PlatformCatalog

/-- A record of the last batches holds the URI as an active one. -/
def Latest.Carries (latest : Latest) (uri : String) : Prop :=
  ∃ r, latest.Brings r ∧ r.deprecated = false ∧ r.uri = uri

theorem Name.word_ne_empty {identifier : String} {n : Name} (h : Name.parse identifier = .ok n)
    (a : Attribute) : n.word a ≠ "" := by
  have hcheck := (Name.isPlaced_parse h a).2
  rw [Name.word]
  cases hv : n.get a with
  | any => decide
  | na => decide
  | text s =>
    intro hs
    have hs : s = "" := hs
    rw [hv, hs] at hcheck
    simp [checkValue, checkText] at hcheck

/-- The product is read back from the text that joins its parts. -/
def Product.IsLegible (p : Product) : Prop := ofMember? p.member = some p

theorem Product.IsLegible.member_eq_iff {p q : Product} (hp : p.IsLegible) (hq : q.IsLegible) :
    p.member = q.member ↔ p = q := by
  constructor
  · intro h
    rw [IsLegible, h, hq] at hp
    exact (Option.some.inj hp).symm
  · exact congrArg Product.member

theorem Name.isLegible {identifier : String} {n : Name} (h : Name.parse identifier = .ok n)
    (product : String) : Product.IsLegible ⟨n.word .vendor, product⟩ :=
  Product.ofMember?_member (Name.isQuoted_of_parse h .vendor) product

theorem Record.mem_items_urisByProduct {r : Record} {group uri : String} :
    (.urisByProduct, ⟨group, uri⟩) ∈ r.items ↔ r.pair.member = group ∧ r.uri = uri := by
  grind [items]

namespace KeyValueStore

variable {s : KeyValueStore} {latest : Latest} {p : Product}

theorem uris_eq (hvendor : p.vendor ≠ "") (hproduct : p.product ≠ "") :
    s.uris p =
      ((s.members (Family.urisByProduct.setKey p.member)).filter fun uri => !s.isDeprecated uri,
        (s.members (Family.urisByProduct.setKey p.member)).filter s.isDeprecated) := by
  have hboth : ¬(p.vendor = "" ∨ p.product = "") := not_or.mpr ⟨hvendor, hproduct⟩
  rw [uris, if_neg hboth, List.partition_eq_filter_filter]
  simp [Function.comp_def]

theorem Tracks.mem_members_member (h : s.Tracks latest) (hp : p.IsLegible) (uri : String) :
    uri ∈ s.members (Family.urisByProduct.setKey p.member) ↔
      ∃ r, latest.Brings r ∧ r.pair = p ∧ r.uri = uri := by
  rw [mem_members h.sound.sets, Family.setKey, if_pos (by rfl), h.grouped_mem_sets rfl]
  apply exists_congr
  intro r
  rw [Record.mem_items_urisByProduct, and_congr_right_iff]
  intro hr
  have hlegible : r.pair.IsLegible := hr.ofMember?_pair
  rw [hlegible.member_eq_iff hp]

theorem Tracks.isDeprecated_iff_not_carries (h : s.Tracks latest) {r : Record}
    (hr : latest.Brings r) : s.isDeprecated r.uri = true ↔ ¬latest.Carries r.uri := by
  rw [h.isDeprecated_iff]
  constructor
  · intro hdeprecated
    exact hdeprecated.2
  · intro hnone
    cases hd : r.deprecated with
    | false => exact absurd ⟨r, hr, hd, rfl⟩ hnone
    | true => exact ⟨⟨r, hr, hd, rfl⟩, hnone⟩

theorem Tracks.mem_uris_active (h : s.Tracks latest) (hp : p.IsLegible) (hvendor : p.vendor ≠ "")
    (hproduct : p.product ≠ "") (uri : String) :
    uri ∈ (s.uris p).1 ↔
      (∃ r, latest.Brings r ∧ r.pair = p ∧ r.uri = uri) ∧ latest.Carries uri := by
  rw [uris_eq hvendor hproduct, List.mem_filter, h.mem_members_member hp, Bool.not_eq_true',
    ← Bool.not_eq_true]
  apply and_congr_right
  intro hrecord
  obtain ⟨r, hr, _, rfl⟩ := hrecord
  rw [h.isDeprecated_iff_not_carries hr, not_not]

theorem Tracks.mem_uris_deprecated (h : s.Tracks latest) (hp : p.IsLegible)
    (hvendor : p.vendor ≠ "") (hproduct : p.product ≠ "") (uri : String) :
    uri ∈ (s.uris p).2 ↔
      (∃ r, latest.Brings r ∧ r.pair = p ∧ r.uri = uri) ∧ ¬latest.Carries uri := by
  rw [uris_eq hvendor hproduct, List.mem_filter, h.mem_members_member hp]
  apply and_congr_right
  intro hrecord
  obtain ⟨r, hr, _, rfl⟩ := hrecord
  exact h.isDeprecated_iff_not_carries hr

theorem Tracks.mem_uris (h : s.Tracks latest) (hp : p.IsLegible) (hvendor : p.vendor ≠ "")
    (hproduct : p.product ≠ "") (uri : String) :
    uri ∈ (s.uris p).1 ∨ uri ∈ (s.uris p).2 ↔
      ∃ r, latest.Brings r ∧ r.pair = p ∧ r.uri = uri := by
  rw [h.mem_uris_active hp hvendor hproduct, h.mem_uris_deprecated hp hvendor hproduct,
    ← and_or_left, and_iff_left (Classical.em _)]

theorem Tracks.ascending_uris (h : s.Tracks latest) (p : Product) :
    Ordered.Ascending Ordered.textBefore (s.uris p).1 ∧
      Ordered.Ascending Ordered.textBefore (s.uris p).2 := by
  by_cases hboth : p.vendor = "" ∨ p.product = ""
  · rw [uris, if_pos hboth]
    exact ⟨Ordered.ascending_nil, Ordered.ascending_nil⟩
  · obtain ⟨hvendor, hproduct⟩ := not_or.mp hboth
    have hmembers := ascending_members h.sound.sets (Family.urisByProduct.setKey p.member)
    rw [uris_eq hvendor hproduct]
    exact ⟨hmembers.filter _, hmembers.filter _⟩

/-- However often and in whatever order the sources are refreshed, a lookup of a vendor and a
product that names have gives the URIs of the records with just this vendor and this product, in
two ascending lists without a common URI. The second list holds those that no source carries as
active, and these are the ones that count as deprecated. -/
theorem uris_of_intakes (calls : List Intake) (hsize : ∀ c ∈ calls, 1 ≤ c.batchSize) :
    ∃ s, fresh.takeInAll calls = .ok s ∧ ∀ identifier₁ identifier₂ n₁ n₂,
      Name.parse identifier₁ = .ok n₁ → Name.parse identifier₂ = .ok n₂ →
      ∃ active deprecated, s.uris ⟨n₁.word .vendor, n₂.word .product⟩ = (active, deprecated) ∧
        active.Pairwise (· < ·) ∧ deprecated.Pairwise (· < ·) ∧ active.Disjoint deprecated ∧
        (∀ uri, uri ∈ active ∨ uri ∈ deprecated ↔ ∃ r, (lastBatch calls).Brings r ∧
          r.vendor = n₁.word .vendor ∧ r.product = n₂.word .product ∧ r.uri = uri) ∧
        ∀ uri, uri ∈ active ∨ uri ∈ deprecated →
          (uri ∈ deprecated ↔ ¬∃ r, (lastBatch calls).Brings r ∧
            r.deprecated = false ∧ r.uri = uri) ∧
          (uri ∈ deprecated ↔ s.isDeprecated uri = true) := by
  obtain ⟨s, hs, _, htracks⟩ := tracks_takeInAll calls hsize
  refine ⟨s, hs, ?_⟩
  intro identifier₁ identifier₂ n₁ n₂ h₁ h₂
  let p : Product := ⟨n₁.word .vendor, n₂.word .product⟩
  have hlegible : p.IsLegible := Name.isLegible h₁ (n₂.word .product)
  have hvendor : p.vendor ≠ "" := Name.word_ne_empty h₁ .vendor
  have hproduct : p.product ≠ "" := Name.word_ne_empty h₂ .product
  have hactive := htracks.mem_uris_active hlegible hvendor hproduct
  have hdeprecated := htracks.mem_uris_deprecated hlegible hvendor hproduct
  have hlisted := htracks.mem_uris hlegible hvendor hproduct
  obtain ⟨hfirst, hsecond⟩ := htracks.ascending_uris p
  refine ⟨(s.uris p).1, (s.uris p).2, rfl, ?_, ?_, ?_, ?_, ?_⟩
  · exact hfirst.imp of_decide_eq_true
  · exact hsecond.imp of_decide_eq_true
  · intro uri hleft hright
    exact ((hdeprecated uri).mp hright).2 ((hactive uri).mp hleft).2
  · intro uri
    rw [hlisted]
    simp only [Record.pair, p, Product.mk.injEq, and_assoc]
  · intro uri huri
    obtain ⟨r, hr, hpair, rfl⟩ := (hlisted uri).mp huri
    have hsplit : r.uri ∈ (s.uris p).2 ↔ ¬(lastBatch calls).Carries r.uri := by
      rw [hdeprecated, and_iff_right ⟨r, hr, hpair, rfl⟩]
    exact ⟨hsplit, hsplit.trans (htracks.isDeprecated_iff_not_carries hr).symm⟩

def retiredVersions : Batch :=
  ⟨[], [⟨"Acme# Tool", ["cpe:/a:acme%23:tool:1.0", "cpe:/a:acme%23:tool:2.0"]⟩]⟩

def keptVersion : Batch := ⟨[⟨"Acme# Tool", ["cpe:/a:acme%23:tool:1.0"]⟩], []⟩

def disputedVersions : List Intake := [⟨.nvd, retiredVersions, 1⟩, ⟨.vuls, keptVersion, 2⟩]

theorem uris_of_intakes_disputed_versions :
    (∀ c ∈ disputedVersions, 1 ≤ c.batchSize) ∧
      (∃ n, Name.parse "cpe:/a:acme%23:tool" = .ok n) ∧
      ∃ s active deprecated, fresh.takeInAll disputedVersions = .ok s ∧
        s.uris ⟨"acme\\#", "tool"⟩ = (active, deprecated) ∧
        "cpe:/a:acme%23:tool:1.0" ∈ active ∧ "cpe:/a:acme%23:tool:2.0" ∈ deprecated ∧
        s.isDeprecated "cpe:/a:acme%23:tool:2.0" = true := by
  have hsize : ∀ c ∈ disputedVersions, 1 ≤ c.batchSize := by decide
  have hname : ∃ n, Name.parse "cpe:/a:acme%23:tool" = .ok n ∧ n.word .vendor = "acme\\#" ∧
      n.word .product = "tool" :=
    ⟨{ part := .text "a", vendor := .text "acme\\#", product := .text "tool" },
      toOption_eq_some_iff.mp (by decide +kernel), rfl, rfl⟩
  have hretired : ∀ uri ∈ ["cpe:/a:acme%23:tool:1.0", "cpe:/a:acme%23:tool:2.0"],
      ∃ r ∈ normalize .nvd retiredVersions, r.vendor = "acme\\#" ∧ r.product = "tool" ∧
        r.uri = uri := by decide +kernel
  have hkept : ∃ r ∈ normalize .vuls keptVersion, r.deprecated = false ∧
      r.uri = "cpe:/a:acme%23:tool:1.0" := by decide +kernel
  have hgone : ∀ source ∈ Source.all, ∀ b ∈ lastBatch disputedVersions source,
      ∀ r ∈ normalize source b, r.deprecated = false →
        r.uri ≠ "cpe:/a:acme%23:tool:2.0" := by decide +kernel
  obtain ⟨n, hn, hvendor, hproduct⟩ := hname
  obtain ⟨s, hs, hlookup⟩ := uris_of_intakes disputedVersions hsize
  obtain ⟨active, deprecated, huris, _, _, _, hlisted, hsplit⟩ := hlookup _ _ n n hn hn
  rw [hvendor, hproduct] at huris hlisted
  have hboth : ∀ uri ∈ ["cpe:/a:acme%23:tool:1.0", "cpe:/a:acme%23:tool:2.0"],
      uri ∈ active ∨ uri ∈ deprecated := by
    intro uri huri
    obtain ⟨r, hr, hrecord⟩ := hretired uri huri
    exact (hlisted uri).mpr ⟨r, ⟨.nvd, retiredVersions, rfl, hr⟩, hrecord⟩
  have hfirst := hboth "cpe:/a:acme%23:tool:1.0" (by simp)
  have hsecond := hboth "cpe:/a:acme%23:tool:2.0" (by simp)
  have hactive : "cpe:/a:acme%23:tool:1.0" ∈ active := by
    apply hfirst.resolve_right
    rw [(hsplit _ hfirst).1, not_not]
    obtain ⟨r, hr, hcarried⟩ := hkept
    exact ⟨r, ⟨.vuls, keptVersion, rfl, hr⟩, hcarried⟩
  have hdeprecated : "cpe:/a:acme%23:tool:2.0" ∈ deprecated := by
    rw [(hsplit _ hsecond).1]
    intro hcarried
    obtain ⟨r, ⟨source, b, hb, hr⟩, hcarries, huri⟩ := hcarried
    exact hgone source (Source.mem_all source) b hb r hr hcarries huri
  exact ⟨hsize, ⟨n, hn⟩, s, active, deprecated, hs, huris, hactive, hdeprecated,
    (hsplit _ hsecond).2.mp hdeprecated⟩

end KeyValueStore

end PlatformCatalog
