import PlatformCatalog.Proofs.Lookups

/-!
# Looking up a product by its form

The relational store takes vendor and product of a lookup for patterns, so it
finds the records of every product that has the form of the one asked for.
The key-value store finds the records of just that product. The answers are
the same as long as nothing but the product itself is found by its form.
-/

set_option autoImplicit false

namespace PlatformCatalog

namespace Pattern

theorem mem_suffixes_self {α : Type} (xs : List α) : xs ∈ suffixes xs := by
  cases xs <;> simp [suffixes]

theorem covers_self (cs : List Char) : covers cs cs = true := by
  induction cs with
  | nil => rfl
  | cons c rest ih =>
    rw [covers]
    by_cases hc : c = '%'
    · -- The percent sign stands for itself and leaves the rest to the rest.
      have hrest : rest ∈ suffixes (c :: rest) := by simp [suffixes, mem_suffixes_self]
      rw [if_pos hc]
      exact List.any_eq_true.mpr ⟨rest, hrest, ih⟩
    · simp [hc, ih]

theorem isLike_self (s : String) : isLike s s = true := covers_self (visible s)

end Pattern

/-- Whether another product has the form of this one, its vendor and product read as patterns. -/
def Product.covers (p q : Product) : Bool :=
  Pattern.isLike p.vendor q.vendor && Pattern.isLike p.product q.product

theorem Product.covers_self (p : Product) : p.covers p = true := by
  rw [covers, Pattern.isLike_self, Pattern.isLike_self]
  rfl

namespace RelationalStore

variable {s : RelationalStore} {latest : Latest} {p : Product}

theorem uris_eq (hvendor : p.vendor ≠ "") (hproduct : p.product ≠ "") :
    s.uris p = (distinct ((s.active.filter fun r => p.covers r.pair).map Record.uri),
      distinct ((s.retired.filter fun d =>
        p.covers d.pair && !s.active.any fun a => a.uri = d.uri).map Record.uri)) := by
  have hboth : ¬(p.vendor = "" ∨ p.product = "") := not_or.mpr ⟨hvendor, hproduct⟩
  rw [uris, if_neg hboth]
  rfl

theorem mem_distinct {uri : String} {uris : List String} : uri ∈ distinct uris ↔ uri ∈ uris :=
  Ordered.mem_ofList Ordered.textBefore_strict uris uri

theorem Tracks.any_active_iff (h : s.Tracks latest) (uri : String) :
    (s.active.any fun a => a.uri = uri) = true ↔ latest.Carries uri := by
  simp [List.any_eq_true, mem_active, h.records, and_assoc, Latest.Carries]

theorem Tracks.mem_uris_active (h : s.Tracks latest) (hvendor : p.vendor ≠ "")
    (hproduct : p.product ≠ "") (uri : String) :
    uri ∈ (s.uris p).1 ↔
      ∃ r, latest.Brings r ∧ r.deprecated = false ∧ p.covers r.pair = true ∧ r.uri = uri := by
  rw [uris_eq hvendor hproduct, mem_distinct]
  simp only [List.mem_map, List.mem_filter, mem_active, h.records, and_assoc]

theorem Tracks.mem_uris_deprecated (h : s.Tracks latest) (hvendor : p.vendor ≠ "")
    (hproduct : p.product ≠ "") (uri : String) :
    uri ∈ (s.uris p).2 ↔
      (∃ r, latest.Brings r ∧ r.deprecated = true ∧ p.covers r.pair = true ∧ r.uri = uri) ∧
        ¬latest.Carries uri := by
  rw [uris_eq hvendor hproduct, mem_distinct]
  simp only [List.mem_map, List.mem_filter, mem_retired, h.records, Bool.and_eq_true,
    Bool.not_eq_true', ← Bool.not_eq_true, h.any_active_iff]
  constructor
  · intro hr
    obtain ⟨r, ⟨⟨hr, hdeprecated⟩, hcovers, hnone⟩, rfl⟩ := hr
    exact ⟨⟨r, hr, hdeprecated, hcovers, rfl⟩, hnone⟩
  · intro hr
    obtain ⟨⟨r, hr, hdeprecated, hcovers, rfl⟩, hnone⟩ := hr
    exact ⟨r, ⟨⟨hr, hdeprecated⟩, hcovers, hnone⟩, rfl⟩

theorem ascending_uris (s : RelationalStore) (p : Product) :
    Ordered.Ascending Ordered.textBefore (s.uris p).1 ∧
      Ordered.Ascending Ordered.textBefore (s.uris p).2 := by
  by_cases hboth : p.vendor = "" ∨ p.product = ""
  · rw [uris, if_pos hboth]
    exact ⟨Ordered.ascending_nil, Ordered.ascending_nil⟩
  · rw [uris, if_neg hboth]
    exact ⟨Ordered.ascending_ofList Ordered.textBefore_strict _,
      Ordered.ascending_ofList Ordered.textBefore_strict _⟩

end RelationalStore

theorem Latest.Brings.pair_parts {latest : Latest} {r : Record} (h : latest.Brings r) :
    r.pair.IsLegible ∧ r.pair.vendor ≠ "" ∧ r.pair.product ≠ "" := by
  refine ⟨h.ofMember?_pair, ?_⟩
  obtain ⟨_, _, _, hr⟩ := h
  obtain ⟨_, _, n, _, hn, rfl⟩ := exists_parse_of_mem_normalize hr
  exact ⟨Name.word_ne_empty hn .vendor, Name.word_ne_empty hn .product⟩

/-- What is found by the form of the product is a URI of the product. -/
def Latest.FindsNoOther (latest : Latest) (p : Product) : Prop :=
  ∀ r, latest.Brings r → p.covers r.pair = true → r.deprecated = false ∨ ¬latest.Carries r.uri →
    ∃ q, latest.Brings q ∧ q.pair = p ∧ q.uri = r.uri

/-- What is active of the URIs of the product is found by its form as active. -/
def Latest.FindsActive (latest : Latest) (p : Product) : Prop :=
  ∀ q, latest.Brings q → q.pair = p → latest.Carries q.uri →
    ∃ r, latest.Brings r ∧ r.deprecated = false ∧ p.covers r.pair = true ∧ r.uri = q.uri

theorem lookup_eq_iff {s : RelationalStore} {t : KeyValueStore} {latest : Latest} {p : Product}
    (hs : s.Tracks latest) (ht : t.Tracks latest) (hp : p.IsLegible) (hvendor : p.vendor ≠ "")
    (hproduct : p.product ≠ "") :
    s.uris p = t.uris p ↔ latest.FindsNoOther p ∧ latest.FindsActive p := by
  have hsactive := hs.mem_uris_active hvendor hproduct
  have hsdeprecated := hs.mem_uris_deprecated hvendor hproduct
  have htactive := ht.mem_uris_active hp hvendor hproduct
  have htdeprecated := ht.mem_uris_deprecated hp hvendor hproduct
  constructor
  · intro h
    rw [h] at hsactive hsdeprecated
    constructor
    · intro r hr hcovers hfound
      by_cases hcarried : latest.Carries r.uri
      · have hactive := hfound.resolve_right (not_not.mpr hcarried)
        exact ((htactive r.uri).mp ((hsactive r.uri).mpr ⟨r, hr, hactive, hcovers, rfl⟩)).1
      · have hdeprecated : r.deprecated = true := by
          by_contra hactive
          exact hcarried ⟨r, hr, by simpa using hactive, rfl⟩
        exact ((htdeprecated r.uri).mp
          ((hsdeprecated r.uri).mpr ⟨⟨r, hr, hdeprecated, hcovers, rfl⟩, hcarried⟩)).1
    · intro q hq hpair hcarried
      exact (hsactive q.uri).mp ((htactive q.uri).mpr ⟨⟨q, hq, hpair, rfl⟩, hcarried⟩)
  · intro h
    obtain ⟨hnone, hactive⟩ := h
    obtain ⟨hsfirst, hssecond⟩ := s.ascending_uris p
    obtain ⟨htfirst, htsecond⟩ := ht.ascending_uris p
    apply Prod.ext
    · apply hsfirst.ext Ordered.textBefore_strict htfirst
      intro uri
      rw [hsactive, htactive]
      constructor
      · intro hr
        obtain ⟨r, hr, hfresh, hcovers, rfl⟩ := hr
        exact ⟨hnone r hr hcovers (Or.inl hfresh), r, hr, hfresh, rfl⟩
      · intro hq
        obtain ⟨⟨q, hq, hpair, rfl⟩, hcarried⟩ := hq
        exact hactive q hq hpair hcarried
    · apply hssecond.ext Ordered.textBefore_strict htsecond
      intro uri
      rw [hsdeprecated, htdeprecated]
      apply and_congr_left
      intro hcarried
      constructor
      · intro hr
        obtain ⟨r, hr, _, hcovers, rfl⟩ := hr
        exact hnone r hr hcovers (Or.inr hcarried)
      · intro hq
        obtain ⟨q, hq, rfl, rfl⟩ := hq
        have hdeprecated : q.deprecated = true := by
          by_contra hfresh
          exact hcarried ⟨q, hq, by simpa using hfresh, rfl⟩
        exact ⟨q, hq, hdeprecated, q.pair.covers_self, rfl⟩

/-- Two stores just made, one of either kind, are given the same calls, and both are asked for a
product that they list. The key-value store finds the URIs of just this product, the relational
store those of the products that have its form. The answers are the same if and only if the URIs
found by the form are URIs of the product, and the form finds its active URIs as active. So they
are the same as long as no other product has the form and no other one shares a URI. -/
theorem lookups_agree_iff (calls : List Call) :
    ∃ s t answers others latest, (Store.fresh .relational).serveAll calls = (s, answers) ∧
      (Store.fresh .keyValue).serveAll calls = (t, others) ∧
      latest = Latest.none.afterAll calls answers ∧ s.products = t.products ∧
      ∀ p, p ∈ s.products.1 ∨ p ∈ s.products.2 →
        (∀ uri, uri ∈ (t.uris p).1 ↔
          (∃ r, latest.Brings r ∧ r.pair = p ∧ r.uri = uri) ∧ latest.Carries uri) ∧
        (∀ uri, uri ∈ (t.uris p).2 ↔
          (∃ r, latest.Brings r ∧ r.pair = p ∧ r.uri = uri) ∧ ¬latest.Carries uri) ∧
        (∀ uri, uri ∈ (s.uris p).1 ↔
          ∃ r, latest.Brings r ∧ r.deprecated = false ∧ p.covers r.pair = true ∧ r.uri = uri) ∧
        (∀ uri, uri ∈ (s.uris p).2 ↔
          (∃ r, latest.Brings r ∧ r.deprecated = true ∧ p.covers r.pair = true ∧ r.uri = uri) ∧
            ¬latest.Carries uri) ∧
        (s.uris p = t.uris p ↔ latest.FindsNoOther p ∧ latest.FindsActive p) ∧
        ((∀ r, latest.Brings r → p.covers r.pair = true → r.pair = p) →
          (∀ q r, latest.Brings q → latest.Brings r → q.uri = r.uri → q.pair = r.pair) →
            s.uris p = t.uris p) := by
  obtain ⟨r, k, answers, others, hr, hk, _, hagree⟩ := Agree.begin.serveAll calls
  have hs := hagree.relational
  have ht := hagree.keyValue
  refine ⟨.relational r, .keyValue k, answers, others, _, hr, hk, rfl,
    hs.answers.products_eq ht.answers, ?_⟩
  intro p hlisted
  have hrecord : ∃ q, (Latest.none.afterAll calls answers).Brings q ∧ q.pair = p := by
    rcases hlisted with h | h
    · obtain ⟨q, hq, _, hpair⟩ := (hs.answers.active p).mp h
      exact ⟨q, hq, hpair⟩
    · obtain ⟨q, hq, _, hpair⟩ := ((hs.answers.deprecated p).mp h).1
      exact ⟨q, hq, hpair⟩
  obtain ⟨q, hq, rfl⟩ := hrecord
  obtain ⟨hlegible, hvendor, hproduct⟩ := hq.pair_parts
  have hiff := lookup_eq_iff hs ht hlegible hvendor hproduct
  refine ⟨ht.mem_uris_active hlegible hvendor hproduct,
    ht.mem_uris_deprecated hlegible hvendor hproduct, hs.mem_uris_active hvendor hproduct,
    hs.mem_uris_deprecated hvendor hproduct, hiff, ?_⟩
  intro halone hshared
  apply hiff.mpr
  constructor
  · intro a ha hcovers _
    exact ⟨a, ha, halone a ha hcovers, rfl⟩
  · intro a ha hpair hcarried
    obtain ⟨c, hc, hactive, huri⟩ := hcarried
    have hcovers : q.pair.covers c.pair = true := by
      rw [hshared c a hc ha huri, hpair]
      exact q.pair.covers_self
    exact ⟨c, hc, hactive, hcovers, huri⟩

def alikeVendors : Batch :=
  ⟨[⟨"Tool", ["cpe:/a:big_co:tool:1.0", "cpe:/a:bigxco:tool:1.0"]⟩], []⟩

def alikeCalls : List Call := [.takeIn ⟨.nvd, alikeVendors, 1⟩]

theorem answers_alikeCalls {s : Store} {answers : List (Except StoreError Nat)}
    (h : (Store.fresh .relational).serveAll alikeCalls = (s, answers)) : answers = [.ok 2] := by
  have hanswers : ((Store.fresh .relational).serveAll alikeCalls).2 = [.ok 2] := by
    decide +kernel
  rw [h] at hanswers
  exact hanswers

theorem brings_alikeCalls (r : Record) :
    (Latest.none.afterAll alikeCalls [.ok 2]).Brings r ↔ r ∈ normalize .nvd alikeVendors := by
  have hput := Latest.brings_put Latest.none .nvd alikeVendors r
  rwa [or_iff_right (fun h => Latest.not_brings_none r h.1)] at hput

theorem lookups_agree_alike_vendors :
    ∃ s t answers others, (Store.fresh .relational).serveAll alikeCalls = (s, answers) ∧
      (Store.fresh .keyValue).serveAll alikeCalls = (t, others) ∧
      ⟨"bigxco", "tool"⟩ ∈ s.products.1 ∧
      s.uris ⟨"bigxco", "tool"⟩ = t.uris ⟨"bigxco", "tool"⟩ := by
  obtain ⟨s, t, answers, others, latest, hs, ht, rfl, _, hlookup⟩ := lookups_agree_iff alikeCalls
  obtain rfl := answers_alikeCalls hs
  have hlisted : ⟨"bigxco", "tool"⟩ ∈ s.products.1 := by
    have hfirst : ⟨"bigxco", "tool"⟩ ∈
        ((Store.fresh .relational).serveAll alikeCalls).1.products.1 := by decide +kernel
    rwa [hs] at hfirst
  have halone : ∀ r ∈ normalize .nvd alikeVendors,
      Product.covers ⟨"bigxco", "tool"⟩ r.pair = true → r.pair = ⟨"bigxco", "tool"⟩ := by
    decide +kernel
  have hshared : ∀ q ∈ normalize .nvd alikeVendors, ∀ r ∈ normalize .nvd alikeVendors,
      q.uri = r.uri → q.pair = r.pair := by decide +kernel
  obtain ⟨_, _, _, _, _, hequal⟩ := hlookup ⟨"bigxco", "tool"⟩ (Or.inl hlisted)
  simp only [brings_alikeCalls] at hequal
  exact ⟨s, t, _, others, hs, ht, hlisted,
    hequal halone fun q r hq hr => hshared q hq r hr⟩

/-- A product that a store lists is not found alike in stores of both kinds: the underscore of
its vendor stands for any character in one of them. -/
theorem not_lookups_agree :
    ¬∀ s t answers others, (Store.fresh .relational).serveAll alikeCalls = (s, answers) →
      (Store.fresh .keyValue).serveAll alikeCalls = (t, others) →
      ∀ p, p ∈ s.products.1 ∨ p ∈ s.products.2 → s.uris p = t.uris p := by
  intro h
  obtain ⟨r, k, answers, others, hr, hk, _, hagree⟩ := Agree.begin.serveAll alikeCalls
  obtain rfl := answers_alikeCalls hr
  have hs := hagree.relational
  have ht := hagree.keyValue
  have hlisted : ∃ q ∈ normalize .nvd alikeVendors, q.deprecated = false ∧
      q.pair = ⟨"big_co", "tool"⟩ := by decide +kernel
  have hfound : ∃ q ∈ normalize .nvd alikeVendors, q.deprecated = false ∧
      Product.covers ⟨"big_co", "tool"⟩ q.pair = true ∧
        ∀ a ∈ normalize .nvd alikeVendors, a.pair = ⟨"big_co", "tool"⟩ → a.uri ≠ q.uri := by
    decide +kernel
  obtain ⟨q, hq, hactive, hpair⟩ := hlisted
  have hbrings := (brings_alikeCalls q).mpr hq
  obtain ⟨hlegible, hvendor, hproduct⟩ := hbrings.pair_parts
  rw [hpair] at hlegible hvendor hproduct
  have hequal := h _ _ _ _ hr hk ⟨"big_co", "tool"⟩
    (Or.inl ((hs.answers.active _).mpr ⟨q, hbrings, hactive, hpair⟩))
  have hnone := ((lookup_eq_iff hs ht hlegible hvendor hproduct).mp hequal).1
  obtain ⟨other, hother, hotherActive, hcovers, honly⟩ := hfound
  obtain ⟨a, ha, haPair, haUri⟩ :=
    hnone other ((brings_alikeCalls other).mpr hother) hcovers (Or.inl hotherActive)
  exact honly a ((brings_alikeCalls a).mp ha) haPair haUri

end PlatformCatalog
