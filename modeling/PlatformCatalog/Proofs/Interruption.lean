import PlatformCatalog.Proofs.History

/-!
# Insertions that are broken off

An insertion that breaks off between two commits has added some chunks and
perhaps removed some, but its manifest is not recorded. The next insertion of
the same source therefore plans as if nothing had happened. It does not know
of items that the broken one added and that no manifest held, and leaves them
behind unless its own batch contributes them.
-/

set_option autoImplicit false

namespace PlatformCatalog.KeyValueStore

variable {s : KeyValueStore} {source : Source} {b : Batch} {batchSize k : Nat}
  {commits : List Commit}

theorem mem_flatten_take {α : Type} {xss : List (List α)} {n : Nat} {x : α}
    (h : x ∈ (xss.take n).flatten) : x ∈ xss.flatten := by
  obtain ⟨xs, hxs, hx⟩ := List.mem_flatten.mp h
  exact List.mem_flatten.mpr ⟨xs, List.mem_of_mem_take hxs, hx⟩

theorem take_insertion (h : s.insertion source b batchSize = .ok commits)
    (hk : k < commits.length) :
    ∃ additions removals : List (List (Family × Item)),
      commits.take k = additions.map .add ++ removals.map .remove ∧
      (∀ e ∈ additions.flatten, e ∈ contribution source b) ∧
      ∀ e ∈ removals.flatten, s.Stale source b e := by
  obtain ⟨_, _, own, siblings, hown, hsib, rfl⟩ := insertion_eq_ok_iff.mp h
  rw [plan_eq] at hk ⊢
  generalize hA : additionBatches batchSize (normalize source b) = A at hk ⊢
  generalize hR : chunks batchSize (removable own siblings (normalize source b)) = R at hk ⊢
  refine ⟨A.take k, R.take (k - A.length), ?_, ?_, ?_⟩
  · rw [List.take_append_of_le_length (by simp at hk ⊢; omega), List.take_append, List.map_take,
      List.map_take, List.length_map]
  · intro e he
    have hmem := mem_flatten_take he
    rwa [← hA, flatten_additionBatches] at hmem
  · intro e he
    have hmem := mem_flatten_take he
    rwa [← hR, flatten_chunks, mem_removable_iff_stale hown hsib] at hmem

theorem hashes_broken (h : s.insertion source b batchSize = .ok commits)
    (hk : k < commits.length) : (s.commitAll (commits.take k)).hashes = s.hashes := by
  obtain ⟨additions, removals, htake, _, _⟩ := take_insertion h hk
  rw [htake, hashes_changes]

theorem added_take_subset (h : s.insertion source b batchSize = .ok commits)
    (hk : k < commits.length) {e : Family × Item} (he : e ∈ added (commits.take k)) :
    e ∈ contribution source b := by
  obtain ⟨additions, removals, htake, hadd, _⟩ := take_insertion h hk
  rw [htake, added_append, added_map_add, added_map_remove, List.append_nil] at he
  exact hadd e he

theorem mem_sets_broken (hs : s.Sound) (h : s.insertion source b batchSize = .ok commits)
    (hk : k < commits.length) :
    ∃ gone : List (Family × Item), (∀ e ∈ gone, s.Stale source b e) ∧
      ∀ row, row ∈ (s.commitAll (commits.take k)).sets ↔ row ∉ gone.map setRow ∧
        (row ∈ (added (commits.take k)).map setRow ∨ row ∈ s.sets) := by
  obtain ⟨additions, removals, htake, _, hrem⟩ := take_insertion h hk
  refine ⟨removals.flatten, hrem, fun row => ?_⟩
  rw [htake, commitAll_append, mem_sets_commitAll_remove (ascending_commitAll_add hs.sets _),
    mem_sets_commitAll_add, added_append, added_map_add, added_map_remove, List.append_nil]

theorem Sound.broken (hs : s.Sound) (h : s.insertion source b batchSize = .ok commits) (k : Nat) :
    (s.commitAll (commits.take k)).Sound :=
  hs.commitAll fun c hc => isRegular_insertion hs h c (List.mem_of_mem_take hc)

theorem holds_of_hashes {t : KeyValueStore} (h : t.hashes = s.hashes) (u : Source)
    (e : Family × Item) : t.Holds u e ↔ s.Holds u e := by
  rw [Holds, manifest_of_hashes h, Holds]

theorem stale_of_hashes {t : KeyValueStore} (h : t.hashes = s.hashes) (source : Source)
    (b : Batch) (e : Family × Item) : t.Stale source b e ↔ s.Stale source b e := by
  simp only [Stale, holds_of_hashes h]

/-- The stores that calls lead to. A call may break off after any number of its commits. -/
inductive Reachable : KeyValueStore → Prop
  | fresh : Reachable fresh
  | stamped {s : KeyValueStore} (stamp : Stamp) : Reachable s → Reachable (s.writeStamp stamp)
  | taken {s : KeyValueStore} {source : Source} {b : Batch} {batchSize : Nat}
      {commits : List Commit} (k : Nat) : Reachable s →
      s.insertion source b batchSize = .ok commits → Reachable (s.commitAll (commits.take k))

def SharedPresent (s : KeyValueStore) : Prop :=
  ∀ t u e, t ≠ u → s.Holds t e → s.Holds u e → setRow e ∈ s.sets

theorem SharedPresent.insertion (hp : s.SharedPresent) (hs : s.Sound)
    (h : s.insertion source b batchSize = .ok commits) :
    (s.commitAll commits).SharedPresent := by
  intro t u e htu ht hu
  rw [setRow_mem_insertion hs h ((hs.insertion h).regular t e ht)]
  rw [holds_insertion h] at ht hu
  by_cases hmem : e ∈ contribution source b
  · exact ⟨Or.inl hmem, fun hstale => hstale.2.1 hmem⟩
  · have hts : t ≠ source := fun hts => hmem (by rwa [if_pos hts] at ht)
    have hus : u ≠ source := fun hus => hmem (by rwa [if_pos hus] at hu)
    rw [if_neg hts] at ht
    rw [if_neg hus] at hu
    exact ⟨Or.inr (hp t u e htu ht hu), fun hstale => hstale.2.2 t hts ht⟩

theorem SharedPresent.broken (hp : s.SharedPresent) (hs : s.Sound)
    (h : s.insertion source b batchSize = .ok commits) (hk : k < commits.length) :
    (s.commitAll (commits.take k)).SharedPresent := by
  intro t u e htu ht hu
  rw [holds_of_hashes (hashes_broken h hk)] at ht hu
  obtain ⟨gone, hgone, hrows⟩ := mem_sets_broken hs h hk
  rw [hrows]
  refine ⟨?_, Or.inr (hp t u e htu ht hu)⟩
  intro hrow
  obtain ⟨d, hd, hrow⟩ := List.mem_map.mp hrow
  have hde := setRow_injective (isRegular_of_stale hs (hgone d hd)) (hs.regular t e ht) hrow
  subst hde
  -- A stale item has one holder, and this one has two.
  have honly : ∀ v, s.Holds v d → v = source := by
    intro v hv
    by_contra hne
    exact (hgone d hd).2.2 v hne hv
  exact htu ((honly t ht).trans (honly u hu).symm)

theorem Reachable.sound_and_sharedPresent (hr : s.Reachable) : s.Sound ∧ s.SharedPresent := by
  induction hr with
  | fresh => exact ⟨sound_fresh, fun t _ e _ ht _ => absurd ht (not_holds_fresh t e)⟩
  | stamped stamp _ ih =>
    refine ⟨ih.1.writeStamp stamp, ?_⟩
    intro t u e htu ht hu
    rw [Holds, manifest_writeStamp] at ht hu
    exact ih.2 t u e htu ht hu
  | @taken _ _ _ _ commits k _ h ih =>
    refine ⟨ih.1.broken h k, ?_⟩
    by_cases hk : k < commits.length
    · exact ih.2.broken ih.1 h hk
    · rw [List.take_of_length_le (Nat.not_lt.mp hk)]
      exact ih.2.insertion ih.1 h

/-- An item that is left behind: neither the next batch nor the source's manifest has it, and it
was not in the sets before. -/
def Orphan (s : KeyValueStore) (source : Source) (next : Batch) (e : Family × Item) : Prop :=
  e ∉ contribution source next ∧ ¬s.Holds source e ∧ setRow e ∉ s.sets

theorem insertion_broken (h : s.insertion source b batchSize = .ok commits)
    (hk : k < commits.length) (u : Source) (next : Batch) (size : Nat) :
    (s.commitAll (commits.take k)).insertion u next size = s.insertion u next size :=
  insertion_of_hashes (hashes_broken h hk) u next size

section

variable (hr : s.Reachable) (h : s.insertion source b batchSize = .ok commits)
  (hk : k < commits.length) {next : Batch} {size : Nat} {after : List Commit}
  (hnext : s.insertion source next size = .ok after)

include hr h hk hnext

theorem mem_after_broken {row : String × String} (hrow : row ∈ (s.commitAll after).sets) :
    row ∈ ((s.commitAll (commits.take k)).commitAll after).sets := by
  obtain ⟨hs, _⟩ := hr.sound_and_sharedPresent
  obtain ⟨gone, hgone, hrows⟩ := mem_sets_broken hs h hk
  have hbroken := (insertion_broken h hk source next size).trans hnext
  rw [mem_sets_insertion hs hnext] at hrow
  rw [mem_sets_insertion (hs.broken h k) hbroken, hrows]
  simp only [stale_of_hashes (hashes_broken h hk)]
  obtain ⟨hrow | hold, hstale⟩ := hrow
  · exact ⟨Or.inl hrow, hstale⟩
  · by_cases hgoneRow : row ∈ gone.map setRow
    · -- What the broken insertion has removed is brought back, or it is removed anyway.
      obtain ⟨d, hd, hdrow⟩ := List.mem_map.mp hgoneRow
      have hdstale := hgone d hd
      by_cases hnew : d ∈ contribution source next
      · exact ⟨Or.inl (List.mem_map.mpr ⟨d, hnew, hdrow⟩), hstale⟩
      · exact absurd ⟨d, ⟨hdstale.1, hnew, hdstale.2.2⟩, hdrow⟩ hstale
    · exact ⟨Or.inr ⟨hgoneRow, Or.inr hold⟩, hstale⟩

theorem orphan_mem_after_broken {e : Family × Item} (he : e ∈ added (commits.take k))
    (horphan : s.Orphan source next e) :
    setRow e ∈ ((s.commitAll (commits.take k)).commitAll after).sets := by
  obtain ⟨hs, _⟩ := hr.sound_and_sharedPresent
  obtain ⟨gone, hgone, hrows⟩ := mem_sets_broken hs h hk
  have hbroken := (insertion_broken h hk source next size).trans hnext
  have hmem := added_take_subset h hk he
  have hregular := isRegular_of_mem_contribution hmem
  have hkept : setRow e ∉ gone.map setRow := by
    rw [setRow_mem_map hregular fun d hd => isRegular_of_stale hs (hgone d hd)]
    exact fun hgoneItem => (hgone e hgoneItem).2.1 hmem
  rw [setRow_mem_insertion (hs.broken h k) hbroken hregular, hrows,
    stale_of_hashes (hashes_broken h hk)]
  exact ⟨Or.inr ⟨hkept, Or.inl (List.mem_map.mpr ⟨e, he, rfl⟩)⟩, fun hstale => horphan.2.1 hstale.1⟩

theorem mem_or_orphan_of_mem_after_broken {row : String × String}
    (hrow : row ∈ ((s.commitAll (commits.take k)).commitAll after).sets) :
    row ∈ (s.commitAll after).sets ∨
      ∃ e ∈ added (commits.take k), s.Orphan source next e ∧ setRow e = row := by
  obtain ⟨hs, hshared⟩ := hr.sound_and_sharedPresent
  obtain ⟨gone, _, hrows⟩ := mem_sets_broken hs h hk
  have hbroken := (insertion_broken h hk source next size).trans hnext
  rw [mem_sets_insertion (hs.broken h k) hbroken, hrows] at hrow
  simp only [stale_of_hashes (hashes_broken h hk)] at hrow
  rw [mem_sets_insertion hs hnext]
  obtain ⟨hrow, hstale⟩ := hrow
  rcases hrow with hrow | ⟨_, hrow | hold⟩
  · exact Or.inl ⟨Or.inl hrow, hstale⟩
  · obtain ⟨e, he, rfl⟩ := List.mem_map.mp hrow
    by_cases hnew : e ∈ contribution source next
    · exact Or.inl ⟨Or.inl (List.mem_map.mpr ⟨e, hnew, rfl⟩), hstale⟩
    · by_cases hold : setRow e ∈ s.sets
      · exact Or.inl ⟨Or.inr hold, hstale⟩
      · -- The source's own item would be stale, or a sibling would keep it in the sets.
        have hforeign : ¬s.Holds source e := fun hown =>
          hstale ⟨e, ⟨hown, hnew, fun u hu hheld => hold (hshared u source e hu hheld hown)⟩, rfl⟩
        exact Or.inr ⟨e, he, ⟨hnew, hforeign, hold⟩, rfl⟩
  · exact Or.inl ⟨Or.inr hold, hstale⟩

theorem mem_sets_after_broken (row : String × String) :
    row ∈ ((s.commitAll (commits.take k)).commitAll after).sets ↔
      row ∈ (s.commitAll after).sets ∨
        ∃ e ∈ added (commits.take k), s.Orphan source next e ∧ setRow e = row := by
  constructor
  · exact mem_or_orphan_of_mem_after_broken hr h hk hnext
  · intro hrow
    rcases hrow with hrow | ⟨e, he, horphan, rfl⟩
    · exact mem_after_broken hr h hk hnext hrow
    · exact orphan_mem_after_broken hr h hk hnext he horphan

omit h hk in
theorem not_orphan_row {e : Family × Item} (he : IsRegular e)
    (horphan : s.Orphan source next e) : setRow e ∉ (s.commitAll after).sets := by
  obtain ⟨hs, _⟩ := hr.sound_and_sharedPresent
  rw [setRow_mem_insertion hs hnext he]
  intro hrow
  rcases hrow.1 with hnew | hold
  · exact horphan.1 hnew
  · exact horphan.2.2 hold

theorem sets_after_broken_eq_iff :
    ((s.commitAll (commits.take k)).commitAll after).sets = (s.commitAll after).sets ↔
      ∀ e ∈ added (commits.take k), ¬s.Orphan source next e := by
  obtain ⟨hs, _⟩ := hr.sound_and_sharedPresent
  have hbroken := (insertion_broken h hk source next size).trans hnext
  constructor
  · intro heq e he horphan
    have hregular := isRegular_of_mem_contribution (added_take_subset h hk he)
    apply not_orphan_row hr hnext hregular horphan
    rw [← heq]
    exact orphan_mem_after_broken hr h hk hnext he horphan
  · intro hnone
    apply Ordered.Ascending.ext Ordered.pairBefore_strict
    · exact ((hs.broken h k).insertion hbroken).sets
    · exact (hs.insertion hnext).sets
    · intro row
      rw [mem_sets_after_broken hr h hk hnext]
      constructor
      · intro hrow
        rcases hrow with hrow | ⟨e, he, horphan, _⟩
        · exact hrow
        · exact absurd horphan (hnone e he)
      · exact Or.inl

end

/-- After an insertion that broke off before its manifest was recorded, the next insertion of the
same source succeeds and leaves every manifest as if the broken one had never begun. The sets
are what they would have been, and besides them the orphans that were added. So nothing of the
broken insertion stays behind exactly if it added no orphans. -/
theorem insert_after_broken (hr : s.Reachable)
    (h : s.insertion source b batchSize = .ok commits) (hk : k < commits.length) (next : Batch)
    {size : Nat} (hsize : 1 ≤ size) :
    ∃ t t' n, (s.commitAll (commits.take k)).insert source next size = .ok (t, n) ∧
      s.insert source next size = .ok (t', n) ∧
      (∀ u, t.manifest u = t'.manifest u) ∧
      (∀ row, row ∈ t.sets ↔ row ∈ t'.sets ∨
        ∃ e ∈ added (commits.take k), s.Orphan source next e ∧ setRow e = row) ∧
      (t.sets = t'.sets ↔ ∀ e ∈ added (commits.take k), ¬s.Orphan source next e) := by
  obtain ⟨hcurrent, _⟩ := insertion_eq_ok_iff.mp h
  obtain ⟨after, hnext⟩ :=
    hr.sound_and_sharedPresent.1.exists_insertion hcurrent source next hsize
  have hbroken : (s.commitAll (commits.take k)).insertion source next size = .ok after := by
    rw [insertion_broken h hk, hnext]
  refine ⟨_, _, _, insert_eq_ok_iff.mpr ⟨after, hbroken, rfl, rfl⟩,
    insert_eq_ok_iff.mpr ⟨after, hnext, rfl, rfl⟩, fun u => ?_,
    mem_sets_after_broken hr h hk hnext, sets_after_broken_eq_iff hr h hk hnext⟩
  rw [manifest_insertion hbroken, manifest_insertion hnext,
    manifest_of_hashes (hashes_broken h hk)]

theorem one_lt_length_firstCommits : 1 < firstCommits.length := by decide +kernel

theorem singleUri_mem_added : singleUri ∈ added (firstCommits.take 1) := by decide +kernel

theorem orphan_singleUri : fresh.Orphan .nvd {} singleUri :=
  ⟨List.not_mem_nil, not_holds_fresh .nvd singleUri, List.not_mem_nil⟩

theorem insert_after_broken_orphan :
    fresh.Reachable ∧ fresh.insertion .nvd singleProduct 1 = .ok firstCommits ∧
      1 < firstCommits.length ∧ 1 ≤ 1 ∧
      ∃ t t' n, (fresh.commitAll (firstCommits.take 1)).insert .nvd {} 1 = .ok (t, n) ∧
        fresh.insert .nvd {} 1 = .ok (t', n) ∧ setRow singleUri ∈ t.sets := by
  obtain ⟨t, t', n, ht, ht', _, hrows, _⟩ :=
    insert_after_broken Reachable.fresh insertion_first one_lt_length_firstCommits {} (le_refl 1)
  refine ⟨Reachable.fresh, insertion_first, one_lt_length_firstCommits, le_refl 1,
    t, t', n, ht, ht', (hrows _).mpr (Or.inr ?_)⟩
  exact ⟨singleUri, singleUri_mem_added, orphan_singleUri, rfl⟩

/-- It is not so that the next insertion always undoes what a broken one has left. -/
theorem not_insert_undoes_broken :
    ¬∀ (s : KeyValueStore) (source : Source) (b next : Batch) (batchSize size k n n' : Nat)
      (commits : List Commit) (t t' : KeyValueStore), s.Reachable →
      s.insertion source b batchSize = .ok commits → k < commits.length →
      (s.commitAll (commits.take k)).insert source next size = .ok (t, n) →
      s.insert source next size = .ok (t', n') →
      t.sets = t'.sets ∧ ∀ u, t.manifest u = t'.manifest u := by
  intro hall
  obtain ⟨after, hnext⟩ :=
    sound_fresh.exists_insertion current_fresh .nvd {} (le_refl 1)
  have hbroken : (fresh.commitAll (firstCommits.take 1)).insertion .nvd {} 1 = .ok after := by
    rw [insertion_broken insertion_first one_lt_length_firstCommits, hnext]
  have hsame := (hall fresh .nvd singleProduct {} 1 1 1 _ _ firstCommits _ _ Reachable.fresh
    insertion_first one_lt_length_firstCommits
    (insert_eq_ok_iff.mpr ⟨after, hbroken, rfl, rfl⟩)
    (insert_eq_ok_iff.mpr ⟨after, hnext, rfl, rfl⟩)).1
  exact (sets_after_broken_eq_iff Reachable.fresh insertion_first one_lt_length_firstCommits
    hnext).mp hsame singleUri singleUri_mem_added orphan_singleUri

end PlatformCatalog.KeyValueStore
