import PlatformCatalog.Proofs.Commits

/-!
# What an insertion changes

An insertion adds what the batch contributes, removes what only the source's
last batch contributed, and records the contribution in the source's
manifest. If the sets held what the manifests hold, they do so again.
-/

set_option autoImplicit false

namespace PlatformCatalog

/-- What a batch of a source contributes to the index. -/
def contribution (source : Source) (b : Batch) : List (Family × Item) :=
  (normalize source b).flatMap Record.items

theorem isRegular_of_mem_contribution {source : Source} {b : Batch} {e : Family × Item}
    (h : e ∈ contribution source b) : IsRegular e := by
  obtain ⟨r, _, he⟩ := List.mem_flatMap.mp h
  exact Record.isRegular_of_mem_items he

def Stamp.gate (stamp : Except StoreError Stamp) (batchSize : Nat) : Except StoreError Unit := do
  let stamp ← stamp
  stamp.checkSchema
  Stamp.checkBatchSize batchSize

theorem Stamp.gate_eq_ok_iff {stamp : Except StoreError Stamp} {batchSize : Nat} :
    Stamp.gate stamp batchSize = .ok () ↔
      (∃ found, stamp = .ok found ∧ found.isOutdated = false) ∧ 1 ≤ batchSize := by
  rw [Stamp.gate]
  cases stamp with
  | error e => simp [bind, Except.bind]
  | ok stamp =>
    by_cases hout : stamp.isOutdated = true
    · simp [bind, Except.bind, Stamp.checkSchema, hout]
    · by_cases hsize : batchSize < 1
      · have hnot : ¬1 ≤ batchSize := by omega
        simp [bind, Except.bind, Stamp.checkSchema, hout, Stamp.checkBatchSize, hsize]
      · have hone : 1 ≤ batchSize := by omega
        simp [bind, Except.bind, Stamp.checkSchema, hout, Stamp.checkBatchSize, hsize, hone]

namespace KeyValueStore

variable {s : KeyValueStore} {source : Source} {b : Batch} {batchSize : Nat}
  {commits : List Commit}

def Current (s : KeyValueStore) : Prop := ∃ stamp, s.stamp = .ok stamp ∧ stamp.isOutdated = false

def additionBatches (batchSize : Nat) (records : List Record) : List (List (Family × Item)) :=
  (chunks batchSize records).map fun c => c.flatMap Record.items

theorem flatten_additionBatches (batchSize : Nat) (records : List Record) :
    (additionBatches batchSize records).flatten = records.flatMap Record.items := by
  calc (additionBatches batchSize records).flatten
      = (chunks batchSize records).flatMap fun c => (id c).flatMap Record.items :=
        List.flatMap_def.symm
    _ = (chunks batchSize records).flatten.flatMap Record.items := by
        rw [← List.flatMap_assoc, List.flatMap_id]
    _ = records.flatMap Record.items := by rw [flatten_chunks]

theorem plan_eq (source : Source) (own siblings : Manifest) (records : List Record)
    (batchSize : Nat) :
    plan source own siblings records batchSize =
      ((additionBatches batchSize records).map .add ++
        (chunks batchSize (removable own siblings records)).map .remove) ++
      [.record source (.ofItems (records.flatMap Record.items))] := by
  simp [plan, additionBatches]

theorem added_plan (source : Source) (own siblings : Manifest) (b : Batch) (batchSize : Nat) :
    added (plan source own siblings (normalize source b) batchSize) = contribution source b := by
  rw [plan_eq, added_append, added_append, added_map_add, added_map_remove,
    flatten_additionBatches, ← contribution]
  simp [added, Commit.added]

theorem removed_plan (source : Source) (own siblings : Manifest) (b : Batch) (batchSize : Nat) :
    removed (plan source own siblings (normalize source b) batchSize) =
      removable own siblings (normalize source b) := by
  rw [plan_eq, removed_append, removed_append, removed_map_add, removed_map_remove,
    flatten_chunks]
  simp [removed, Commit.removed]

theorem mem_removable {own : Manifest} (ho : own.InOrder) (siblings : Manifest)
    (records : List Record) (e : Family × Item) :
    e ∈ removable own siblings records ↔
      e ∈ own.items ∧ e ∉ records.flatMap Record.items ∧ e ∉ siblings.items := by
  rw [removable, Manifest.mem_items_difference, Manifest.mem_items_eraseAll ho]
  tauto

theorem manifests_cons_eq_ok_iff {u : Source} {rest : List Source} {m : Manifest} :
    s.manifests (u :: rest) = .ok m ↔ ∃ own others, s.manifest u = .ok own ∧
      s.manifests rest = .ok others ∧ own.merge others = m := by
  rw [manifests]
  cases s.manifest u with
  | error e => simp [bind, Except.bind]
  | ok own =>
    cases s.manifests rest with
    | error e => simp [bind, Except.bind]
    | ok others => simp [bind, Except.bind, pure, Except.pure]

theorem mem_items_manifests {sources : List Source} {m : Manifest}
    (h : s.manifests sources = .ok m) (e : Family × Item) :
    e ∈ m.items ↔ ∃ u ∈ sources, s.Holds u e := by
  induction sources generalizing m with
  | nil =>
    rw [← Except.ok.inj h]
    simp [Manifest.items_empty]
  | cons u rest ih =>
    obtain ⟨own, others, hu, hrest, rfl⟩ := manifests_cons_eq_ok_iff.mp h
    rw [Manifest.mem_items_merge, ih hrest, ← holds_iff hu, List.exists_mem_cons_iff, or_comm]

theorem Sound.manifests (hs : s.Sound) (sources : List Source) :
    ∃ m, s.manifests sources = .ok m := by
  induction sources with
  | nil => exact ⟨_, rfl⟩
  | cons u rest ih =>
    obtain ⟨own, hu⟩ := hs.readable u
    obtain ⟨others, hrest⟩ := ih
    exact ⟨own.merge others, manifests_cons_eq_ok_iff.mpr ⟨own, others, hu, hrest, rfl⟩⟩

theorem gate_eq_ok_iff : Stamp.gate s.stamp batchSize = .ok () ↔ s.Current ∧ 1 ≤ batchSize :=
  Stamp.gate_eq_ok_iff

theorem insertion_eq (s : KeyValueStore) (source : Source) (b : Batch) (batchSize : Nat) :
    s.insertion source b batchSize = (Stamp.gate s.stamp batchSize).bind fun _ => do
      let own ← s.manifest source
      let siblings ← s.manifests source.siblings
      return plan source own siblings (normalize source b) batchSize := by
  rw [insertion, Stamp.gate]
  cases s.stamp with
  | error e => rfl
  | ok stamp =>
    cases hschema : stamp.checkSchema with
    | error e => simp [bind, Except.bind, hschema]
    | ok u => cases Stamp.checkBatchSize batchSize <;> simp [bind, Except.bind, hschema]

theorem Sound.exists_insertion_eq (hs : s.Sound) (source : Source) (b : Batch) (batchSize : Nat) :
    ∃ commits, s.insertion source b batchSize =
      (Stamp.gate s.stamp batchSize).map fun _ => commits := by
  obtain ⟨own, hown⟩ := hs.readable source
  obtain ⟨siblings, hsib⟩ := hs.manifests source.siblings
  exists plan source own siblings (normalize source b) batchSize
  rw [insertion_eq, hown, hsib]
  cases Stamp.gate s.stamp batchSize <;> rfl

theorem insertion_eq_ok_iff :
    s.insertion source b batchSize = .ok commits ↔
      s.Current ∧ 1 ≤ batchSize ∧ ∃ own siblings, s.manifest source = .ok own ∧
        s.manifests source.siblings = .ok siblings ∧
        commits = plan source own siblings (normalize source b) batchSize := by
  rw [insertion_eq, ← and_assoc, ← gate_eq_ok_iff]
  cases Stamp.gate s.stamp batchSize with
  | error e => simp [Except.bind]
  | ok u =>
    cases s.manifest source with
    | error e => simp [bind, Except.bind]
    | ok own =>
      cases s.manifests source.siblings with
      | error e => simp [bind, Except.bind]
      | ok siblings => simp [bind, Except.bind, pure, Except.pure, eq_comm]

theorem insert_eq_ok_iff {t : KeyValueStore} {n : Nat} :
    s.insert source b batchSize = .ok (t, n) ↔
      ∃ commits, s.insertion source b batchSize = .ok commits ∧ t = s.commitAll commits ∧
        n = (normalize source b).length := by
  rw [insert]
  cases h : s.insertion source b batchSize with
  | error _ => simp [bind, Except.bind]
  | ok commits => simp [bind, Except.bind, pure, Except.pure, eq_comm]

/-- An item that only the source's last batch contributed, and which the next one leaves out. -/
def Stale (s : KeyValueStore) (source : Source) (b : Batch) (e : Family × Item) : Prop :=
  s.Holds source e ∧ e ∉ contribution source b ∧ ∀ u, u ≠ source → ¬s.Holds u e

theorem mem_removable_iff_stale {own siblings : Manifest} (hown : s.manifest source = .ok own)
    (hsib : s.manifests source.siblings = .ok siblings) (e : Family × Item) :
    e ∈ removable own siblings (normalize source b) ↔ s.Stale source b e := by
  rw [mem_removable (manifest_inOrder hown), ← holds_iff hown, mem_items_manifests hsib, Stale,
    contribution]
  simp [Source.mem_siblings]

theorem isRegular_of_stale (hs : s.Sound) {e : Family × Item} (he : s.Stale source b e) :
    IsRegular e :=
  hs.regular source e he.1

theorem mem_sets_changes (hs : s.Sound) {own siblings : Manifest}
    (hown : s.manifest source = .ok own) (hsib : s.manifests source.siblings = .ok siblings)
    (row : String × String) :
    row ∈ (s.commitAll ((additionBatches batchSize (normalize source b)).map .add ++
        (chunks batchSize (removable own siblings (normalize source b))).map .remove)).sets ↔
      (row ∈ (contribution source b).map setRow ∨ row ∈ s.sets) ∧
        ¬∃ e, s.Stale source b e ∧ setRow e = row := by
  have hstale : row ∈ (removable own siblings (normalize source b)).map setRow ↔
      ∃ e, s.Stale source b e ∧ setRow e = row := by
    simp only [List.mem_map, mem_removable_iff_stale hown hsib]
  rw [commitAll_append, mem_sets_commitAll_remove (ascending_commitAll_add hs.sets _),
    mem_sets_commitAll_add, flatten_chunks, flatten_additionBatches, hstale, ← contribution]
  exact and_comm

theorem mem_sets_insertion (hs : s.Sound) (h : s.insertion source b batchSize = .ok commits)
    (row : String × String) :
    row ∈ (s.commitAll commits).sets ↔
      (row ∈ (contribution source b).map setRow ∨ row ∈ s.sets) ∧
        ¬∃ e, s.Stale source b e ∧ setRow e = row := by
  obtain ⟨_, _, own, siblings, hown, hsib, rfl⟩ := insertion_eq_ok_iff.mp h
  rw [plan_eq, commitAll_append]
  exact mem_sets_changes hs hown hsib row

theorem exists_stale_row_iff (hs : s.Sound) {e : Family × Item} (he : IsRegular e) :
    (∃ d, s.Stale source b d ∧ setRow d = setRow e) ↔ s.Stale source b e := by
  constructor
  · intro h
    obtain ⟨d, hd, hrow⟩ := h
    exact setRow_injective (isRegular_of_stale hs hd) he hrow ▸ hd
  · exact fun h => ⟨e, h, rfl⟩

/-- What an insertion does to the row of an item. -/
theorem setRow_mem_insertion (hs : s.Sound) (h : s.insertion source b batchSize = .ok commits)
    {e : Family × Item} (he : IsRegular e) :
    setRow e ∈ (s.commitAll commits).sets ↔
      (e ∈ contribution source b ∨ setRow e ∈ s.sets) ∧ ¬s.Stale source b e := by
  rw [mem_sets_insertion hs h, exists_stale_row_iff hs he,
    setRow_mem_map he fun d hd => isRegular_of_mem_contribution hd]

theorem hashes_changes (s : KeyValueStore) (additions removals : List (List (Family × Item))) :
    (s.commitAll (additions.map .add ++ removals.map .remove)).hashes = s.hashes := by
  rw [commitAll_append, hashes_commitAll_remove, hashes_commitAll_add]

theorem manifest_insertion (h : s.insertion source b batchSize = .ok commits) (u : Source) :
    (s.commitAll commits).manifest u =
      if u = source then .ok (.ofItems (contribution source b)) else s.manifest u := by
  obtain ⟨_, _, own, siblings, _, _, rfl⟩ := insertion_eq_ok_iff.mp h
  rw [plan_eq, commitAll_append]
  exact (manifest_record _ (Manifest.inOrder_ofItems _) u).trans
    (by rw [contribution, manifest_of_hashes (hashes_changes s _ _)])

theorem stamp_insertion (h : s.insertion source b batchSize = .ok commits) :
    (s.commitAll commits).stamp = s.stamp := by
  obtain ⟨_, _, own, siblings, _, _, rfl⟩ := insertion_eq_ok_iff.mp h
  rw [plan_eq, commitAll_append]
  exact (stamp_record _ _).trans (stamp_of_hashes (hashes_changes s _ _))

theorem holds_insertion (h : s.insertion source b batchSize = .ok commits) (u : Source)
    (e : Family × Item) :
    (s.commitAll commits).Holds u e ↔
      if u = source then e ∈ contribution source b else s.Holds u e := by
  rw [Holds, manifest_insertion h]
  split
  · simp [Manifest.mem_items_ofItems]
  · rfl

theorem isRegular_plan {own : Manifest} (ho : own.InOrder) (hown : ∀ e ∈ own.items, IsRegular e)
    (source : Source) (siblings : Manifest) (b : Batch) (batchSize : Nat) :
    ∀ c ∈ plan source own siblings (normalize source b) batchSize, c.IsRegular := by
  intro c hc
  rw [plan_eq, List.mem_append, List.mem_append, List.mem_map, List.mem_map,
    List.mem_singleton] at hc
  rcases hc with (⟨batch, hbatch, rfl⟩ | ⟨chunk, hchunk, rfl⟩) | rfl
  · intro e he
    have hmem := List.mem_flatten.mpr ⟨batch, hbatch, he⟩
    rw [flatten_additionBatches] at hmem
    exact isRegular_of_mem_contribution hmem
  · intro e he
    have hmem := List.mem_flatten.mpr ⟨chunk, hchunk, he⟩
    rw [flatten_chunks, mem_removable ho] at hmem
    exact hown e hmem.1
  · refine ⟨Manifest.inOrder_ofItems _, fun e he => ?_⟩
    rw [Manifest.mem_items_ofItems] at he
    exact isRegular_of_mem_contribution he

theorem isRegular_insertion (hs : s.Sound) (h : s.insertion source b batchSize = .ok commits) :
    ∀ c ∈ commits, c.IsRegular := by
  obtain ⟨_, _, own, siblings, hown, _, rfl⟩ := insertion_eq_ok_iff.mp h
  exact isRegular_plan (manifest_inOrder hown)
    (fun e he => hs.regular source e ⟨own, hown, he⟩) source siblings b batchSize

theorem Sound.insertion (hs : s.Sound) (h : s.insertion source b batchSize = .ok commits) :
    (s.commitAll commits).Sound :=
  hs.commitAll (isRegular_insertion hs h)

/-- The rows are those of the items that some manifest holds. -/
def Exact (s : KeyValueStore) : Prop :=
  ∀ row, row ∈ s.sets ↔ ∃ u e, s.Holds u e ∧ setRow e = row

theorem Exact.mem_sets_iff (hx : s.Exact) (key member : String) :
    (key, member) ∈ s.sets ↔ ∃ u m f i, s.manifest u = .ok m ∧ m.contains f i = true ∧
      f.setKey i.group = key ∧ i.member = member := by
  rw [hx (key, member)]
  constructor
  · rintro ⟨u, ⟨f, i⟩, ⟨m, hm, he⟩, hrow⟩
    obtain ⟨hkey, hmember⟩ := Prod.mk.inj hrow
    exact ⟨u, m, f, i, hm, Manifest.contains_iff.mpr he, hkey, hmember⟩
  · rintro ⟨u, m, f, i, hm, hi, rfl, rfl⟩
    exact ⟨u, (f, i), ⟨m, hm, Manifest.contains_iff.mp hi⟩, rfl⟩

theorem Exact.insertion (hx : s.Exact) (hs : s.Sound)
    (h : s.insertion source b batchSize = .ok commits) : (s.commitAll commits).Exact := by
  intro row
  constructor
  · intro hrow
    obtain ⟨hrow, hstale⟩ := (mem_sets_insertion hs h row).mp hrow
    rcases hrow with hadded | hold
    · obtain ⟨e, he, rfl⟩ := List.mem_map.mp hadded
      exact ⟨source, e, (holds_insertion h source e).mpr (by rwa [if_pos rfl]), rfl⟩
    · obtain ⟨u, e, he, rfl⟩ := (hx row).mp hold
      by_cases hu : u = source
      · -- The item was the source's own, so either it is confirmed or a sibling holds it.
        subst hu
        by_cases hc : e ∈ contribution u b
        · exact ⟨u, e, (holds_insertion h u e).mpr (by rwa [if_pos rfl]), rfl⟩
        · have hshared : ∃ t, t ≠ u ∧ s.Holds t e := by
            by_contra hnone
            exact hstale ⟨e, ⟨he, hc, fun t ht hte => hnone ⟨t, ht, hte⟩⟩, rfl⟩
          obtain ⟨t, ht, hte⟩ := hshared
          exact ⟨t, e, (holds_insertion h t e).mpr (by rwa [if_neg ht]), rfl⟩
      · exact ⟨u, e, (holds_insertion h u e).mpr (by rwa [if_neg hu]), rfl⟩
  · intro hheld
    obtain ⟨u, e, he, rfl⟩ := hheld
    rw [setRow_mem_insertion hs h ((hs.insertion h).regular u e he)]
    rw [holds_insertion h] at he
    split at he
    · exact ⟨Or.inl he, fun hstale => hstale.2.1 he⟩
    · next hu => exact ⟨Or.inr ((hx _).mpr ⟨u, e, he, rfl⟩), fun hstale => hstale.2.2 u hu he⟩

end KeyValueStore

end PlatformCatalog
