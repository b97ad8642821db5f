import PlatformCatalog.Proofs.Interruption

/-!
# Insertions that are tried again

One insertion breaks off again and again, and meanwhile other sources bring
their batches. The store then differs from one without the broken attempts in
two ways only: it may have items of the batch already, and it may lack items
that are stale for it. The attempt that comes to its end makes up for both.
-/

set_option autoImplicit false

namespace PlatformCatalog.KeyValueStore

variable {s t w : KeyValueStore} {source : Source} {b : Batch} {batchSize k n : Nat}
  {commits : List Commit} {calls : List Intake}

/-- The stores that calls lead to which all come to their end. -/
inductive Settled : KeyValueStore → Prop
  | fresh : Settled fresh
  | stamped {s : KeyValueStore} (stamp : Stamp) : Settled s → Settled (s.writeStamp stamp)
  | taken {s t : KeyValueStore} (c : Intake) : Settled s → s.takeIn c = .ok t → Settled t

/-- The stores that attempts at one insertion lead to. Each of them breaks off between two commits,
and between them other sources take in the batches of `calls`. -/
inductive Attempted (source : Source) (b : Batch) (s : KeyValueStore) :
    List Intake → KeyValueStore → Prop
  | start : Attempted source b s [] s
  | broken {t : KeyValueStore} {calls : List Intake} {batchSize : Nat} {commits : List Commit}
      (k : Nat) : Attempted source b s calls t →
      t.insertion source b batchSize = .ok commits → k < commits.length →
      Attempted source b s calls (t.commitAll (commits.take k))
  | refreshed {t u : KeyValueStore} {calls : List Intake} (c : Intake) :
      Attempted source b s calls t → c.source ≠ source → t.takeIn c = .ok u →
      Attempted source b s (calls ++ [c]) u

theorem takeIn_eq_ok_iff {c : Intake} :
    s.takeIn c = .ok t ↔ ∃ commits,
      s.insertion c.source c.batch c.batchSize = .ok commits ∧ t = s.commitAll commits := by
  rw [takeIn, insert]
  cases s.insertion c.source c.batch c.batchSize with
  | error e => simp [bind, Except.bind, Functor.map, Except.map]
  | ok commits => simp [bind, Except.bind, pure, Except.pure, Functor.map, Except.map, eq_comm]

theorem Settled.reachable (hs : s.Settled) : s.Reachable := by
  induction hs with
  | fresh => exact .fresh
  | stamped stamp _ ih => exact ih.stamped stamp
  | taken c _ h ih =>
    obtain ⟨commits, hcommits, rfl⟩ := takeIn_eq_ok_iff.mp h
    have htaken := ih.taken commits.length hcommits
    rwa [List.take_length] at htaken

theorem Settled.sound_and_exact (hs : s.Settled) : s.Sound ∧ s.Exact := by
  induction hs with
  | fresh => exact ⟨sound_fresh, tracks_fresh.exact⟩
  | stamped stamp _ ih =>
    refine ⟨ih.1.writeStamp stamp, fun row => ?_⟩
    simpa only [Holds, manifest_writeStamp, sets_writeStamp] using ih.2 row
  | taken c _ h ih =>
    obtain ⟨commits, hcommits, rfl⟩ := takeIn_eq_ok_iff.mp h
    exact ⟨ih.1.insertion hcommits, ih.2.insertion ih.1 hcommits⟩

theorem Sound.exists_insert_iff (hs : s.Sound) :
    (∃ r, s.insert source b batchSize = .ok r) ↔ s.Current ∧ 1 ≤ batchSize := by
  constructor
  · rintro ⟨⟨t, n⟩, h⟩
    obtain ⟨commits, hcommits, _⟩ := insert_eq_ok_iff.mp h
    obtain ⟨hcurrent, hsize, _⟩ := insertion_eq_ok_iff.mp hcommits
    exact ⟨hcurrent, hsize⟩
  · rintro ⟨hcurrent, hsize⟩
    obtain ⟨commits, hcommits⟩ := hs.exists_insertion hcurrent source b hsize
    exact ⟨_, insert_eq_ok_iff.mpr ⟨commits, hcommits, rfl, rfl⟩⟩

/-- The store differs from another one only by what attempts at an insertion may have added
and removed. -/
structure Deviates (source : Source) (b : Batch) (t w : KeyValueStore) : Prop where
  hashes : t.hashes = w.hashes
  added : ∀ row ∈ t.sets, row ∈ w.sets ∨ row ∈ (contribution source b).map setRow
  removed : ∀ row ∈ w.sets, row ∈ t.sets ∨ ∃ e, t.Stale source b e ∧ setRow e = row

theorem Deviates.refl (source : Source) (b : Batch) (s : KeyValueStore) : Deviates source b s s :=
  ⟨rfl, fun _ => Or.inl, fun _ => Or.inl⟩

theorem Deviates.broken (h : Deviates source b t w) (ht : t.Sound)
    (hplan : t.insertion source b batchSize = .ok commits) (hk : k < commits.length) :
    Deviates source b (t.commitAll (commits.take k)) w := by
  have hsame := hashes_broken hplan hk
  obtain ⟨gone, hgone, hrows⟩ := mem_sets_broken ht hplan hk
  refine ⟨hsame.trans h.hashes, fun row hrow => ?_, fun row hrow => ?_⟩
  · obtain ⟨_, hadded | hold⟩ := (hrows row).mp hrow
    · obtain ⟨e, he, rfl⟩ := List.mem_map.mp hadded
      exact Or.inr (List.mem_map.mpr ⟨e, added_take_subset hplan hk he, rfl⟩)
    · exact h.added row hold
  · simp only [stale_of_hashes hsame]
    rcases h.removed row hrow with hold | hstale
    · by_cases hgoneRow : row ∈ gone.map setRow
      · obtain ⟨e, he, rfl⟩ := List.mem_map.mp hgoneRow
        exact Or.inr ⟨e, hgone e he, rfl⟩
      · exact Or.inl ((hrows row).mpr ⟨hgoneRow, Or.inr hold⟩)
    · exact Or.inr hstale

theorem hashes_commit_congr (h : t.hashes = w.hashes) (c : Commit) :
    (t.commit c).hashes = (w.commit c).hashes := by
  cases c with
  | add entries => exact h
  | remove entries => exact h
  | record source m => simp only [commit, setField, h]

theorem hashes_commitAll_congr (h : t.hashes = w.hashes) (commits : List Commit) :
    (t.commitAll commits).hashes = (w.commitAll commits).hashes := by
  induction commits generalizing t w with
  | nil => exact h
  | cons c rest ih => exact ih (hashes_commit_congr h c)

/-- An item that is stale for the source stays so while another source's batch leaves it out. -/
theorem Stale.insertion {u : Source} {next : Batch} (hu : u ≠ source) {e : Family × Item}
    (he : t.Stale source b e) (hnext : e ∉ contribution u next)
    (hplan : t.insertion u next batchSize = .ok commits) :
    (t.commitAll commits).Stale source b e := by
  refine ⟨?_, he.2.1, fun v hv => ?_⟩
  · rw [holds_insertion hplan, if_neg hu.symm]
    exact he.1
  · rw [holds_insertion hplan]
    split
    · exact hnext
    · exact he.2.2 v hv

theorem Deviates.refreshed (h : Deviates source b t w) (ht : t.Sound) (hw : w.Sound) {u : Source}
    (hu : u ≠ source) {next : Batch} (hplan : t.insertion u next batchSize = .ok commits)
    (hsame : w.insertion u next batchSize = .ok commits) :
    Deviates source b (t.commitAll commits) (w.commitAll commits) := by
  refine ⟨hashes_commitAll_congr h.hashes commits, fun row hrow => ?_, fun row hrow => ?_⟩
  · rw [mem_sets_insertion ht hplan] at hrow
    simp only [stale_of_hashes h.hashes] at hrow
    obtain ⟨hnew | hold, hstale⟩ := hrow
    · exact Or.inl ((mem_sets_insertion hw hsame row).mpr ⟨Or.inl hnew, hstale⟩)
    · refine (h.added row hold).imp_left fun hwrow => ?_
      exact (mem_sets_insertion hw hsame row).mpr ⟨Or.inr hwrow, hstale⟩
  · rw [mem_sets_insertion hw hsame] at hrow
    simp only [← stale_of_hashes h.hashes] at hrow
    rw [mem_sets_insertion ht hplan]
    obtain ⟨hnew | hold, hstale⟩ := hrow
    · exact Or.inl ⟨Or.inl hnew, hstale⟩
    · rcases h.removed row hold with htrow | ⟨e, he, rfl⟩
      · exact Or.inl ⟨Or.inr htrow, hstale⟩
      · -- What an attempt removed is brought back, or nobody else holds it after this batch either.
        by_cases hnew : e ∈ contribution u next
        · exact Or.inl ⟨Or.inl (List.mem_map.mpr ⟨e, hnew, rfl⟩), hstale⟩
        · exact Or.inr ⟨e, he.insertion hu hnew hplan, rfl⟩

theorem Deviates.sets_insertion_eq (h : Deviates source b t w) (ht : t.Sound) (hw : w.Sound)
    (hplan : t.insertion source b batchSize = .ok commits)
    (hsame : w.insertion source b batchSize = .ok commits) :
    (t.commitAll commits).sets = (w.commitAll commits).sets := by
  apply Ordered.Ascending.ext Ordered.pairBefore_strict
  · exact (ht.insertion hplan).sets
  · exact (hw.insertion hsame).sets
  · intro row
    rw [mem_sets_insertion ht hplan, mem_sets_insertion hw hsame]
    simp only [stale_of_hashes h.hashes]
    refine and_congr_left fun hstale => ⟨fun hrow => ?_, fun hrow => ?_⟩
    · rcases hrow with hnew | hold
      · exact Or.inl hnew
      · exact (h.added row hold).symm
    · rcases hrow with hnew | hold
      · exact Or.inl hnew
      · refine (h.removed row hold).elim Or.inr fun ⟨e, he, hrow⟩ => ?_
        exact absurd ⟨e, (stale_of_hashes h.hashes source b e).mp he, hrow⟩ hstale

theorem Attempted.deviates (hs : s.Sound) (h : Attempted source b s calls t) :
    t.Sound ∧ ∃ w, s.takeInAll calls = .ok w ∧ w.Sound ∧ Deviates source b t w := by
  induction h with
  | start => exact ⟨hs, s, rfl, hs, .refl source b s⟩
  | broken k _ hplan hk ih =>
    obtain ⟨ht, w, hcalls, hw, hdeviates⟩ := ih
    exact ⟨ht.broken hplan k, w, hcalls, hw, hdeviates.broken ht hplan hk⟩
  | refreshed c _ hc htaken ih =>
    obtain ⟨ht, w, hcalls, hw, hdeviates⟩ := ih
    obtain ⟨commits, hplan, rfl⟩ := takeIn_eq_ok_iff.mp htaken
    have hsame : w.insertion c.source c.batch c.batchSize = .ok commits :=
      (insertion_of_hashes hdeviates.hashes.symm ..).trans hplan
    refine ⟨ht.insertion hplan, w.commitAll commits, ?_, hw.insertion hsame,
      hdeviates.refreshed ht hw hc hplan hsame⟩
    rw [takeInAll_append_singleton, hcalls]
    exact takeIn_eq hsame

theorem Attempted.stamp_eq (h : Attempted source b s calls t) : t.stamp = s.stamp := by
  induction h with
  | start => rfl
  | broken k _ hplan hk ih => exact (stamp_of_hashes (hashes_broken hplan hk)).trans ih
  | refreshed c _ _ htaken ih =>
    obtain ⟨commits, hplan, rfl⟩ := takeIn_eq_ok_iff.mp htaken
    exact (stamp_insertion hplan).trans ih

theorem Exact.takeInAll (hx : s.Exact) (hs : s.Sound) (h : s.takeInAll calls = .ok w) :
    w.Exact := by
  have hboth : w.Sound ∧ w.Exact := by
    induction calls using List.reverseRecOn generalizing w with
    | nil =>
      cases h
      exact ⟨hs, hx⟩
    | append_singleton calls c ih =>
      rw [takeInAll_append_singleton] at h
      cases hv : s.takeInAll calls with
      | error e =>
        rw [hv] at h
        cases h
      | ok v =>
        rw [hv] at h
        obtain ⟨commits, hplan, rfl⟩ := takeIn_eq_ok_iff.mp h
        obtain ⟨hsound, hexact⟩ := ih hv
        exact ⟨hsound.insertion hplan, hexact.insertion hsound hplan⟩
  exact hboth.2

theorem Deviates.present (h : Deviates source b t w) (ht : t.Sound) {u : Source}
    (hu : u ≠ source) {e : Family × Item} (he : t.Holds u e) (hw : setRow e ∈ w.sets) :
    setRow e ∈ t.sets := by
  rcases h.removed _ hw with hrow | ⟨d, hd, hrow⟩
  · exact hrow
  · have hde := setRow_injective (isRegular_of_stale ht hd) (ht.regular u e he) hrow
    subst hde
    exact absurd he (hd.2.2 u hu)

/-- However often an insertion breaks off, and whatever other sources bring meanwhile, the attempt
that comes to its end leaves the sets and manifests that it would have left without the broken
ones. If no earlier call had been left broken, the other sources' items are in the sets all the
time, and in the end the sets hold exactly what the manifests hold. -/
theorem insertion_converges (hr : s.Reachable) (h : Attempted source b s calls t) :
    (s.Settled → ∀ u m f i, u ≠ source → t.manifest u = .ok m → m.contains f i = true →
      (f.setKey i.group, i.member) ∈ t.sets) ∧
    ∀ size, ((∃ r, t.insert source b size = .ok r) ↔ s.Current ∧ 1 ≤ size) ∧
      ∀ t' n, t.insert source b size = .ok (t', n) →
        (∃ m, t'.manifest source = .ok m ∧ ∀ f i, m.contains f i = true ↔
          ∃ r ∈ normalize source b, (f, i) ∈ r.items) ∧
        (∀ u, u ≠ source → t'.manifest u = t.manifest u) ∧
        (∃ w w', s.takeInAll calls = .ok w ∧ w.insert source b size = .ok (w', n) ∧
          t'.sets = w'.sets ∧ ∀ u, t'.manifest u = w'.manifest u) ∧
        (s.Settled → ∀ key member, (key, member) ∈ t'.sets ↔
          ∃ u m f i, t'.manifest u = .ok m ∧ m.contains f i = true ∧
            f.setKey i.group = key ∧ i.member = member) := by
  obtain ⟨ht, w, hcalls, hw, hdeviates⟩ := h.deviates hr.sound_and_sharedPresent.1
  have hexact : s.Settled → w.Exact := fun hs =>
    hs.sound_and_exact.2.takeInAll hs.sound_and_exact.1 hcalls
  refine ⟨fun hs u m f i hu hm hi => ?_, fun size => ⟨?_, fun t' n hinsert => ?_⟩⟩
  · have he : t.Holds u (f, i) := ⟨m, hm, Manifest.contains_iff.mp hi⟩
    have hwe : w.Holds u (f, i) := (holds_of_hashes hdeviates.hashes u (f, i)).mp he
    exact hdeviates.present ht hu he ((hexact hs _).mpr ⟨u, _, hwe, rfl⟩)
  · rw [ht.exists_insert_iff, Current, h.stamp_eq, ← Current]
  · obtain ⟨commits, hplan, rfl, rfl⟩ := insert_eq_ok_iff.mp hinsert
    have hsame : w.insertion source b size = .ok commits :=
      (insertion_of_hashes hdeviates.hashes.symm ..).trans hplan
    have hsets := hdeviates.sets_insertion_eq ht hw hplan hsame
    have hhashes := hashes_commitAll_congr hdeviates.hashes commits
    refine ⟨⟨_, (manifest_insertion hplan source).trans (if_pos rfl), fun f i => ?_⟩,
      fun u hu => (manifest_insertion hplan u).trans (if_neg hu),
      ⟨w, _, hcalls, insert_eq_ok_iff.mpr ⟨commits, hsame, rfl, rfl⟩, hsets,
        manifest_of_hashes hhashes⟩, fun hs key member => ?_⟩
    · rw [Manifest.contains_iff, Manifest.mem_items_ofItems, contribution, List.mem_flatMap]
    · rw [hsets, ((hexact hs).insertion hw hsame).mem_sets_iff]
      simp only [manifest_of_hashes hhashes]

theorem exists_takeIn (h : Attempted source b s calls t) (hs : s.Sound) (hc : s.Current)
    (c : Intake) (hsize : 1 ≤ c.batchSize) : ∃ u, t.takeIn c = .ok u := by
  rw [Current, ← h.stamp_eq] at hc
  obtain ⟨commits, hplan⟩ :=
    (h.deviates hs).1.exists_insertion hc c.source c.batch hsize
  exact ⟨_, takeIn_eq hplan⟩

/-- One source's attempt adds the product and breaks off. Another source brings the product and
drops it again, and with it what the attempt had added. -/
def visit : List Intake := [⟨.jvn, singleProduct, 1⟩, ⟨.jvn, {}, 1⟩]

theorem exists_attempted_visit : ∃ t, Attempted .nvd singleProduct fresh visit t := by
  have hstart : Attempted .nvd singleProduct fresh [] fresh := .start
  have hbroken := hstart.broken 1 insertion_first one_lt_length_firstCommits
  obtain ⟨t, ht⟩ := exists_takeIn hbroken sound_fresh current_fresh ⟨.jvn, singleProduct, 1⟩
    (le_refl 1)
  have hbrought := hbroken.refreshed _ (by decide) ht
  obtain ⟨u, hu⟩ := exists_takeIn hbrought sound_fresh current_fresh ⟨.jvn, {}, 1⟩ (le_refl 1)
  exact ⟨u, hbrought.refreshed _ (by decide) hu⟩

theorem insertion_converges_visit :
    fresh.Reachable ∧ fresh.Settled ∧ ∃ t, Attempted .nvd singleProduct fresh visit t ∧
      ∃ t' n, t.insert .nvd singleProduct 1 = .ok (t', n) ∧ setRow singleUri ∈ t'.sets := by
  obtain ⟨t, ht⟩ := exists_attempted_visit
  obtain ⟨_, hfinal⟩ := insertion_converges Settled.fresh.reachable ht
  obtain ⟨hends, hafter⟩ := hfinal 1
  obtain ⟨⟨t', n⟩, hinsert⟩ := hends.mpr ⟨current_fresh, le_refl 1⟩
  obtain ⟨⟨m, hm, hitems⟩, _, _, hrows⟩ := hafter t' n hinsert
  have hrecord : ∃ r ∈ normalize .nvd singleProduct, singleUri ∈ r.items :=
    List.mem_flatMap.mp (singleUri_mem_contribution .nvd)
  refine ⟨Settled.fresh.reachable, Settled.fresh, t, ht, t', n, hinsert, ?_⟩
  exact (hrows Settled.fresh _ _).mpr ⟨.nvd, m, _, _, hm, (hitems _ _).mpr hrecord, rfl, rfl⟩

end PlatformCatalog.KeyValueStore
