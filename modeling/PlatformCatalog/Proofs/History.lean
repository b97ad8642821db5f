import PlatformCatalog.Proofs.Ingestion

/-!
# Histories of a key-value store

Whatever batches were taken in and in whatever order, each manifest holds
what its source's last batch contributes, and the sets hold what the
manifests hold. A store that is right in this sense stays so.
-/

set_option autoImplicit false

namespace PlatformCatalog

/-- A call that puts a batch in the place of the source's last one. -/
structure Intake where
  source : Source
  batch : Batch
  batchSize : Nat
  deriving DecidableEq, Repr

abbrev Latest := Source → Option Batch

namespace Latest

def none : Latest := fun _ => Option.none

def put (latest : Latest) (source : Source) (b : Batch) : Latest :=
  fun u => if u = source then some b else latest u

theorem put_self (latest : Latest) (source : Source) (b : Batch) :
    latest.put source b source = some b := if_pos rfl

theorem put_of_ne (latest : Latest) {source u : Source} (b : Batch) (hu : u ≠ source) :
    latest.put source b u = latest u := if_neg hu

end Latest

def lastBatch (calls : List Intake) : Latest := fun source =>
  (calls.reverse.find? fun c => c.source = source).map Intake.batch

theorem lastBatch_append_singleton (calls : List Intake) (c : Intake) :
    lastBatch (calls ++ [c]) = (lastBatch calls).put c.source c.batch := by
  funext source
  by_cases hc : source = c.source
  · simp [lastBatch, Latest.put, hc]
  · simp [lastBatch, Latest.put, hc, Ne.symm hc]

def manifestOf (source : Source) : Option Batch → Manifest
  | none => .empty
  | some b => .ofItems (contribution source b)

namespace KeyValueStore

variable {s : KeyValueStore} {latest : Latest}

/-- The manifests are those of the last batches, and the sets hold what they hold. -/
structure Tracks (s : KeyValueStore) (latest : Latest) : Prop where
  sound : s.Sound
  exact : s.Exact
  manifests : ∀ source, s.manifest source = .ok (manifestOf source (latest source))

def fresh : KeyValueStore := opened {}

theorem manifest_fresh (source : Source) : fresh.manifest source = .ok .empty := by
  cases source <;> rfl

theorem stamp_fresh : fresh.stamp = .ok .fresh := by rfl

theorem current_fresh : fresh.Current := ⟨.fresh, stamp_fresh, by decide⟩

theorem not_holds_fresh (source : Source) (e : Family × Item) : ¬fresh.Holds source e := by
  rw [holds_iff (manifest_fresh source), Manifest.items_empty]
  exact List.not_mem_nil

theorem sound_fresh : fresh.Sound where
  sets := Ordered.ascending_nil
  readable source := ⟨_, manifest_fresh source⟩
  regular source e he := absurd he (not_holds_fresh source e)

theorem tracks_fresh : fresh.Tracks Latest.none where
  sound := sound_fresh
  exact row := by
    constructor
    · intro h
      cases h
    · rintro ⟨u, e, he, _⟩
      exact absurd he (not_holds_fresh u e)
  manifests := manifest_fresh

theorem Tracks.insertion (ht : s.Tracks latest) {source : Source} {b : Batch} {batchSize : Nat}
    {commits : List Commit} (h : s.insertion source b batchSize = .ok commits) :
    (s.commitAll commits).Tracks (latest.put source b) where
  sound := ht.sound.insertion h
  exact := ht.exact.insertion ht.sound h
  manifests u := by
    rw [manifest_insertion h, Latest.put]
    split
    · next hu => rw [hu, manifestOf]
    · exact ht.manifests u

theorem Tracks.writeStamp (ht : s.Tracks latest) (stamp : Stamp) :
    (s.writeStamp stamp).Tracks latest where
  sound := ht.sound.writeStamp stamp
  exact row := by simpa only [Holds, manifest_writeStamp, sets_writeStamp] using ht.exact row
  manifests u := (manifest_writeStamp s stamp u).trans (ht.manifests u)

theorem Tracks.holds_iff (ht : s.Tracks latest) (source : Source) (e : Family × Item) :
    s.Holds source e ↔ ∃ b, latest source = some b ∧ e ∈ contribution source b := by
  rw [KeyValueStore.holds_iff (ht.manifests source)]
  cases latest source with
  | none => simp [manifestOf, Manifest.items_empty]
  | some b => simp [manifestOf, Manifest.mem_items_ofItems]

def takeIn (s : KeyValueStore) (c : Intake) : Except StoreError KeyValueStore :=
  Prod.fst <$> s.insert c.source c.batch c.batchSize

def takeInAll (s : KeyValueStore) (calls : List Intake) : Except StoreError KeyValueStore :=
  calls.foldlM takeIn s

theorem Sound.exists_insertion (hs : s.Sound) (hc : s.Current) (source : Source) (b : Batch)
    {batchSize : Nat} (hsize : 1 ≤ batchSize) :
    ∃ commits, s.insertion source b batchSize = .ok commits := by
  obtain ⟨own, hown⟩ := hs.readable source
  obtain ⟨siblings, hsib⟩ := hs.manifests source.siblings
  exact ⟨_, insertion_eq_ok_iff.mpr ⟨hc, hsize, own, siblings, hown, hsib, rfl⟩⟩

theorem takeIn_eq {c : Intake} {commits : List Commit}
    (h : s.insertion c.source c.batch c.batchSize = .ok commits) :
    s.takeIn c = .ok (s.commitAll commits) := by
  rw [takeIn, insert_eq_ok_iff.mpr ⟨commits, h, rfl, rfl⟩]
  rfl

theorem takeInAll_append_singleton (calls : List Intake) (c : Intake) :
    s.takeInAll (calls ++ [c]) = (s.takeInAll calls).bind (takeIn · c) := by
  rw [takeInAll, List.foldlM_append]
  cases h : calls.foldlM takeIn s with
  | error _ => simp [takeInAll, h, bind, Except.bind]
  | ok t =>
    cases ht : t.takeIn c <;>
      simp [takeInAll, h, ht, bind, Except.bind, pure, Except.pure]

theorem tracks_takeInAll (calls : List Intake) (hsize : ∀ c ∈ calls, 1 ≤ c.batchSize) :
    ∃ t, fresh.takeInAll calls = .ok t ∧ t.Current ∧ t.Tracks (lastBatch calls) := by
  induction calls using List.reverseRecOn with
  | nil => exact ⟨fresh, rfl, current_fresh, tracks_fresh⟩
  | append_singleton calls c ih =>
    obtain ⟨t, ht, hcurrent, htracks⟩ := ih fun d hd => hsize d (by simp [hd])
    obtain ⟨commits, hcommits⟩ :=
      htracks.sound.exists_insertion hcurrent c.source c.batch (hsize c (by simp))
    obtain ⟨stamp, hstamp, hout⟩ := hcurrent
    refine ⟨t.commitAll commits, ?_, ⟨stamp, ?_, hout⟩, ?_⟩
    · rw [takeInAll_append_singleton, ht]
      exact takeIn_eq hcommits
    · rw [stamp_insertion hcommits, hstamp]
    · rw [lastBatch_append_singleton]
      exact htracks.insertion hcommits

/-- However often and in whatever order the sources are refreshed, every call succeeds. Each
manifest then holds what the source's last batch contributes, and the sets hold exactly the
members that some manifest holds. -/
theorem index_of_intakes (calls : List Intake) (hsize : ∀ c ∈ calls, 1 ≤ c.batchSize) :
    ∃ s, fresh.takeInAll calls = .ok s ∧
      (∀ source, ∃ m, s.manifest source = .ok m ∧
        (∀ f i, m.contains f i = true ↔ ∃ b, lastBatch calls source = some b ∧
          ∃ r ∈ normalize source b, (f, i) ∈ r.items) ∧
        (lastBatch calls source = none → m.isEmpty = true)) ∧
      ∀ key member, (key, member) ∈ s.sets ↔
        ∃ source m f i, s.manifest source = .ok m ∧ m.contains f i = true ∧
          f.setKey i.group = key ∧ i.member = member := by
  obtain ⟨s, hs, _, htracks⟩ := tracks_takeInAll calls hsize
  refine ⟨s, hs, fun source => ⟨_, htracks.manifests source, fun f i => ?_, fun hnone => ?_⟩,
    fun key member => ?_⟩
  · rw [Manifest.contains_iff, ← KeyValueStore.holds_iff (htracks.manifests source),
      htracks.holds_iff]
    simp only [contribution, List.mem_flatMap]
  · rw [hnone]
    rfl
  · rw [htracks.exact (key, member)]
    constructor
    · rintro ⟨source, ⟨f, i⟩, ⟨m, hm, he⟩, hrow⟩
      obtain ⟨hkey, hmember⟩ := Prod.mk.inj hrow
      exact ⟨source, m, f, i, hm, Manifest.contains_iff.mpr he, hkey, hmember⟩
    · rintro ⟨source, m, f, i, hm, he, rfl, rfl⟩
      exact ⟨source, (f, i), ⟨m, hm, Manifest.contains_iff.mp he⟩, rfl⟩

def singleProduct : Batch := ⟨[⟨"MySQL", ["cpe:/a:mysql:mysql:5.0"]⟩], []⟩

def singleUri : Family × Item := (.activeUris, ⟨"", "cpe:/a:mysql:mysql:5.0"⟩)

theorem singleUri_mem_contribution (source : Source) :
    singleUri ∈ contribution source singleProduct := by
  cases source <;> decide +kernel

def firstCommits : List Commit := plan .nvd .empty .empty (normalize .nvd singleProduct) 1

theorem insertion_first : fresh.insertion .nvd singleProduct 1 = .ok firstCommits :=
  insertion_eq_ok_iff.mpr
    ⟨current_fresh, le_refl 1, .empty, .empty, manifest_fresh .nvd, by rfl, rfl⟩

def droppedOnce : List Intake :=
  [⟨.nvd, singleProduct, 1⟩, ⟨.jvn, singleProduct, 2⟩, ⟨.nvd, {}, 1⟩]

theorem index_of_intakes_dropped_once :
    (∀ c ∈ droppedOnce, 1 ≤ c.batchSize) ∧ ∃ s, fresh.takeInAll droppedOnce = .ok s ∧
      ("CPE#ActiveCPEs", "cpe:/a:mysql:mysql:5.0") ∈ s.sets ∧
      ∃ m, s.manifest .nvd = .ok m ∧ ∀ f i, m.contains f i = false := by
  have hsize : ∀ c ∈ droppedOnce, 1 ≤ c.batchSize := by decide
  obtain ⟨s, hs, hmanifests, hrows⟩ := index_of_intakes droppedOnce hsize
  obtain ⟨jvn, hjvn, hjvnItems, _⟩ := hmanifests .jvn
  obtain ⟨nvd, hnvd, hnvdItems, _⟩ := hmanifests .nvd
  have hrecord : ∃ r ∈ normalize .jvn singleProduct, singleUri ∈ r.items :=
    List.mem_flatMap.mp (singleUri_mem_contribution .jvn)
  have hnone : normalize .nvd {} = [] := rfl
  refine ⟨hsize, s, hs, (hrows _ _).mpr ?_, nvd, hnvd, fun f i => ?_⟩
  · exact ⟨.jvn, jvn, .activeUris, ⟨"", "cpe:/a:mysql:mysql:5.0"⟩, hjvn,
      (hjvnItems _ _).mpr ⟨singleProduct, rfl, hrecord⟩, rfl, rfl⟩
  · rw [← Bool.not_eq_true, hnvdItems]
    rintro ⟨b, hb, r, hr, _⟩
    obtain rfl : b = {} := (Option.some.inj hb).symm
    rw [hnone] at hr
    cases hr

end KeyValueStore

end PlatformCatalog
