import PlatformCatalog.Proofs.ManifestDocument
import PlatformCatalog.Proofs.SetKeys
import PlatformCatalog.Store.KeyValue

/-!
# What a commit changes

A commit to the sets leaves the hashes alone, and the commit of a manifest
leaves the sets, the stamp and the other manifests alone. What an insertion
reads is in the hashes, so commits to the sets cannot change its plan.
-/

set_option autoImplicit false

namespace PlatformCatalog

theorem Source.name_injective {s t : Source} (h : s.name = t.name) : s = t := by
  cases s <;> cases t <;> first | rfl | exact absurd h (by decide)

theorem Source.mem_siblings {s t : Source} : s ∈ t.siblings ↔ s ≠ t := by
  simp [Source.siblings, Source.mem_all]

namespace KeyValueStore

variable {s : KeyValueStore} {source : Source}

def Holds (s : KeyValueStore) (source : Source) (e : Family × Item) : Prop :=
  ∃ m, s.manifest source = .ok m ∧ e ∈ m.items

/-- The sets are in order. Every manifest can be read, and its items are regular. -/
structure Sound (s : KeyValueStore) : Prop where
  sets : Ordered.Ascending Ordered.pairBefore s.sets
  readable : ∀ source, ∃ m, s.manifest source = .ok m
  regular : ∀ source e, s.Holds source e → IsRegular e

theorem holds_iff {m : Manifest} (hm : s.manifest source = .ok m) (e : Family × Item) :
    s.Holds source e ↔ e ∈ m.items := by
  constructor
  · rintro ⟨n, hn, he⟩
    rw [hm, Except.ok.injEq] at hn
    exact hn ▸ he
  · exact fun he => ⟨m, hm, he⟩

theorem manifest_inOrder {m : Manifest} (hm : s.manifest source = .ok m) : m.InOrder := by
  rw [manifest] at hm
  split at hm
  · rw [← Except.ok.inj hm]
    exact Manifest.inOrder_empty
  · split at hm
    · next h =>
      rw [← Except.ok.inj hm]
      obtain ⟨v, _, hv⟩ := Option.bind_eq_some_iff.mp h
      exact Manifest.inOrder_of_ofJson hv
    · cases hm

theorem field?_setField (s : KeyValueStore) (key name value k n : String) :
    (s.setField key name value).field? k n =
      if (k, n) = (key, name) then some value else s.field? k n :=
  Ordered.get?_put Ordered.pairBefore_strict (key, name) (k, n) value s.hashes

theorem field?_setField_of_ne (s : KeyValueStore) (key name value : String) {k : String}
    (hk : k ≠ key) (n : String) : (s.setField key name value).field? k n = s.field? k n := by
  rw [field?_setField, if_neg]
  intro h
  exact hk (congrArg Prod.fst h)

theorem manifest_congr {t : KeyValueStore}
    (h : s.field? manifestKey source.name = t.field? manifestKey source.name) :
    s.manifest source = t.manifest source := by
  simp only [manifest, h]

theorem stamp_congr {t : KeyValueStore}
    (h : ∀ name, s.field? stampKey name = t.field? stampKey name) : s.stamp = t.stamp := by
  simp only [stamp, h]

theorem manifest_of_hashes {t : KeyValueStore} (h : s.hashes = t.hashes) (source : Source) :
    s.manifest source = t.manifest source :=
  manifest_congr (by rw [field?, field?, h])

theorem manifests_of_hashes {t : KeyValueStore} (h : s.hashes = t.hashes) (sources : List Source) :
    s.manifests sources = t.manifests sources := by
  induction sources with
  | nil => rfl
  | cons source rest ih => rw [manifests, manifests, manifest_of_hashes h, ih]

theorem stamp_of_hashes {t : KeyValueStore} (h : s.hashes = t.hashes) : s.stamp = t.stamp :=
  stamp_congr fun name => by rw [field?, field?, h]

theorem insertion_of_hashes {t : KeyValueStore} (h : s.hashes = t.hashes) (source : Source)
    (b : Batch) (batchSize : Nat) :
    s.insertion source b batchSize = t.insertion source b batchSize := by
  rw [insertion, insertion, stamp_of_hashes h, manifest_of_hashes h, manifests_of_hashes h]

theorem mem_sets_add (s : KeyValueStore) (entries : List (Family × Item)) (row : String × String) :
    row ∈ (s.commit (.add entries)).sets ↔ row ∈ entries.map setRow ∨ row ∈ s.sets :=
  Ordered.mem_insertAll Ordered.pairBefore_strict _ _ _

theorem mem_sets_remove (hs : Ordered.Ascending Ordered.pairBefore s.sets)
    (entries : List (Family × Item)) (row : String × String) :
    row ∈ (s.commit (.remove entries)).sets ↔ row ∉ entries.map setRow ∧ row ∈ s.sets :=
  Ordered.mem_eraseAll Ordered.pairBefore_strict _ hs _

namespace Commit

def added : Commit → List (Family × Item)
  | .add entries => entries
  | _ => []

def removed : Commit → List (Family × Item)
  | .remove entries => entries
  | _ => []

end Commit

theorem mem_sets_commit (hs : Ordered.Ascending Ordered.pairBefore s.sets) (c : Commit)
    (row : String × String) :
    row ∈ (s.commit c).sets ↔
      row ∉ c.removed.map setRow ∧ (row ∈ c.added.map setRow ∨ row ∈ s.sets) := by
  cases c with
  | add entries => simp [mem_sets_add, Commit.added, Commit.removed]
  | remove entries => simp [mem_sets_remove hs, Commit.added, Commit.removed]
  | record source m => simp [commit, setField, Commit.added, Commit.removed]

theorem manifest_record (s : KeyValueStore) {m : Manifest} (hm : m.InOrder) (u : Source) :
    (s.commit (.record source m)).manifest u = if u = source then .ok m else s.manifest u := by
  by_cases hu : u = source
  · subst hu
    simp [manifest, commit, field?_setField, Manifest.ofJson_parse_compact hm]
  · have hn : u.name ≠ source.name := fun h => hu (Source.name_injective h)
    rw [if_neg hu]
    exact manifest_congr (by simp [commit, field?_setField, hn])

theorem stamp_record (s : KeyValueStore) (m : Manifest) :
    (s.commit (.record source m)).stamp = s.stamp :=
  stamp_congr fun name => field?_setField_of_ne s _ _ _ (by decide) name

theorem manifest_writeStamp (s : KeyValueStore) (stamp : Stamp) (u : Source) :
    (s.writeStamp stamp).manifest u = s.manifest u := by
  refine manifest_congr ?_
  have hk : manifestKey ≠ stampKey := by decide
  simp [writeStamp, field?_setField_of_ne _ _ _ _ hk]

theorem sets_writeStamp (s : KeyValueStore) (stamp : Stamp) : (s.writeStamp stamp).sets = s.sets :=
  rfl

def Commit.IsRegular : Commit → Prop
  | .add entries => ∀ e ∈ entries, PlatformCatalog.IsRegular e
  | .remove entries => ∀ e ∈ entries, PlatformCatalog.IsRegular e
  | .record _ m => m.InOrder ∧ ∀ e ∈ m.items, PlatformCatalog.IsRegular e

theorem Commit.IsRegular.added {c : Commit} (hc : c.IsRegular) :
    ∀ e ∈ c.added, PlatformCatalog.IsRegular e := by
  cases c with
  | add entries => exact hc
  | _ => exact fun e he => absurd he List.not_mem_nil

theorem Commit.IsRegular.removed {c : Commit} (hc : c.IsRegular) :
    ∀ e ∈ c.removed, PlatformCatalog.IsRegular e := by
  cases c with
  | remove entries => exact hc
  | _ => exact fun e he => absurd he List.not_mem_nil

/-- A regular commit touches the row of an item only through the item itself. -/
theorem setRow_mem_commit (hs : Ordered.Ascending Ordered.pairBefore s.sets) {c : Commit}
    (hc : c.IsRegular) {e : Family × Item} (he : PlatformCatalog.IsRegular e) :
    setRow e ∈ (s.commit c).sets ↔ e ∉ c.removed ∧ (e ∈ c.added ∨ setRow e ∈ s.sets) := by
  rw [mem_sets_commit hs, setRow_mem_map he hc.removed, setRow_mem_map he hc.added]

theorem Sound.of_hashes {t : KeyValueStore} (hs : s.Sound) (h : t.hashes = s.hashes)
    (ht : Ordered.Ascending Ordered.pairBefore t.sets) : t.Sound where
  sets := ht
  readable source := by
    rw [manifest_of_hashes h]
    exact hs.readable source
  regular source e he := by
    rw [Holds, manifest_of_hashes h] at he
    exact hs.regular source e he

theorem Sound.commit (hs : s.Sound) {c : Commit} (hc : c.IsRegular) : (s.commit c).Sound := by
  cases c with
  | add entries =>
    exact hs.of_hashes rfl (Ordered.ascending_insertAll Ordered.pairBefore_strict _ hs.sets)
  | remove entries => exact hs.of_hashes rfl (Ordered.ascending_eraseAll _ hs.sets)
  | record source m =>
    have hm : ∀ u, (s.commit (.record source m)).manifest u =
        if u = source then .ok m else s.manifest u := manifest_record s hc.1
    refine ⟨hs.sets, fun u => ?_, fun u e he => ?_⟩
    · rw [hm]
      split
      · exact ⟨m, rfl⟩
      · exact hs.readable u
    · rw [Holds, hm] at he
      split at he
      · obtain ⟨n, hn, he⟩ := he
        exact hc.2 e (Except.ok.inj hn ▸ he)
      · exact hs.regular u e he

theorem Sound.writeStamp (hs : s.Sound) (stamp : Stamp) : (s.writeStamp stamp).Sound where
  sets := hs.sets
  readable u := by
    rw [manifest_writeStamp]
    exact hs.readable u
  regular u e he := by
    rw [Holds, manifest_writeStamp] at he
    exact hs.regular u e he

theorem Sound.commitAll (hs : s.Sound) {commits : List Commit} (hc : ∀ c ∈ commits, c.IsRegular) :
    (s.commitAll commits).Sound := by
  induction commits generalizing s with
  | nil => exact hs
  | cons c rest ih =>
    exact ih (hs.commit (hc c (by simp))) fun d hd => hc d (by simp [hd])

theorem commitAll_append (s : KeyValueStore) (cs ds : List Commit) :
    s.commitAll (cs ++ ds) = (s.commitAll cs).commitAll ds :=
  List.foldl_append

def added (commits : List Commit) : List (Family × Item) := commits.flatMap Commit.added

def removed (commits : List Commit) : List (Family × Item) := commits.flatMap Commit.removed

theorem added_append (cs ds : List Commit) : added (cs ++ ds) = added cs ++ added ds :=
  List.flatMap_append

theorem removed_append (cs ds : List Commit) : removed (cs ++ ds) = removed cs ++ removed ds :=
  List.flatMap_append

theorem added_map_add (batches : List (List (Family × Item))) :
    added (batches.map .add) = batches.flatten := by
  induction batches with
  | nil => rfl
  | cons b rest ih => exact congrArg (b ++ ·) ih

theorem removed_map_add (batches : List (List (Family × Item))) :
    removed (batches.map .add) = [] := by
  induction batches with
  | nil => rfl
  | cons b rest ih => exact ih

theorem added_map_remove (batches : List (List (Family × Item))) :
    added (batches.map .remove) = [] := by
  induction batches with
  | nil => rfl
  | cons b rest ih => exact ih

theorem removed_map_remove (batches : List (List (Family × Item))) :
    removed (batches.map .remove) = batches.flatten := by
  induction batches with
  | nil => rfl
  | cons b rest ih => exact congrArg (b ++ ·) ih

theorem hashes_commitAll_add (s : KeyValueStore) (batches : List (List (Family × Item))) :
    (s.commitAll (batches.map .add)).hashes = s.hashes := by
  induction batches generalizing s with
  | nil => rfl
  | cons b rest ih => exact ih (s.commit (.add b))

theorem hashes_commitAll_remove (s : KeyValueStore) (batches : List (List (Family × Item))) :
    (s.commitAll (batches.map .remove)).hashes = s.hashes := by
  induction batches generalizing s with
  | nil => rfl
  | cons b rest ih => exact ih (s.commit (.remove b))

theorem mem_sets_commitAll_add (s : KeyValueStore) (batches : List (List (Family × Item)))
    (row : String × String) :
    row ∈ (s.commitAll (batches.map .add)).sets ↔
      row ∈ batches.flatten.map setRow ∨ row ∈ s.sets := by
  induction batches generalizing s with
  | nil => simp [commitAll]
  | cons b rest ih =>
    rw [List.map_cons, commitAll, List.foldl_cons, ← commitAll, ih, mem_sets_add,
      List.flatten_cons, List.map_append, List.mem_append]
    tauto

theorem ascending_commitAll_add (hs : Ordered.Ascending Ordered.pairBefore s.sets)
    (batches : List (List (Family × Item))) :
    Ordered.Ascending Ordered.pairBefore (s.commitAll (batches.map .add)).sets := by
  induction batches generalizing s with
  | nil => exact hs
  | cons b rest ih => exact ih (Ordered.ascending_insertAll Ordered.pairBefore_strict _ hs)

theorem mem_sets_commitAll_remove (hs : Ordered.Ascending Ordered.pairBefore s.sets)
    (batches : List (List (Family × Item))) (row : String × String) :
    row ∈ (s.commitAll (batches.map .remove)).sets ↔
      row ∉ batches.flatten.map setRow ∧ row ∈ s.sets := by
  induction batches generalizing s with
  | nil => simp [commitAll]
  | cons b rest ih =>
    have hb : Ordered.Ascending Ordered.pairBefore (s.commit (.remove b)).sets :=
      Ordered.ascending_eraseAll _ hs
    rw [List.map_cons, commitAll, List.foldl_cons, ← commitAll, ih hb, mem_sets_remove hs,
      List.flatten_cons, List.map_append, List.mem_append]
    tauto

end KeyValueStore

end PlatformCatalog
