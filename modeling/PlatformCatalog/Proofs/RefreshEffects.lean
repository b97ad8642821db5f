import PlatformCatalog.Proofs.Interruption
import PlatformCatalog.Proofs.RelationalIngestion
import PlatformCatalog.Proofs.StoredTimes
import PlatformCatalog.Refresh

/-!
# What a refresh changes

A refresh that fails leaves the store as it was, and one that succeeds leaves
what the insertion by itself leaves, with a new time in the stamp. It fetches
once, unless the store cannot take in what a fetch would bring.
-/

set_option autoImplicit false

namespace PlatformCatalog

open Text Time

namespace Store

def storedVersion : Store → Option Nat
  | .relational s =>
    match s.stampRow with
    | none => some Stamp.latestSchemaVersion
    | some row => row.schemaVersion.natural? max32
  | .keyValue s =>
    match s.field? KeyValueStore.stampKey KeyValueStore.schemaVersionField with
    | none => some Stamp.latestSchemaVersion
    | some raw => (KeyValueStore.readVersion raw).toOption

def SameBatches : Store → Store → Prop
  | .relational s, .relational t => s.records = t.records ∧ s.refused = t.refused
  | .keyValue s, .keyValue t => s.sets = t.sets ∧
    ∀ key name, key ≠ KeyValueStore.stampKey → s.field? key name = t.field? key name
  | _, _ => False

/-- What the first store has of a source, the second one has as well. The sets are taken of sound
stores only, which all are that calls lead to (`KeyValueStore.Reachable.sound_and_sharedPresent`). -/
def Keeps (u : Source) : Store → Store → Prop
  | .relational s, .relational t =>
    t.records.filter (fun r => r.source = u) = s.records.filter fun r => r.source = u
  | .keyValue s, .keyValue t => t.manifest u = s.manifest u ∧
    (s.Sound → ∀ e, s.Holds u e → setRow e ∈ s.sets → setRow e ∈ t.sets)
  | _, _ => False

/-- What an insertion may leave if it fails. A transaction leaves nothing behind, but of separate
commits the first ones may be done. -/
def LeftByFailure (s : Store) (source : Source) (b : Batch) (batchSize : Nat) (t : Store) : Prop :=
  t = s ∨ ∃ kv commits k, s = .keyValue kv ∧ kv.insertion source b batchSize = .ok commits ∧
    k < commits.length ∧ t = .keyValue (kv.commitAll (commits.take k))

def counted {ν : Type} (fetch : ν → Ending Batch × ν) (w : ν × Nat) : Ending Batch × (ν × Nat) :=
  ((fetch w.1).1, (fetch w.1).2, w.2 + 1)

variable {s t : Store} {stamp : Stamp} {source : Source} {b : Batch} {batchSize n : Nat}
  {now : Timestamp}

theorem storedVersion_of_stamp (h : s.stamp = .ok stamp) :
    s.storedVersion = some stamp.schemaVersion := by
  cases s with
  | relational s =>
    rw [Store.stamp, RelationalStore.stamp] at h
    split at h
    · next hrow =>
      rw [← Except.ok.inj h]
      simp only [storedVersion, hrow, Stamp.fresh]
    · next hrow =>
      split at h
      · cases h
      · next hversion =>
        split at h
        · rw [← Except.ok.inj h]
          simp only [storedVersion, hrow, hversion]
        · cases h
  | keyValue s =>
    rw [Store.stamp, KeyValueStore.stamp] at h
    split at h
    · next hraw =>
      rw [← Except.ok.inj h]
      simp only [storedVersion, hraw, Stamp.fresh]
    · next hraw =>
      obtain ⟨version, hversion, h⟩ := bind_eq_ok_iff.mp h
      obtain ⟨time, _, h⟩ := bind_eq_ok_iff.mp h
      rw [← Except.ok.inj h]
      simp only [storedVersion, hraw, hversion, Except.toOption]

theorem storedVersion_writeStamp (s : Store) (h : stamp.schemaVersion ≤ max32) :
    (s.writeStamp stamp).storedVersion = some stamp.schemaVersion := by
  cases s with
  | relational s => exact if_pos h
  | keyValue s =>
    have hfield : (s.writeStamp stamp).field? KeyValueStore.stampKey
        KeyValueStore.schemaVersionField = some (toString stamp.schemaVersion) := by
      rw [KeyValueStore.field?_writeStamp, if_neg (by decide), if_pos rfl]
    simp only [writeStamp, storedVersion, hfield, KeyValueStore.readVersion_toString h,
      Except.toOption]

theorem stamp_writeStamp (s : Store) (h : stamp.schemaVersion ≤ max32)
    (htime : stamp.lastFetchedAt.Storable) : (s.writeStamp stamp).stamp = .ok stamp := by
  cases s with
  | relational s =>
    refine (s.stamp_writeStamp h).trans ?_
    rw [Timestamp.readStrict_stored htime]
  | keyValue s =>
    refine (s.stamp_writeStamp h).trans ?_
    rw [Timestamp.readStrict_stored htime]

theorem stamp_writeStamp_ne_ok (s : Store) (h : stamp.schemaVersion ≤ max32)
    {fault : TimestampFault}
    (hread : Timestamp.readStrict stamp.lastFetchedAt.stored = .error fault) (found : Stamp) :
    (s.writeStamp stamp).stamp ≠ .ok found := by
  intro hfound
  cases s with
  | relational s =>
    have hstamp := (s.stamp_writeStamp h).symm.trans hfound
    rw [hread] at hstamp
    cases hstamp
  | keyValue s =>
    have hstamp := (s.stamp_writeStamp h).symm.trans hfound
    rw [hread] at hstamp
    cases hstamp

theorem sameBatches_writeStamp (s : Store) (stamp : Stamp) :
    (s.writeStamp stamp).SameBatches s := by
  cases s with
  | relational s => exact ⟨rfl, rfl⟩
  | keyValue s =>
    refine ⟨KeyValueStore.sets_writeStamp s stamp, fun key name hkey => ?_⟩
    simp only [KeyValueStore.writeStamp, KeyValueStore.field?_setField_of_ne _ _ _ _ hkey]

theorem Keeps.writeStamp {u : Source} (h : s.Keeps u t) (stamp : Stamp) :
    s.Keeps u (t.writeStamp stamp) := by
  cases s with
  | relational s =>
    cases t with
    | relational t => exact h
    | keyValue t => exact h.elim
  | keyValue s =>
    cases t with
    | relational t => exact h.elim
    | keyValue t =>
      refine ⟨?_, h.2⟩
      rw [KeyValueStore.manifest_writeStamp]
      exact h.1

theorem checkIntake_eq_gate (s : Store) (batchSize : Nat) :
    s.checkIntake batchSize = Stamp.gate s.stamp batchSize := by
  rw [checkIntake, checkSchema, Stamp.gate]
  cases s.stamp <;> rfl

theorem checkIntake_eq_ok_iff : s.checkIntake batchSize = .ok () ↔
    s.storedVersion = some Stamp.latestSchemaVersion ∧ (∃ stamp, s.stamp = .ok stamp) ∧
      1 ≤ batchSize := by
  rw [checkIntake_eq_gate, Stamp.gate_eq_ok_iff, ← and_assoc]
  refine and_congr_left fun _ => ⟨?_, ?_⟩
  · rintro ⟨stamp, hstamp, hlatest⟩
    have hversion : stamp.schemaVersion = Stamp.latestSchemaVersion := by
      simpa [Stamp.isOutdated] using hlatest
    exact ⟨by rw [storedVersion_of_stamp hstamp, hversion], stamp, hstamp⟩
  · rintro ⟨hversion, stamp, hstamp⟩
    rw [storedVersion_of_stamp hstamp, Option.some.injEq] at hversion
    exact ⟨stamp, hstamp, by simpa [Stamp.isOutdated] using hversion⟩

theorem keeps_replaced (s : RelationalStore) (source : Source) (b : Batch) {u : Source}
    (hu : u ≠ source) : (relational s).Keeps u (relational (s.replaced source b)) := by
  have hnew : (normalize source b).filter (fun r => r.source = u) = [] := by
    rw [List.filter_eq_nil_iff]
    intro r hr
    rw [source_of_mem_normalize hr, decide_eq_true_eq]
    exact hu.symm
  have hold : (s.records.filter fun r => r.source ≠ source).filter (fun r => r.source = u) =
      s.records.filter fun r => r.source = u := by
    rw [List.filter_filter]
    refine List.filter_congr fun r _ => ?_
    by_cases hr : r.source = u <;> simp [hr, hu]
  change ((s.records.filter fun r => r.source ≠ source) ++ normalize source b).filter
    (fun r => r.source = u) = s.records.filter fun r => r.source = u
  rw [List.filter_append, hnew, hold, List.append_nil]

theorem keeps_insertion {s : KeyValueStore} {commits : List KeyValueStore.Commit}
    (h : s.insertion source b batchSize = .ok commits) {u : Source} (hu : u ≠ source) :
    (keyValue s).Keeps u (keyValue (s.commitAll commits)) := by
  refine ⟨?_, fun hsound e he hrow => ?_⟩
  · rw [KeyValueStore.manifest_insertion h, if_neg hu]
  · rw [KeyValueStore.setRow_mem_insertion hsound h (hsound.regular u e he)]
    exact ⟨Or.inr hrow, fun hstale => hstale.2.2 u hu he⟩

theorem of_insert_eq_ok (h : s.insert source b batchSize = .ok (t, n)) :
    s.checkIntake batchSize = .ok () ∧ n = (normalize source b).length ∧ t.stamp = s.stamp ∧
      ∀ u, u ≠ source → s.Keeps u t := by
  rw [checkIntake_eq_gate]
  cases s with
  | relational s =>
    obtain ⟨⟨t, n⟩, hinsert, hresult⟩ := bind_eq_ok_iff.mp h
    obtain ⟨rfl, rfl⟩ := Prod.mk.inj (Except.ok.inj hresult)
    obtain ⟨hgate, rfl, hn⟩ := RelationalStore.eq_replaced_of_insert hinsert
    exact ⟨hgate, hn, rfl, fun u hu => keeps_replaced s source b hu⟩
  | keyValue s =>
    obtain ⟨⟨t, n⟩, hinsert, hresult⟩ := bind_eq_ok_iff.mp h
    obtain ⟨rfl, rfl⟩ := Prod.mk.inj (Except.ok.inj hresult)
    obtain ⟨commits, hcommits, rfl, hn⟩ := KeyValueStore.insert_eq_ok_iff.mp hinsert
    obtain ⟨hcurrent, hsize, _⟩ := KeyValueStore.insertion_eq_ok_iff.mp hcommits
    exact ⟨KeyValueStore.gate_eq_ok_iff.mpr ⟨hcurrent, hsize⟩, hn,
      KeyValueStore.stamp_insertion hcommits, fun u hu => keeps_insertion hcommits hu⟩

theorem stamp_of_leftByFailure (h : s.LeftByFailure source b batchSize t) :
    t.stamp = s.stamp := by
  obtain rfl | ⟨kv, commits, k, rfl, hcommits, hk, rfl⟩ := h
  · rfl
  · exact KeyValueStore.stamp_of_hashes (KeyValueStore.hashes_broken hcommits hk)

structure Renewed (s : Store) (source : Source) (b : Batch) (batchSize : Nat)
    (report : RefreshReport) (after : Store) : Prop where
  batches : ∃ t stamp, s.insert source b batchSize = .ok (t, report.inserted) ∧
    s.stamp = .ok stamp ∧ after = t.writeStamp (stamp.touched report.fetchedAt) ∧
    after.SameBatches t
  version : after.storedVersion = s.storedVersion
  time : report.fetchedAt.Storable → ∃ stamp, after.stamp = .ok stamp ∧
    stamp.lastFetchedAt = report.fetchedAt
  others : ∀ u, u ≠ source → s.Keeps u after
  counts : report.source = source ∧ report.activeEntries = b.active.length ∧
    report.deprecatedEntries = b.deprecated.length ∧
    report.inserted = (normalize source b).length

theorem renewed (hcheck : s.checkIntake batchSize = .ok ())
    (hinsert : s.insert source b batchSize = .ok (t, (normalize source b).length))
    (hstamp : s.stamp = .ok stamp) (now : Timestamp) :
    Renewed s source b batchSize
      ⟨source, b.active.length, b.deprecated.length, (normalize source b).length, now⟩
      (t.writeStamp (stamp.touched now)) := by
  obtain ⟨_, _, _, hothers⟩ := of_insert_eq_ok hinsert
  have hlatest := (checkIntake_eq_ok_iff.mp hcheck).1
  rw [storedVersion_of_stamp hstamp, Option.some.injEq] at hlatest
  have hversion : (stamp.touched now).schemaVersion ≤ max32 := hlatest.trans_le (by decide)
  exact {
    batches := ⟨t, stamp, hinsert, hstamp, rfl, sameBatches_writeStamp t _⟩
    version := by
      rw [storedVersion_writeStamp t hversion, storedVersion_of_stamp hstamp]
      rfl
    time := fun hnow => ⟨_, stamp_writeStamp t hversion hnow, rfl⟩
    others := fun u hu => (hothers u hu).writeStamp _
    counts := ⟨rfl, rfl, rfl, rfl⟩ }

section

variable {ν : Type} {fetch : ν → Ending Batch × ν} {world : ν}

/-- What a refresh comes to: it is refused before it fetches, or it fails without a trace in the
store, or it takes in what the fetch has brought. -/
theorem refresh_cases (s : Store) (source : Source) (fetch : ν → Ending Batch × ν) (world : ν)
    (batchSize : Nat) (now : Timestamp) :
    (∃ e, s.checkIntake batchSize = .error e ∧
      s.refresh source fetch world batchSize now = ⟨.error (.store e), s, world⟩) ∨
    (s.checkIntake batchSize = .ok () ∧
      (∀ b, (fetch world).1 = .done b → ∀ result, s.insert source b batchSize ≠ .ok result) ∧
      ∃ e, s.refresh source fetch world batchSize now = ⟨.error e, s, (fetch world).2⟩) ∨
    ∃ b t stamp, s.checkIntake batchSize = .ok () ∧ (fetch world).1 = .done b ∧
      s.insert source b batchSize = .ok (t, (normalize source b).length) ∧
      s.stamp = .ok stamp ∧ s.refresh source fetch world batchSize now =
        ⟨.ok ⟨source, b.active.length, b.deprecated.length, (normalize source b).length, now⟩,
          t.writeStamp (stamp.touched now), (fetch world).2⟩ := by
  rw [refresh]
  cases hcheck : s.checkIntake batchSize with
  | error e => exact Or.inl ⟨e, rfl, rfl⟩
  | ok _ =>
    obtain ⟨ending, after⟩ := fetch world
    cases ending with
    | failed e => exact Or.inr (Or.inl ⟨rfl, nofun, .fetch e, rfl⟩)
    | broken reason => exact Or.inr (Or.inl ⟨rfl, nofun, .broken reason, rfl⟩)
    | done b =>
      cases hinsert : s.insert source b batchSize with
      | error e =>
        refine Or.inr (Or.inl ⟨rfl, ?_, .store e, by simp only [takeIn, hinsert]⟩)
        intro c hc result hok
        rw [← Ending.done.inj hc, hinsert] at hok
        cases hok
      | ok result =>
        obtain ⟨t, n⟩ := result
        obtain ⟨_, rfl, hsame, _⟩ := of_insert_eq_ok hinsert
        obtain ⟨_, ⟨stamp, hstamp⟩, _⟩ := checkIntake_eq_ok_iff.mp hcheck
        refine Or.inr (Or.inr ⟨b, t, stamp, rfl, rfl, hinsert, hstamp, ?_⟩)
        simp only [takeIn, hinsert, hsame, hstamp]

theorem counted_refresh (s : Store) (source : Source) (fetch : ν → Ending Batch × ν) (world : ν)
    (batchSize : Nat) (now : Timestamp) :
    (s.refresh source (counted fetch) (world, 0) batchSize now).world.2 =
      if s.checkIntake batchSize = .ok () then 1 else 0 := by
  rcases s.refresh_cases source (counted fetch) (world, 0) batchSize now with
    ⟨e, hcheck, hdone⟩ | ⟨hcheck, _, e, hdone⟩ | ⟨b, t, stamp, hcheck, _, _, _, hdone⟩
  all_goals
    rw [hdone, hcheck]
    rfl

theorem store_of_refresh_eq_error {e : RefreshError}
    (h : (s.refresh source fetch world batchSize now).outcome = .error e) :
    (s.refresh source fetch world batchSize now).store = s := by
  rcases s.refresh_cases source fetch world batchSize now with
    ⟨_, _, hdone⟩ | ⟨_, _, _, hdone⟩ | ⟨b, t, stamp, _, _, _, _, hdone⟩
  · rw [hdone]
  · rw [hdone]
  · rw [hdone] at h
    cases h

theorem refresh_eq_ok_iff :
    (∃ report, (s.refresh source fetch world batchSize now).outcome = .ok report) ↔
      ∃ b result, (fetch world).1 = .done b ∧ s.insert source b batchSize = .ok result := by
  rcases s.refresh_cases source fetch world batchSize now with
    ⟨e, hcheck, hdone⟩ | ⟨_, hnone, e, hdone⟩ | ⟨b, t, stamp, _, hfetch, hinsert, _, hdone⟩
  · rw [hdone]
    refine iff_of_false (fun ⟨_, h⟩ => nomatch h) ?_
    rintro ⟨b, ⟨t, n⟩, _, hok⟩
    rw [(of_insert_eq_ok hok).1] at hcheck
    cases hcheck
  · rw [hdone]
    refine iff_of_false (fun ⟨_, h⟩ => nomatch h) ?_
    rintro ⟨b, result, hfetch, hok⟩
    exact hnone b hfetch result hok
  · rw [hdone]
    exact iff_of_true ⟨_, rfl⟩ ⟨b, _, hfetch, hinsert⟩

theorem exists_renewed {report : RefreshReport}
    (h : (s.refresh source fetch world batchSize now).outcome = .ok report) :
    ∃ b, (fetch world).1 = .done b ∧
      Renewed s source b batchSize report (s.refresh source fetch world batchSize now).store ∧
      report.fetchedAt = now := by
  rcases s.refresh_cases source fetch world batchSize now with
    ⟨_, _, hdone⟩ | ⟨_, _, _, hdone⟩ | ⟨b, t, stamp, hcheck, hfetch, hinsert, hstamp, hdone⟩
  · rw [hdone] at h
    cases h
  · rw [hdone] at h
    cases h
  · rw [hdone] at h ⊢
    obtain rfl := Except.ok.inj h
    exact ⟨b, hfetch, renewed hcheck hinsert hstamp now, rfl⟩

/-- A refresh fetches once if the schema version in the store is the latest one, the stamp can be
read and batches are not empty, and not at all otherwise. If it fails, the store is as it was; an
insertion that broke off between two commits has not touched the stamp, either. It succeeds
exactly if the fetch brings a batch that can be inserted, and then the store is renewed. -/
theorem refresh_effects (s : Store) (source : Source) (fetch : ν → Ending Batch × ν)
    (world : ν) (batchSize : Nat) (now : Timestamp) :
    let done := s.refresh source (counted fetch) (world, 0) batchSize now
    (done.world.2 ≤ 1 ∧ (done.world.2 = 1 ↔
      s.storedVersion = some Stamp.latestSchemaVersion ∧ (∃ stamp, s.stamp = .ok stamp) ∧
        1 ≤ batchSize)) ∧
    (∀ e, done.outcome = .error e → done.store = s) ∧
    (∀ b t, s.LeftByFailure source b batchSize t → t.stamp = s.stamp) ∧
    ((∃ report, done.outcome = .ok report) ↔
      ∃ b result, (fetch world).1 = .done b ∧ s.insert source b batchSize = .ok result) ∧
    ∀ report, done.outcome = .ok report → ∃ b, (fetch world).1 = .done b ∧
      Renewed s source b batchSize report done.store ∧ report.fetchedAt = now := by
  refine ⟨?_, fun e => store_of_refresh_eq_error, fun b t => stamp_of_leftByFailure,
    refresh_eq_ok_iff, fun report => exists_renewed⟩
  rw [counted_refresh, ← checkIntake_eq_ok_iff]
  split
  · next h => exact ⟨le_refl 1, iff_of_true rfl h⟩
  · next h => exact ⟨Nat.zero_le 1, iff_of_false Nat.zero_ne_one h⟩

end

theorem refresh_effects_first :
    let now : Timestamp := ⟨1700000000, 0⟩
    let done := (keyValue .fresh).refresh .nvd
      (counted fun _ => (.done KeyValueStore.singleProduct, ())) ((), 0) 1 now
    now.Storable ∧ done.world.2 = 1 ∧ (∃ report, done.outcome = .ok report) ∧
      ∃ stamp, done.store.stamp = .ok stamp ∧ stamp.lastFetchedAt = now := by
  intro now done
  have hnow : now.Storable := ⟨by decide +kernel, by decide, by decide⟩
  have hstamp : (keyValue .fresh).stamp = .ok .fresh := KeyValueStore.stamp_fresh
  have hinsert : (keyValue .fresh).insert .nvd KeyValueStore.singleProduct 1 =
      .ok (keyValue (KeyValueStore.fresh.commitAll KeyValueStore.firstCommits),
        (normalize .nvd KeyValueStore.singleProduct).length) :=
    bind_eq_ok_iff.mpr ⟨_, KeyValueStore.insert_eq_ok_iff.mpr
      ⟨_, KeyValueStore.insertion_first, rfl, rfl⟩, rfl⟩
  obtain ⟨⟨_, hcalls⟩, _, _, hok, hrenewed⟩ := refresh_effects (keyValue .fresh) .nvd
    (fun _ => (.done KeyValueStore.singleProduct, ())) () 1 now
  obtain ⟨report, hreport⟩ := hok.mpr ⟨_, _, rfl, hinsert⟩
  obtain ⟨b, _, hafter, htime⟩ := hrenewed report hreport
  refine ⟨hnow, hcalls.mpr ⟨storedVersion_of_stamp hstamp, ⟨_, hstamp⟩, le_refl 1⟩,
    ⟨report, hreport⟩, ?_⟩
  rw [← htime]
  exact hafter.time (htime ▸ hnow)

def farStamp : Stamp := ⟨Stamp.currentRevision, Stamp.latestSchemaVersion, ⟨253402300800, 0⟩⟩

theorem stored_farStamp : farStamp.lastFetchedAt.stored = "+10000-01-01T00:00:00+00:00" := by
  have hdate : farStamp.lastFetchedAt.date = ⟨10000, 1, 1⟩ := by decide +kernel
  have hclock : farStamp.lastFetchedAt.clock = ⟨0, 0, 0, 0⟩ := by decide +kernel
  simp only [Timestamp.stored, Timestamp.write, hdate, hclock]
  decide +kernel

theorem readStrict_farStamp :
    Timestamp.readStrict farStamp.lastFetchedAt.stored = .error .invalid := by
  rw [stored_farStamp]
  rfl

/-- It is not so that a refresh fetches whenever the schema version in the store is the latest one.
A time that cannot be read stops it as well. -/
theorem not_fetches_iff_latest :
    ¬∀ (s : Store) (source : Source) (fetch : Unit → Ending Batch × Unit) (batchSize : Nat)
      (now : Timestamp),
      (s.refresh source (counted fetch) ((), 0) batchSize now).world.2 = 1 ↔
        s.storedVersion = some Stamp.latestSchemaVersion ∧ 1 ≤ batchSize := by
  intro hall
  have hsmall : farStamp.schemaVersion ≤ max32 := by decide
  have hfetches := (hall ((fresh .relational).writeStamp farStamp) .nvd
    (fun _ => (.done {}, ())) 1 .epoch).mpr ⟨storedVersion_writeStamp _ hsmall, le_refl 1⟩
  rw [counted_refresh, if_neg] at hfetches
  · cases hfetches
  · intro hcheck
    obtain ⟨_, ⟨found, hfound⟩, _⟩ := checkIntake_eq_ok_iff.mp hcheck
    exact stamp_writeStamp_ne_ok _ hsmall readStrict_farStamp found hfound

end Store

end PlatformCatalog
