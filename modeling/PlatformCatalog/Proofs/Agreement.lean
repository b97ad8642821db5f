import PlatformCatalog.Proofs.Answers

/-!
# Stores that are given the same calls

A relational store and a key-value store that were made together and are
given the same calls give the same answers: to each call, and afterwards to
every question.
-/

set_option autoImplicit false

namespace PlatformCatalog

open Text Time

inductive Call where
  | takeIn (c : Intake)
  | restamp (revision : String) (schemaVersion : UInt32) (lastFetchedAt : Timestamp)
  deriving DecidableEq, Repr

namespace Store

/-- The store after a call, and the number of records that were taken in. A call that fails
changes nothing. -/
def serve (s : Store) : Call → Store × Except StoreError Nat
  | .takeIn c =>
    match s.insert c.source c.batch c.batchSize with
    | .ok (t, n) => (t, .ok n)
    | .error e => (s, .error e)
  | .restamp revision schemaVersion lastFetchedAt =>
    (s.writeStamp ⟨revision, schemaVersion.toNat, lastFetchedAt⟩, .ok 0)

def serveAll (s : Store) : List Call → Store × List (Except StoreError Nat)
  | [] => (s, [])
  | c :: rest =>
    let first := s.serve c
    let others := first.1.serveAll rest
    (others.1, first.2 :: others.2)

end Store

namespace Latest

def after (latest : Latest) : Call → Except StoreError Nat → Latest
  | .takeIn c, .ok _ => latest.put c.source c.batch
  | _, _ => latest

def afterAll (latest : Latest) : List Call → List (Except StoreError Nat) → Latest
  | c :: calls, answer :: answers => (latest.after c answer).afterAll calls answers
  | _, _ => latest

end Latest

/-- Both stores hold the last batches, and their stamps are alike. -/
structure Agree (r : RelationalStore) (k : KeyValueStore) (latest : Latest) : Prop where
  relational : r.Tracks latest
  keyValue : k.Tracks latest
  stamps : Alike r.stamp k.stamp

namespace Agree

variable {r : RelationalStore} {k : KeyValueStore} {latest : Latest}

theorem takeIn (h : Agree r k latest) (c : Intake) :
    ∃ r' k' a b, (Store.relational r).serve (.takeIn c) = (.relational r', a) ∧
      (Store.keyValue k).serve (.takeIn c) = (.keyValue k', b) ∧ Alike a b ∧
      Agree r' k' (latest.after (.takeIn c) a) := by
  obtain ⟨commits, hcommits⟩ :=
    h.keyValue.sound.exists_insertion_eq c.source c.batch c.batchSize
  have hrelational := h.relational.insert_eq c.source c.batch c.batchSize
  have hgate := h.stamps.gate c.batchSize
  generalize Stamp.gate r.stamp c.batchSize = x at hgate hrelational
  generalize Stamp.gate k.stamp c.batchSize = y at hgate hcommits
  cases hgate with
  | @error d e he =>
    have hinsert : k.insert c.source c.batch c.batchSize = .error e := by
      rw [KeyValueStore.insert, hcommits]
      rfl
    refine ⟨r, k, .error d, .error e, ?_, ?_, .error he, h⟩
    · simp [Store.serve, Store.insert, hrelational, Except.map, bind, Except.bind]
    · simp [Store.serve, Store.insert, hinsert, bind, Except.bind]
  | ok u =>
    have hplan : k.insertion c.source c.batch c.batchSize = .ok commits := hcommits
    have hinsert := KeyValueStore.insert_eq_ok_iff.mpr ⟨commits, hplan, rfl, rfl⟩
    have hstamps : Alike r.stamp (k.commitAll commits).stamp := by
      rw [KeyValueStore.stamp_insertion hplan]
      exact h.stamps
    refine ⟨r.replaced c.source c.batch, k.commitAll commits,
      .ok (normalize c.source c.batch).length, .ok (normalize c.source c.batch).length,
      ?_, ?_, .refl _, ?_⟩
    · simp [Store.serve, Store.insert, hrelational, Except.map, bind, Except.bind, pure,
        Except.pure]
    · simp [Store.serve, Store.insert, hinsert, bind, Except.bind, pure, Except.pure]
    · exact ⟨h.relational.replaced c.source c.batch, h.keyValue.insertion hplan, hstamps⟩

theorem restamp (h : Agree r k latest) (stamp : Stamp)
    (hversion : stamp.schemaVersion ≤ max32) :
    Agree (r.writeStamp stamp) (k.writeStamp stamp) latest where
  relational := h.relational.writeStamp stamp
  keyValue := h.keyValue.writeStamp stamp
  stamps := alike_stamp_writeStamp r k hversion

theorem serve (h : Agree r k latest) (c : Call) :
    ∃ r' k' a b, (Store.relational r).serve c = (.relational r', a) ∧
      (Store.keyValue k).serve c = (.keyValue k', b) ∧ Alike a b ∧
      Agree r' k' (latest.after c a) := by
  cases c with
  | takeIn c => exact h.takeIn c
  | restamp revision schemaVersion lastFetchedAt =>
    have hversion : schemaVersion.toNat ≤ max32 := Nat.le_of_lt_succ schemaVersion.toNat_lt
    exact ⟨_, _, .ok 0, .ok 0, rfl, rfl, .refl _,
      h.restamp ⟨revision, schemaVersion.toNat, lastFetchedAt⟩ hversion⟩

theorem serveAll (h : Agree r k latest) (calls : List Call) :
    ∃ r' k' as bs, (Store.relational r).serveAll calls = (.relational r', as) ∧
      (Store.keyValue k).serveAll calls = (.keyValue k', bs) ∧ List.Forall₂ Alike as bs ∧
      Agree r' k' (latest.afterAll calls as) := by
  induction calls generalizing r k latest with
  | nil => exact ⟨r, k, [], [], rfl, rfl, .nil, h⟩
  | cons c rest ih =>
    obtain ⟨r₁, k₁, a, b, hr, hk, hab, hfirst⟩ := h.serve c
    obtain ⟨r₂, k₂, as, bs, hrs, hks, hall, hlast⟩ := ih hfirst
    refine ⟨r₂, k₂, a :: as, b :: bs, ?_, ?_, .cons hab hall, hlast⟩
    · rw [Store.serveAll, hr, hrs]
    · rw [Store.serveAll, hk, hks]

theorem begin : Agree ((RelationalStore.mk [] none []).writeStamp .fresh) KeyValueStore.fresh
    Latest.none where
  relational := {
    records := fun r => by
      have hnone := Latest.not_brings_none r
      simp [RelationalStore.writeStamp, hnone]
    refused := rfl }
  keyValue := KeyValueStore.tracks_fresh
  stamps := alike_stamp_writeStamp _ {} (by decide)

end Agree

/-- Two stores just made, one of either kind, are given the same calls. They answer each call
alike, and afterwards every question equally. What they answer follows from the batches that were
taken in last. -/
theorem backends_agree (calls : List Call) :
    ∃ s t answers others, (Store.fresh .relational).serveAll calls = (s, answers) ∧
      (Store.fresh .keyValue).serveAll calls = (t, others) ∧
      List.Forall₂ Alike answers others ∧
      s.products = t.products ∧ (∀ uri, s.isDeprecated uri = t.isDeprecated uri) ∧
      (∀ query n a, s.similarTitles query n a = t.similarTitles query n a) ∧
      (∀ query n a, s.similarSearchTitles query n a = t.similarSearchTitles query n a) ∧
      s.Answers (Latest.none.afterAll calls answers) ∧
      t.Answers (Latest.none.afterAll calls answers) := by
  obtain ⟨r, k, answers, others, hr, hk, hall, hagree⟩ := Agree.begin.serveAll calls
  have hs := hagree.relational.answers
  have ht := hagree.keyValue.answers
  refine ⟨.relational r, .keyValue k, answers, others, hr, hk, hall, hs.products_eq ht,
    hs.isDeprecated_eq ht, ?_, ?_, hs, ht⟩
  · intro query n a
    rw [hs.similarTitles, ht.similarTitles]
  · intro query n a
    rw [hs.similarSearchTitles, ht.similarSearchTitles]

end PlatformCatalog
