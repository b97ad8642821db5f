import PlatformCatalog.Proofs.History
import PlatformCatalog.Proofs.Normalization
import PlatformCatalog.Proofs.ReadNames
import PlatformCatalog.Proofs.Stamps

/-!
# Histories of a relational store

An insertion deletes the source's records and puts those of the batch at the
end. None of its statements can fail, so the table always holds the records
of the last batches.
-/

set_option autoImplicit false

namespace PlatformCatalog

def Latest.Brings (latest : Latest) (r : Record) : Prop :=
  ∃ source b, latest source = some b ∧ r ∈ normalize source b

namespace Latest

variable {latest : Latest}

theorem not_brings_none (r : Record) : ¬Latest.none.Brings r := by
  intro h
  obtain ⟨_, _, h, _⟩ := h
  cases h

theorem brings_put (latest : Latest) (source : Source) (b : Batch) (r : Record) :
    (latest.put source b).Brings r ↔
      latest.Brings r ∧ r.source ≠ source ∨ r ∈ normalize source b := by
  constructor
  · intro h
    obtain ⟨u, c, hu, hr⟩ := h
    by_cases hus : u = source
    · subst hus
      rw [put_self] at hu
      obtain rfl := Option.some.inj hu
      exact Or.inr hr
    · rw [put_of_ne latest b hus] at hu
      left
      constructor
      · exact ⟨u, c, hu, hr⟩
      · rwa [source_of_mem_normalize hr]
  · intro h
    rcases h with ⟨⟨u, c, hu, hr⟩, hsource⟩ | hr
    · rw [source_of_mem_normalize hr] at hsource
      exact ⟨u, c, (put_of_ne latest b hsource).trans hu, hr⟩
    · exact ⟨source, b, put_self latest source b, hr⟩

end Latest

namespace RelationalStore

variable {s : RelationalStore} {latest : Latest}

structure Tracks (s : RelationalStore) (latest : Latest) : Prop where
  records : ∀ r, r ∈ s.records ↔ latest.Brings r
  refused : s.refused = []

def replaced (s : RelationalStore) (source : Source) (b : Batch) : RelationalStore :=
  { s with records := s.records.filter (fun r => r.source ≠ source) ++ normalize source b }

theorem Tracks.replaced (h : s.Tracks latest) (source : Source) (b : Batch) :
    (s.replaced source b).Tracks (latest.put source b) where
  records r := by
    rw [Latest.brings_put, ← h.records r]
    simp [RelationalStore.replaced]
  refused := h.refused

theorem Tracks.writeStamp (h : s.Tracks latest) (stamp : Stamp) :
    (s.writeStamp stamp).Tracks latest where
  records := h.records
  refused := h.refused

theorem executeAll_append (s : RelationalStore) (xs ys : List Statement) :
    s.executeAll (xs ++ ys) = (s.executeAll xs).bind fun t => t.executeAll ys := by
  induction xs generalizing s with
  | nil => rfl
  | cons x xs ih =>
    rw [List.cons_append, executeAll, executeAll]
    cases s.execute x with
    | error e => rfl
    | ok t => exact ih t

theorem executeAll_delete (s : RelationalStore) (batches : List (List Record)) :
    s.executeAll (batches.map .delete) =
      .ok { s with records := s.records.filter fun r => !batches.flatten.contains r } := by
  induction batches generalizing s with
  | nil => simp [executeAll]
  | cons old rest ih =>
    have hfirst : s.execute (.delete old) =
        .ok { s with records := s.records.filter fun r => !old.contains r } := rfl
    rw [List.map_cons, executeAll, hfirst]
    refine (ih _).trans ?_
    rw [List.filter_filter]
    congr 3
    funext r
    simp [Bool.and_comm]

theorem executeAll_insert {s : RelationalStore} (hrefused : s.refused = []) {rs : List Record}
    (hnew : ∀ r ∈ rs, ∀ q ∈ s.records, ¬(q.source = r.source ∧ q.uri = r.uri))
    (hdistinct : rs.Pairwise fun q r => q.uri ≠ r.uri) :
    s.executeAll (rs.map .insert) = .ok { s with records := s.records ++ rs } := by
  induction rs generalizing s with
  | nil => simp [executeAll]
  | cons r rest ih =>
    obtain ⟨hr, hrest⟩ := List.pairwise_cons.mp hdistinct
    have hfree : (s.records.any fun q => q.source = r.source ∧ q.uri = r.uri) = false := by
      rw [List.any_eq_false]
      intro q hq
      simpa using hnew r (by simp) q hq
    have hfirst : s.execute (.insert r) = .ok { s with records := s.records ++ [r] } := by
      rw [execute, if_neg (by simp [hrefused]), hfree]
      rfl
    rw [List.map_cons, executeAll, hfirst]
    have hlater : ∀ q ∈ rest, ∀ p ∈ s.records ++ [r],
        ¬(p.source = q.source ∧ p.uri = q.uri) := by
      intro q hq p hp
      rcases List.mem_append.mp hp with hp | hp
      · exact hnew q (by simp [hq]) p hp
      · rw [List.mem_singleton.mp hp]
        intro hsame
        exact hr q hq hsame.2
    have hdone := ih (s := { s with records := s.records ++ [r] }) hrefused hlater hrest
    rw [List.append_assoc, List.singleton_append] at hdone
    exact hdone

/-- The rows can only go to the end of the table. -/
theorem eq_of_executeAll_insert {t : RelationalStore} {rs : List Record}
    (h : s.executeAll (rs.map .insert) = .ok t) : t = { s with records := s.records ++ rs } := by
  induction rs generalizing s with
  | nil =>
    rw [List.append_nil]
    exact (Except.ok.inj h).symm
  | cons r rest ih =>
    obtain ⟨u, hfirst, hrest⟩ := bind_eq_ok_iff.mp h
    rw [execute] at hfirst
    split_ifs at hfirst
    rw [ih hrest, ← Except.ok.inj hfirst, List.append_assoc, List.singleton_append]

theorem executeAll_statements_eq (s : RelationalStore) (source : Source) (records : List Record)
    (batchSize : Nat) :
    s.executeAll (s.statements source records batchSize) =
      ({ s with records := s.records.filter fun r => r.source ≠ source } :
        RelationalStore).executeAll (records.map .insert) := by
  have hkept : (s.records.filter fun r =>
      !(s.records.filter fun r => r.source = source).contains r) =
        s.records.filter fun r => r.source ≠ source := by
    apply List.filter_congr
    intro r hr
    simp [hr]
  rw [statements, executeAll_append, executeAll_delete, flatten_chunks, hkept]
  rfl

theorem executeAll_statements (hrefused : s.refused = []) (source : Source) (b : Batch)
    (batchSize : Nat) :
    s.executeAll (s.statements source (normalize source b) batchSize) =
      .ok (s.replaced source b) := by
  rw [executeAll_statements_eq]
  apply executeAll_insert
  · exact hrefused
  · intro r hr q hq hsame
    have hother : q.source ≠ source := by simpa using (List.mem_filter.mp hq).2
    exact hother (hsame.1.trans (source_of_mem_normalize hr))
  · exact pairwise_uri_normalize source b

theorem insert_eq (s : RelationalStore) (source : Source) (b : Batch) (batchSize : Nat) :
    s.insert source b batchSize = (Stamp.gate s.stamp batchSize).bind fun _ => do
      let t ← s.executeAll (s.statements source (normalize source b) batchSize)
      return (t, (normalize source b).length) := by
  rw [insert, Stamp.gate]
  cases s.stamp with
  | error e => rfl
  | ok stamp =>
    simp only [bind, Except.bind]
    cases stamp.checkSchema with
    | error e => rfl
    | ok u => cases Stamp.checkBatchSize batchSize <;> rfl

/-- Whatever the table held and refuses, an insertion that succeeds puts the batch in the place of
the source's records. -/
theorem eq_replaced_of_insert {t : RelationalStore} {source : Source} {b : Batch}
    {batchSize n : Nat} (h : s.insert source b batchSize = .ok (t, n)) :
    Stamp.gate s.stamp batchSize = .ok () ∧ t = s.replaced source b ∧
      n = (normalize source b).length := by
  rw [insert_eq] at h
  obtain ⟨_, hgate, h⟩ := bind_eq_ok_iff.mp h
  obtain ⟨u, hrun, hresult⟩ := bind_eq_ok_iff.mp h
  rw [executeAll_statements_eq] at hrun
  obtain ⟨rfl, rfl⟩ := Prod.mk.inj (Except.ok.inj hresult)
  exact ⟨hgate, eq_of_executeAll_insert hrun, rfl⟩

theorem Tracks.insert_eq (h : s.Tracks latest) (source : Source) (b : Batch) (batchSize : Nat) :
    s.insert source b batchSize = (Stamp.gate s.stamp batchSize).map fun _ =>
      (s.replaced source b, (normalize source b).length) := by
  rw [RelationalStore.insert_eq, executeAll_statements h.refused]
  cases Stamp.gate s.stamp batchSize <;> rfl

end RelationalStore

end PlatformCatalog
