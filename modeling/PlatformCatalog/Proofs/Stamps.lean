import PlatformCatalog.Proofs.Ingestion
import PlatformCatalog.Store.Relational

/-!
# Stamps in either store

A stamp is written as a row of a table or as fields of a hash. Both stores
read the same stamp back, or fail for the same reason.
-/

set_option autoImplicit false

namespace PlatformCatalog

open Text Time

namespace Text

theorem digit?_of_isDigit {c : Char} (h : c.isDigit = true) :
    digit? 10 c = some (c.toNat - '0'.toNat) := by
  have hrange : 48 ≤ c.toNat ∧ c.toNat ≤ 57 := by
    simpa [Char.isDigit, UInt32.le_iff_toNat_le] using h
  have hsmall : c.toNat - 48 < 10 := by omega
  simp only [digit?, if_pos hrange, if_pos hsmall]
  rfl

theorem digitsValue?_of_isDigit {cs : List Char} (h : ∀ c ∈ cs, c.isDigit = true) (acc : Nat) :
    digitsValue? 10 acc cs = some (Nat.ofDigitChars 10 cs acc) := by
  induction cs generalizing acc with
  | nil => rw [digitsValue?, Nat.ofDigitChars_nil]
  | cons c rest ih =>
    rw [digitsValue?, digit?_of_isDigit (h c (by simp)), Nat.ofDigitChars_cons]
    have hrest := ih (fun d hd => h d (by simp [hd])) (acc * 10 + (c.toNat - '0'.toNat))
    rw [Nat.mul_comm acc 10] at hrest
    rwa [Nat.mul_comm acc 10]

theorem isDigit_of_mem_toString {n : Nat} {c : Char} (h : c ∈ (toString n).toList) :
    c.isDigit = true := by
  rw [Nat.toString_eq_repr, Nat.toList_repr] at h
  exact Nat.isDigit_of_mem_toDigits (by omega) (by omega) h

theorem boundedNumeral_toString {n max : Nat} (h : n ≤ max) :
    boundedNumeral max (toString n).toList = .ok n := by
  have hvalue : digitsValue? 10 0 (toString n).toList = some n := by
    rw [digitsValue?_of_isDigit fun c hc => isDigit_of_mem_toString hc, Nat.toString_eq_repr,
      Nat.toList_repr, Nat.ofDigitChars_ten_toDigits]
  have hdigits : ∀ c ∈ (toString n).toList, c.isDigit = true :=
    fun c hc => isDigit_of_mem_toString hc
  have hne : (toString n).toList ≠ [] := by
    rw [Nat.toString_eq_repr, Nat.toList_repr]
    exact Nat.toDigits_ne_nil
  cases hcs : (toString n).toList with
  | nil => exact absurd hcs hne
  | cons c rest =>
    rw [hcs] at hvalue hdigits
    have hplus : c ≠ '+' := by
      intro hc
      have hdigit := hdigits c (by simp)
      rw [hc] at hdigit
      exact absurd hdigit (by decide)
    simp only [boundedNumeral, if_neg hplus, numeral?, hvalue, if_pos h]

end Text

/-- Failures for the same reason. A value that cannot be read lies in another place in another
store. -/
inductive StoreError.Alike : StoreError → StoreError → Prop
  | refl (e : StoreError) : Alike e e
  | corrupt (key key' reason : String) : Alike (.corrupt key reason) (.corrupt key' reason)

inductive Alike {α : Type} : Except StoreError α → Except StoreError α → Prop
  | ok (a : α) : Alike (.ok a) (.ok a)
  | error {d e : StoreError} : d.Alike e → Alike (.error d) (.error e)

theorem Alike.refl {α : Type} (result : Except StoreError α) : Alike result result := by
  cases result with
  | ok a => exact .ok a
  | error e => exact .error (.refl e)

theorem Alike.bind {α β : Type} {x y : Except StoreError α} {f g : α → Except StoreError β}
    (h : Alike x y) (hfg : ∀ a, Alike (f a) (g a)) : Alike (x >>= f) (y >>= g) := by
  cases h with
  | ok a => exact hfg a
  | error he => exact .error he

theorem Alike.gate {x y : Except StoreError Stamp} (h : Alike x y) (batchSize : Nat) :
    Alike (Stamp.gate x batchSize) (Stamp.gate y batchSize) :=
  h.bind fun _ => .refl _

theorem RelationalStore.stamp_writeStamp (s : RelationalStore) {stamp : Stamp}
    (h : stamp.schemaVersion ≤ max32) :
    (s.writeStamp stamp).stamp =
      match Timestamp.readStrict stamp.lastFetchedAt.stored with
      | .ok t => .ok ⟨stamp.revision, stamp.schemaVersion, t⟩
      | .error e => .error (.corrupt "fetch_meta.last_fetched_at" e.message) := by
  have hversion : (Cell.integer stamp.schemaVersion).natural? max32 =
      some stamp.schemaVersion := if_pos h
  cases hread : Timestamp.readStrict stamp.lastFetchedAt.stored with
  | ok t => simp only [RelationalStore.stamp, writeStamp, StampRow.ofStamp, hversion, hread]
  | error e => simp only [RelationalStore.stamp, writeStamp, StampRow.ofStamp, hversion, hread]

namespace KeyValueStore

theorem readVersion_toString {n : Nat} (h : n ≤ max32) : readVersion (toString n) = .ok n := by
  rw [readVersion, boundedNumeral_toString h]

theorem field?_writeStamp (s : KeyValueStore) (stamp : Stamp) (name : String) :
    (s.writeStamp stamp).field? stampKey name =
      if name = lastFetchedAtField then some stamp.lastFetchedAt.stored
      else if name = schemaVersionField then some (toString stamp.schemaVersion)
      else if name = revisionField then some stamp.revision
      else s.field? stampKey name := by
  rw [writeStamp, field?_setField, field?_setField, field?_setField]
  simp only [Prod.mk.injEq, true_and]

theorem stamp_writeStamp (s : KeyValueStore) {stamp : Stamp}
    (h : stamp.schemaVersion ≤ max32) :
    (s.writeStamp stamp).stamp =
      match Timestamp.readStrict stamp.lastFetchedAt.stored with
      | .ok t => .ok ⟨stamp.revision, stamp.schemaVersion, t⟩
      | .error e => .error (corruptStamp lastFetchedAtField e.message) := by
  have hversion : (s.writeStamp stamp).field? stampKey schemaVersionField =
      some (toString stamp.schemaVersion) := by
    rw [field?_writeStamp, if_neg (by decide), if_pos rfl]
  have htime : (s.writeStamp stamp).field? stampKey lastFetchedAtField =
      some stamp.lastFetchedAt.stored := by
    rw [field?_writeStamp, if_pos rfl]
  have hrevision : (s.writeStamp stamp).field? stampKey revisionField = some stamp.revision := by
    rw [field?_writeStamp, if_neg (by decide), if_neg (by decide), if_pos rfl]
  rw [KeyValueStore.stamp, hversion, htime, hrevision]
  cases hread : Timestamp.readStrict stamp.lastFetchedAt.stored with
  | ok t =>
    simp only [readVersion_toString h, readTime, hread]
    rfl
  | error e =>
    simp only [readVersion_toString h, readTime, hread]
    rfl

end KeyValueStore

theorem alike_stamp_writeStamp (r : RelationalStore) (k : KeyValueStore) {stamp : Stamp}
    (h : stamp.schemaVersion ≤ max32) :
    Alike (r.writeStamp stamp).stamp (k.writeStamp stamp).stamp := by
  rw [RelationalStore.stamp_writeStamp r h, KeyValueStore.stamp_writeStamp k h]
  cases Timestamp.readStrict stamp.lastFetchedAt.stored with
  | ok t => exact .ok _
  | error e => exact .error (.corrupt _ _ _)

end PlatformCatalog
