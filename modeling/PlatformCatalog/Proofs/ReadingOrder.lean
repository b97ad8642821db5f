import Mathlib.Data.List.Forall2
import Mathlib.Data.List.Induction
import PlatformCatalog.Proofs.Normalization

/-!
# The order in which a batch is read

A batch is read identifier by identifier, all active ones before the
deprecated ones. An identifier that is the text of a name brings a record,
unless an earlier one has its URI. So the records stand in the order of the
earliest identifiers of their URIs.
-/

set_option autoImplicit false

namespace PlatformCatalog

/-- An identifier where it is read: under a title, among the active or the deprecated ones. -/
structure Reading where
  title : String
  identifier : String
  deprecated : Bool
  deriving DecidableEq, Repr

namespace Reading

def record? (source : Source) (x : Reading) : Option Record :=
  (Record.ofIdentifier source x.title x.identifier x.deprecated).toOption

def HasUri (x : Reading) (uri : String) : Prop :=
  ∃ n, Name.parse x.identifier = .ok n ∧ Uri.write n = uri

theorem hasUri_iff (source : Source) (x : Reading) (uri : String) :
    x.HasUri uri ↔ ∃ r, x.record? source = some r ∧ r.uri = uri := by
  rw [HasUri, record?, Record.ofIdentifier]
  cases Name.parse x.identifier with
  | error e => simp [Except.toOption]
  | ok n => simp [Except.toOption, Record.ofName]

theorem exists_record_iff (source : Source) (xs : List Reading) (uri : String) :
    (∃ r ∈ xs.filterMap (record? source), r.uri = uri) ↔ ∃ x ∈ xs, x.HasUri uri := by
  simp only [hasUri_iff source, List.mem_filterMap]
  constructor
  · rintro ⟨r, ⟨x, hx, hxr⟩, huri⟩
    exact ⟨x, hx, r, hxr, huri⟩
  · rintro ⟨x, hx, r, hxr, huri⟩
    exact ⟨r, ⟨x, hx, hxr⟩, huri⟩

end Reading

def readingsOf (deprecated : Bool) (entries : List Entry) : List Reading :=
  entries.flatMap fun e => e.identifiers.map fun identifier => ⟨e.title, identifier, deprecated⟩

def Batch.readings (b : Batch) : List Reading :=
  readingsOf false b.active ++ readingsOf true b.deprecated

theorem convert_eq_filterMap (source : Source) (entries : List Entry) (deprecated : Bool) :
    convert source entries deprecated =
      (readingsOf deprecated entries).filterMap (Reading.record? source) := by
  rw [convert, readingsOf, List.filterMap_flatMap]
  simp only [List.filterMap_map]
  rfl

theorem converted_eq_filterMap (source : Source) (b : Batch) :
    converted source b = b.readings.filterMap (Reading.record? source) := by
  rw [converted, convert_eq_filterMap, convert_eq_filterMap, Batch.readings, List.filterMap_append]

/-- The record is that of the reading at the place, and no earlier one has its URI. -/
structure StandsAt (source : Source) (xs : List Reading) (i : Nat) (r : Record) : Prop where
  read : ∃ x, xs[i]? = some x ∧
    Record.ofIdentifier source x.title x.identifier x.deprecated = .ok r
  earliest : ∀ j < i, ∀ y, xs[j]? = some y → ¬y.HasUri r.uri

theorem StandsAt.lt_length {source : Source} {xs : List Reading} {i : Nat} {r : Record}
    (h : StandsAt source xs i r) : i < xs.length := by
  obtain ⟨⟨x, hx, _⟩, _⟩ := h
  exact (List.getElem?_eq_some_iff.mp hx).1

theorem StandsAt.append {source : Source} {xs : List Reading} {i : Nat} {r : Record}
    (h : StandsAt source xs i r) (ys : List Reading) : StandsAt source (xs ++ ys) i r := by
  have hlength := h.lt_length
  obtain ⟨⟨x, hx, hr⟩, hearliest⟩ := h
  constructor
  · exact ⟨x, by rw [List.getElem?_append_left hlength, hx], hr⟩
  · intro j hj y hy
    rw [List.getElem?_append_left (Nat.lt_trans hj hlength)] at hy
    exact hearliest j hj y hy

theorem StandsAt.forall_lt_length {source : Source} {xs : List Reading} {places : List Nat}
    {rs : List Record} (h : List.Forall₂ (StandsAt source xs) places rs) :
    ∀ i ∈ places, i < xs.length := by
  induction h with
  | nil => simp
  | cons hfirst _ ih => exact List.forall_mem_cons.mpr ⟨hfirst.lt_length, ih⟩

/-- The records of what has been read stand at ascending places: the record of one more identifier
is put last, and stands at the last place. -/
theorem exists_places (source : Source) (xs : List Reading) :
    ∃ places : List Nat, places.Pairwise (· < ·) ∧
      List.Forall₂ (StandsAt source xs) places
        (keepFirst [] (xs.filterMap (Reading.record? source))) := by
  induction xs using List.reverseRecOn with
  | nil => exact ⟨[], .nil, .nil⟩
  | append_singleton xs x ih =>
    obtain ⟨places, hascending, hstand⟩ := ih
    -- Nothing is read before what was read already, so the earlier records keep their places.
    have hkept : List.Forall₂ (StandsAt source (xs ++ [x])) places
        (keepFirst [] (xs.filterMap (Reading.record? source))) :=
      hstand.imp fun _ _ h => h.append [x]
    rw [List.filterMap_append]
    cases hx : x.record? source with
    | none =>
      rw [List.filterMap_cons_none hx, List.filterMap_nil, List.append_nil]
      exact ⟨places, hascending, hkept⟩
    | some r =>
      obtain ⟨more, hmem, happend⟩ :=
        keepFirst_append [] (xs.filterMap (Reading.record? source)) [r]
      rw [List.filterMap_cons_some hx, List.filterMap_nil, happend, keepFirst, keepFirst]
      split
      · rw [List.append_nil]
        exact ⟨places, hascending, hkept⟩
      · next hnew =>
        have hrecord := toOption_eq_some_iff.mp hx
        refine ⟨places ++ [xs.length], ?_, List.rel_append hkept (.cons ⟨?_, ?_⟩ .nil)⟩
        · refine List.pairwise_append.mpr ⟨hascending, List.pairwise_singleton _ _, ?_⟩
          intro i hi j hj
          rw [List.mem_singleton.mp hj]
          exact StandsAt.forall_lt_length hstand i hi
        · exact ⟨x, List.getElem?_concat_length, hrecord⟩
        · intro j hj y hy huri
          rw [List.getElem?_append_left hj] at hy
          obtain ⟨q, hq, hqr⟩ := (Reading.hasUri_iff source y r.uri).mp huri
          refine hnew ((hmem r.uri).mpr (Or.inr (List.mem_map.mpr ⟨q, ?_, hqr⟩)))
          exact List.mem_filterMap.mpr ⟨y, List.mem_of_getElem? hy, hq⟩

/-- What a batch is brought to: records of different URIs, one for each URI that an identifier of
the batch has. Each is that of the earliest of these identifiers, in the order of reading, and is
deprecated exactly if no active one has its URI. -/
theorem normalize_reads_in_order (source : Source) (b : Batch) :
    (normalize source b).Pairwise (fun q r => q.uri ≠ r.uri) ∧
      (∀ uri, (∃ r ∈ normalize source b, r.uri = uri) ↔ ∃ x ∈ b.readings, x.HasUri uri) ∧
      (∃ places : List Nat, places.Pairwise (· < ·) ∧
        List.Forall₂ (StandsAt source b.readings) places (normalize source b)) ∧
      ∀ r ∈ normalize source b, r.deprecated = true ↔
        ¬∃ x ∈ readingsOf false b.active, x.HasUri r.uri := by
  have hconverted := converted_eq_filterMap source b
  refine ⟨pairwise_uri_normalize source b, fun uri => ?_, ?_, fun r hr => ?_⟩
  · rw [← Reading.exists_record_iff source, ← hconverted]
    constructor
    · rintro ⟨r, hr, huri⟩
      exact ⟨r, (keepFirst_sublist [] _).subset hr, huri⟩
    · rintro ⟨r, hr, rfl⟩
      exact exists_mem_keepFirst hr List.not_mem_nil
  · rw [normalize, ← converted, hconverted]
    exact exists_places source b.readings
  · rw [← Bool.not_eq_false, active_iff_of_mem_normalize hr, convert_eq_filterMap,
      Reading.exists_record_iff]

end PlatformCatalog
