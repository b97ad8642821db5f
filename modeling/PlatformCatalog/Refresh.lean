import PlatformCatalog.Fetch.Error
import PlatformCatalog.Store.Backend

/-!
# Refreshing a source

A refresh fetches a source and puts what it brings in the place of the
source's last batch. A store that could not take the batch in is found out
before anything is fetched, and the time of the stamp moves only once the
batch is in.
-/

set_option autoImplicit false

namespace PlatformCatalog

open Time

inductive RefreshError where
  | fetch (e : FetchError)
  | store (e : StoreError)
  | broken (reason : String)
  deriving Repr

namespace RefreshError

def message : RefreshError → String
  | .fetch e => "fetch failed: " ++ e.message
  | .store e => "ingestion failed: " ++ e.message
  | .broken reason => "blocking task failed: " ++ reason

def causes : RefreshError → List String
  | .fetch e => e.message :: e.causes
  | .store e => e.message :: e.causes
  | .broken reason => [reason]

end RefreshError

structure RefreshReport where
  source : Source
  activeEntries : Nat
  deprecatedEntries : Nat
  inserted : Nat
  fetchedAt : Timestamp
  deriving DecidableEq, Repr

structure Refreshed (ν : Type) where
  outcome : Except RefreshError RefreshReport
  store : Store
  world : ν

def Store.checkIntake (s : Store) (batchSize : Nat) : Except StoreError Unit := do
  s.checkSchema
  Stamp.checkBatchSize batchSize

/-- Takes in what a fetch has brought, and stamps the store. -/
def Store.takeIn (s : Store) (source : Source) (b : Batch) (batchSize : Nat) (now : Timestamp) :
    Except RefreshError RefreshReport × Store :=
  match s.insert source b batchSize with
  | .error e => (.error (.store e), s)
  | .ok (s, inserted) =>
    match s.stamp with
    | .error e => (.error (.store e), s)
    | .ok stamp =>
      (.ok ⟨source, b.active.length, b.deprecated.length, inserted, now⟩,
        s.writeStamp (stamp.touched now))

def Store.refresh {ν : Type} (s : Store) (source : Source) (fetch : ν → Ending Batch × ν)
    (world : ν) (batchSize : Nat) (now : Timestamp) : Refreshed ν :=
  match s.checkIntake batchSize with
  | .error e => ⟨.error (.store e), s, world⟩
  | .ok () =>
    let (ending, world) := fetch world
    match ending with
    | .failed e => ⟨.error (.fetch e), s, world⟩
    | .broken reason => ⟨.error (.broken reason), s, world⟩
    | .done b =>
      let (outcome, s) := s.takeIn source b batchSize now
      ⟨outcome, s, world⟩

end PlatformCatalog
