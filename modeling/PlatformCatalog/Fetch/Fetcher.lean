import PlatformCatalog.Fetch.Annotation
import PlatformCatalog.Fetch.Dictionary
import PlatformCatalog.Fetch.Feed
import PlatformCatalog.Fetch.Network
import PlatformCatalog.Fetch.Retry
import PlatformCatalog.Fetch.Schedule
import PlatformCatalog.Record.Source

/-!
# Fetching a source

The downloads of a source run as a batch. A batch of records is made only if
every download succeeds and can be read.
-/

set_option autoImplicit false

namespace PlatformCatalog

inductive Fetcher where
  | nvd (dictionary criteria : String)
  | jvn (base : String) (lastYear : Int)
  | vuls (address : String)
  deriving DecidableEq, Repr

namespace Fetcher

def source : Fetcher → Source
  | .nvd .. => .nvd
  | .jvn .. => .jvn
  | .vuls _ => .vuls

def download (p : RetryPolicy) (n : Network) (address : String) : Trial Body × Network :=
  let t := Trial.run p address (n.attempt address)
  (t, n.after address t.calls)

def downloads {α : Type} (p : RetryPolicy) (read : String → Body → Except FetchError α)
    (n : Network) : List String → List (Job α) × Network
  | [] => ([], n)
  | address :: rest =>
    let (t, n) := download p n address
    let (jobs, n) := downloads p read n rest
    (⟨t.elapsed, t.ending.bind (read address)⟩ :: jobs, n)

/-- The results of the jobs in their own order, whichever is done first. -/
def gather {α : Type} (l : Limits) (jobs : List (Job α)) : Except FetchError (List α) := do
  let indexed := jobs.zipIdx.map fun (job, i) => ⟨job.duration, job.ending.map (i, ·)⟩
  let results ← (Schedule.run l indexed).toResult
  return (results.mergeSort fun a b => a.1 ≤ b.1).map (·.2)

def documents (what : String) : Body → Except FetchError (List (List UInt8))
  | .archive a =>
    match a.documents? with
    | some ds => .ok ds
    | none => .error (.malformedEnvelope what "the archive is damaged")
  | .bytes _ => .error (.malformedEnvelope what "not an archive")

def ofArchives : List Body → Except FetchError Batch
  | [dictionary, criteria] => do
    let dictionary ← documents "NVD CPE dictionary archive" dictionary
    let criteria ← documents "NVD CPE match archive" criteria
    return Dictionary.build dictionary criteria
  | _ => .error (.taskAborted 1 "archive download missing")

def readFeed (address : String) (body : Body) : Except FetchError (List Feed.Listing) :=
  let what := "JVN feed " ++ address
  match body with
  | .archive _ => .error (.malformedEnvelope what "not a feed")
  | .bytes bs =>
    match Feed.parse bs with
    | .ok ls => .ok ls
    | .error reason => .error (.malformedEnvelope what reason)

def readAnnotations (body : Body) : Except FetchError Batch :=
  let what := "Vuls annotation list"
  match body with
  | .archive _ => .error (.malformedEnvelope what "not a list")
  | .bytes bs =>
    match Annotation.parse bs with
    | some b => .ok b
    | none => .error (.malformedEnvelope what "not a list of entries")

def ending {α : Type} : Except FetchError α → Ending α
  | .ok v => .done v
  | .error e => .failed e

def run (f : Fetcher) (l : Limits) (p : RetryPolicy) (n : Network) : Ending Batch × Network :=
  match f with
  | .nvd dictionary criteria =>
    let (jobs, n) := downloads p (fun _ body => .ok body) n [dictionary, criteria]
    (ending ((gather l jobs).bind ofArchives), n)
  | .jvn base lastYear =>
    let (jobs, n) := downloads p readFeed n (Feed.addresses base lastYear)
    (ending ((gather l jobs).map Feed.merge), n)
  | .vuls address =>
    let (t, n) := download p n address
    (t.ending.bind readAnnotations, n)

end Fetcher

end PlatformCatalog
