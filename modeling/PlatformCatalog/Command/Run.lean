import PlatformCatalog.Command.Invocation
import PlatformCatalog.Fetch.Fetcher
import PlatformCatalog.Json.Printer
import PlatformCatalog.Query
import PlatformCatalog.Record.Listing
import PlatformCatalog.Refresh
import PlatformCatalog.Settings

/-!
# Running a command

What a command prints and with which code it ends, and what becomes of the
store that it opens. Failures are told with the chain of their causes.
-/

set_option autoImplicit false

namespace PlatformCatalog.Command

open Time

structure Surroundings where
  site : String → Store.Site
  dataDirectory : String
  network : Network
  now : Timestamp
  threads : Nat

structure Output where
  code : Nat
  out : String := ""
  err : String := ""
  deriving DecidableEq, Repr

structure Outcome where
  output : Output
  written : Option (String × Store) := none

def indented (indent s : String) : String :=
  String.ofList (s.toList.flatMap fun c => if c = '\n' then '\n' :: indent.toList else [c])

def numbered (i : Nat) (cause : String) : List String → List String
  | [] => [numberedLine i cause]
  | next :: rest => numberedLine i cause :: numbered (i + 1) next rest
where
  numberedLine (i : Nat) (cause : String) : String :=
    "    " ++ toString i ++ ": " ++ indented "       " cause

/-- One cause stands alone, several are numbered. -/
def causeLines : List String → List String
  | [] => []
  | [cause] => ["    " ++ indented "    " cause]
  | cause :: rest => numbered 0 cause rest

def report (context : String) (causes : List String) : String :=
  let lines := causeLines causes
  "Error: " ++ context ++ "\n" ++
    (if lines.isEmpty then "" else "\nCaused by:\n" ++ "\n".intercalate lines ++ "\n")

def failure (context : String) (causes : List String) : Output :=
  { code := 1, err := report context causes }

def settings (s : Surroundings) (i : Invocation) : FetchSettings :=
  { threads := i.threads.getD s.threads, wait := i.wait * 1000, batchSize := i.batchSize,
    proxy := i.proxy }

def path (s : Surroundings) (i : Invocation) : String :=
  Settings.path s.dataDirectory i.backend i.path

def openFailure (path : String) (e : StoreError) : Output :=
  let context := if e = .locked then path ++ " is in use by another process"
    else "Failed to open " ++ path
  failure context (e.message :: e.causes)

def withStore (s : Surroundings) (i : Invocation) (use : Store → Output) : Outcome :=
  match Store.openAt i.backend (path s i) (s.site (path s i)) with
  | .error e => { output := openFailure (path s i) e }
  | .ok store => { output := use store, written := some (path s i, store) }

def printed (v : Json) : Output := { code := 0, out := v.pretty ++ "\n" }

def searched : Except QueryError (List Entry) → Output
  | .ok found => printed (.list (found.map Entry.toJson))
  | .error e => failure "Fuzzy search failed" [e.message]

def fetcher (a : Addresses) (now : Timestamp) : Source → Fetcher
  | .nvd => .nvd a.dictionary a.criteria
  | .jvn => .jvn a.feedBase now.date.year
  | .vuls => .vuls a.annotations

/-- A fetch whose records are listed and not stored. -/
def fetchListing (source : Source) : Ending Batch → Output
  | .done b => { code := 0, out := listing (normalize source b) }
  | .failed e => failure ("Failed to fetch " ++ source.name ++ " CPEs") (e.message :: e.causes)
  | .broken reason => { code := 101, err := reason ++ "\n" }

def refreshed (source : Source) : Except RefreshError RefreshReport → Output
  | .ok _ => { code := 0 }
  | .error (.broken reason) => { code := 101, err := reason ++ "\n" }
  | .error e => failure ("Failed to refresh " ++ source.name ++ " CPEs") (e.message :: e.causes)

def fetch (s : Surroundings) (i : Invocation) (source : Source) (isListing : Bool) : Outcome :=
  let settings := settings s i
  match settings.checkProxy with
  | .error e => { output := failure "Failed to create HTTP client" (e.message :: e.causes) }
  | .ok () =>
    let run := (fetcher settings.addresses s.now source).run settings.limits settings.retry
    if isListing then { output := fetchListing source (run s.network).1 }
    else match Store.openAt i.backend (path s i) (s.site (path s i)) with
      | .error e => { output := openFailure (path s i) e }
      | .ok store =>
        let r := store.refresh source run s.network i.batchSize s.now
        { output := refreshed source r.outcome, written := some (path s i, r.store) }

def perform (s : Surroundings) (i : Invocation) : Outcome :=
  match (settings s i).check with
  | .error e => { output := failure "Invalid configuration" [e.message] }
  | .ok () =>
    match i.request with
    | .fetch source isListing => fetch s i source isListing
    | .products => withStore s i fun store => printed store.productsAnswer.toJson
    | .uris p => withStore s i fun store => printed (store.urisAnswer p).toJson
    | .search query n algorithm byProduct =>
      withStore s i fun store => searched (store.search byProduct ⟨query, n, algorithm⟩)

def usage : String := "Usage: cpe-dictionary [OPTIONS] <COMMAND>\n"

def version : String := "cpe-dictionary " ++ Stamp.currentRevision ++ "\n"

def run (s : Surroundings) (words : List String) : Outcome :=
  match Invocation.parse words with
  | .error .help => { output := { code := 0, out := usage } }
  | .error .version => { output := { code := 0, out := version } }
  | .error .usage => { output := { code := 2, err := usage } }
  | .ok i => perform s i

end PlatformCatalog.Command
