import Mathlib.Data.List.Forall2
import Mathlib.Data.List.Nodup
import PlatformCatalog.Fetch.Fetcher
import PlatformCatalog.Proofs.BatchOutcome
import PlatformCatalog.Proofs.ReadNames

/-!
# Batches that are fetched

A fetch puts the results of its downloads back in their own order. So the
batch that it makes depends on how the downloads ended, and not on the order
in which they did, and a failed or unreadable download leaves no batch.
-/

set_option autoImplicit false

namespace PlatformCatalog

theorem Ending.map_eq_done_iff {α β : Type} {x : Ending α} {f : α → β} {w : β} :
    x.map f = .done w ↔ ∃ v, x = .done v ∧ f v = w := by
  cases x <;> simp [map]

theorem Ending.bind_eq_done_iff {α β : Type} {x : Ending α} {f : α → Except FetchError β} {w : β} :
    x.bind f = .done w ↔ ∃ v, x = .done v ∧ f v = .ok w := by
  cases x with
  | done v =>
    rw [bind]
    cases hv : f v <;> simp [hv]
  | failed e => simp [bind]
  | broken reason => simp [bind]

namespace Feed

def Listing.isProper (l : Listing) : Bool := (Uri.read l.uri).toOption.isSome

def firsts (ls : List Listing) : List Listing :=
  (ls.zipIdx.filter fun p =>
    p.1.isProper && decide (p.1.uri ∉ (ls.take p.2).map Listing.uri)).map Prod.fst

theorem keepFirst_eq (seen : List String) (ls : List Listing) :
    keepFirst seen ls = (ls.zipIdx.filter fun p =>
      p.1.isProper && decide (p.1.uri ∉ seen ++ (ls.take p.2).map Listing.uri)).map Prod.fst := by
  induction ls generalizing seen with
  | nil => rfl
  | cons l rest ih =>
    have hproper : (Uri.read l.uri).toOption.isNone = !l.isProper := by
      rw [Listing.isProper, Option.not_isSome]
    -- A later listing is the first of its URI in both lists, unless it has the URI of `l`.
    have hlater : ∀ others : List String, (∀ m ∈ rest, m.isProper = true →
          (m.uri ∈ others ↔ m.uri ∈ seen ∨ m.uri = l.uri)) →
        (rest.zipIdx.filter fun p =>
          p.1.isProper && decide (p.1.uri ∉ others ++ (rest.take p.2).map Listing.uri)) =
        rest.zipIdx.filter ((fun p : Listing × Nat => p.1.isProper &&
          decide (p.1.uri ∉ seen ++ ((l :: rest).take p.2).map Listing.uri)) ∘
            Prod.map id (· + 1)) := by
      intro others hothers
      apply List.filter_congr
      rintro ⟨m, i⟩ hm
      cases hm' : m.isProper with
      | false => simp [hm']
      | true =>
        have hmem := hothers m (List.fst_mem_of_mem_zipIdx hm) hm'
        simp [hm', hmem, or_assoc]
    rw [List.zipIdx_cons', List.filter_cons, List.filter_map, keepFirst]
    by_cases hskip : (Uri.read l.uri).toOption.isNone = true ∨ l.uri ∈ seen
    · rw [if_pos hskip, ih, hlater seen, if_neg, List.map_map]
      · rfl
      · simp only [List.take_zero, List.map_nil, List.append_nil, Bool.and_eq_true,
          decide_eq_true_eq, not_and, Classical.not_not]
        intro hl
        exact hskip.resolve_left (by simp [hproper, hl])
      · intro m _ hm
        refine ⟨Or.inl, fun h => h.elim id fun hsame => ?_⟩
        have hl : l.isProper = true := by rwa [Listing.isProper, ← hsame]
        rw [hsame]
        exact hskip.resolve_left (by simp [hproper, hl])
    · obtain ⟨hl, hnew⟩ := not_or.mp hskip
      rw [if_neg hskip, ih, hlater (l.uri :: seen), if_pos, List.map_cons, List.map_map]
      · rfl
      · simpa [hnew, hproper] using hl
      · intro m _ _
        simp [or_comm]

theorem merge_eq (feeds : List (List Listing)) :
    merge feeds = { active := (firsts feeds.flatten).map fun l => ⟨l.title, [l.uri]⟩ } := by
  rw [merge, keepFirst_eq]
  rfl

end Feed

namespace Fetcher

open Schedule

variable {α : Type} {l : Limits}

def placed (jobs : List (Job α)) : List (Job (Nat × α)) :=
  jobs.zipIdx.map fun (job, i) => ⟨job.duration, job.ending.map (i, ·)⟩

def inOrder (o : Outcome (Nat × α)) : Except FetchError (List α) := do
  let results ← o.toResult
  return (results.mergeSort fun a b => a.1 ≤ b.1).map (·.2)

theorem gather_eq (l : Limits) (jobs : List (Job α)) :
    gather l jobs = inOrder (Schedule.run l (placed jobs)) := rfl

theorem mergeSort_eq_of_perm {xs ys : List (Nat × α)} (h : xs.Perm ys)
    (hys : (ys.map Prod.fst).Pairwise (· < ·)) : (xs.mergeSort fun a b => a.1 ≤ b.1) = ys := by
  have hsorted : (xs.mergeSort fun a b => a.1 ≤ b.1).Pairwise fun a b => decide (a.1 ≤ b.1) := by
    refine List.pairwise_mergeSort ?_ ?_ xs
    · intro a b c hab hbc
      exact decide_eq_true (Nat.le_trans (of_decide_eq_true hab) (of_decide_eq_true hbc))
    · intro a b
      simp [Nat.le_total a.1 b.1]
  have hperm := (List.mergeSort_perm xs fun a b => decide (a.1 ≤ b.1)).trans h
  refine hperm.eq_of_pairwise ?_ hsorted ?_
  · intro a b ha hb hab hba
    have hsame : a.1 = b.1 :=
      Nat.le_antisymm (of_decide_eq_true hab) (of_decide_eq_true hba)
    exact List.inj_on_of_nodup_map (hys.imp Nat.ne_of_lt) (hperm.mem_iff.mp ha) hb hsame
  · exact (List.pairwise_map.mp hys).imp fun hlt => decide_eq_true (Nat.le_of_lt hlt)

theorem forall_exists_iff {β γ : Type} {R : β → γ → Prop} {xs : List β} :
    (∀ x ∈ xs, ∃ y, R x y) ↔ ∃ ys, List.Forall₂ R xs ys := by
  constructor
  · intro h
    induction xs with
    | nil => exact ⟨[], .nil⟩
    | cons x xs ih =>
      obtain ⟨⟨y, hy⟩, hrest⟩ := List.forall_mem_cons.mp h
      obtain ⟨ys, hys⟩ := ih hrest
      exact ⟨y :: ys, .cons hy hys⟩
  · rintro ⟨ys, hys⟩
    induction hys with
    | nil => simp
    | cons hy _ ih => exact List.forall_mem_cons.mpr ⟨⟨_, hy⟩, ih⟩

def AllDone (jobs : List (Job α)) (vs : List α) : Prop :=
  List.Forall₂ (fun job v => job.ending = .done v) jobs vs

theorem AllDone.map_ending {jobs : List (Job α)} {vs : List α} (h : AllDone jobs vs) :
    jobs.map Job.ending = vs.map Ending.done := by
  induction h with
  | nil => rfl
  | cons hv _ ih => rw [List.map_cons, List.map_cons, hv, ih]

theorem forall_done_placed_iff {jobs : List (Job α)} :
    (∀ job ∈ placed jobs, ∃ v, job.ending = .done v) ↔ ∀ job ∈ jobs, ∃ v, job.ending = .done v := by
  conv_rhs => rw [← List.zipIdx_map_fst 0 jobs]
  simp only [placed, List.forall_mem_map, Ending.map_eq_done_iff]
  refine forall₂_congr fun p _ => ⟨?_, ?_⟩
  · rintro ⟨_, v, hv, _⟩
    exact ⟨v, hv⟩
  · rintro ⟨v, hv⟩
    exact ⟨_, v, hv, rfl⟩

theorem values_placed {jobs : List (Job α)} {vs : List α} (h : AllDone jobs vs) :
    (placed jobs).filterMap (fun job => job.ending.value?) = vs.zipIdx.map Prod.swap := by
  have hplaced : (placed jobs).filterMap (fun job => job.ending.value?) =
      (jobs.map Job.ending).zipIdx.filterMap fun p => (p.1.map (p.2, ·)).value? := by
    rw [placed, List.filterMap_map, List.zipIdx_map, List.filterMap_map]
    rfl
  rw [hplaced, h.map_ending, List.zipIdx_map, List.filterMap_map]
  exact congrFun (List.filterMap_eq_map (f := Prod.swap)) vs.zipIdx

theorem inOrder_eq_ok_iff {jobs : List (Job α)} {s : State (Nat × α)}
    (hreach : Reachable l (placed jobs) s) (hover : s.isOver l = true)
    (htime : (s.outcome l (placed jobs).length).timedOut = none) (vs : List α) :
    inOrder (s.outcome l (placed jobs).length) = .ok vs ↔ AllDone jobs vs := by
  obtain ⟨ended, hsound⟩ := hreach.sound
  have hdone : s.isDone = true := by
    cases hdone : s.isDone with
    | true => rfl
    | false => simp [State.outcome, hdone] at htime
  have hsorted : ∀ us : List α, AllDone jobs us →
      (((s.outcome l (placed jobs).length).results.mergeSort fun a b => a.1 ≤ b.1).map (·.2)) =
        us := by
    intro us hus
    have hresults : (s.outcome l (placed jobs).length).results =
        (ended.map Task.job).filterMap fun job => job.ending.value? := by
      rw [List.filterMap_map]
      exact hsound.results_eq (State.sent_of_isOver hover).1
    have hperm : (s.outcome l (placed jobs).length).results.Perm (us.zipIdx.map Prod.swap) := by
      rw [hresults, ← values_placed hus]
      exact (hsound.jobs_of_isDone hdone).filterMap _
    rw [mergeSort_eq_of_perm hperm]
    · simp [Function.comp_def]
    · have hplaces : (us.zipIdx.map Prod.swap).map Prod.fst = List.range' 0 us.length := by
        rw [List.map_map, ← List.zipIdx_map_snd]
        rfl
      rw [hplaces]
      exact List.pairwise_lt_range'
  rw [inOrder]
  constructor
  · intro h
    obtain ⟨results, hok, hvs⟩ := bind_eq_ok_iff.mp h
    obtain ⟨_, herrors, rfl⟩ := (Outcome.toResult_eq_ok_iff _ _).mp hok
    obtain ⟨us, hus⟩ := forall_exists_iff.mp
      (forall_done_placed_iff.mp ((hsound.errors_eq_nil_iff hdone).mp herrors))
    have hsame : us = vs := (hsorted us hus).symm.trans (Except.ok.inj hvs)
    rwa [hsame] at hus
  · intro h
    have herrors := (hsound.errors_eq_nil_iff hdone).mpr
      (forall_done_placed_iff.mpr (forall_exists_iff.mpr ⟨vs, h⟩))
    have hok := (Outcome.toResult_eq_ok_iff _ _).mpr ⟨htime, herrors, rfl⟩
    exact bind_eq_ok_iff.mpr ⟨_, hok, congrArg Except.ok (hsorted vs h)⟩

structure Download where
  address : String
  duration : Nat
  ending : Ending Body

def Download.job (read : String → Body → Except FetchError α) (d : Download) : Job α :=
  ⟨d.duration, d.ending.bind (read d.address)⟩

def downloaded (p : RetryPolicy) (n : Network) : List String → List Download
  | [] => []
  | address :: rest =>
    let (t, n) := download p n address
    ⟨address, t.elapsed, t.ending⟩ :: downloaded p n rest

theorem downloads_eq (p : RetryPolicy) (read : String → Body → Except FetchError α) (n : Network)
    (addresses : List String) :
    (downloads p read n addresses).1 = (downloaded p n addresses).map (Download.job read) := by
  induction addresses generalizing n with
  | nil => rfl
  | cons address rest ih =>
    rw [downloads, downloaded, List.map_cons, ← ih]
    rfl

theorem address_downloaded (p : RetryPolicy) (n : Network) (addresses : List String) :
    (downloaded p n addresses).map Download.address = addresses := by
  induction addresses generalizing n with
  | nil => rfl
  | cons address rest ih => rw [downloaded, List.map_cons, ih]

def addresses : Fetcher → List String
  | .nvd dictionary criteria => [dictionary, criteria]
  | .jvn base lastYear => Feed.addresses base lastYear
  | .vuls address => [address]

/-- What a batch of jobs that was over in time ends with, on some schedule within the limits, when
`make` is made of its results. -/
def Gathers (l : Limits) (jobs : List (Job α)) (make : List α → Except FetchError Batch)
    (r : Ending Batch) : Prop :=
  ∃ s, Reachable l (placed jobs) s ∧ s.isOver l = true ∧
    (s.outcome l (placed jobs).length).timedOut = none ∧
    r = ending ((inOrder (s.outcome l (placed jobs).length)).bind make)

/-- A fetch with these downloads can end so, and not for lack of time. -/
def EndsInTime (l : Limits) (ds : List Download) (r : Ending Batch) : Fetcher → Prop
  | .nvd .. => Gathers l (ds.map (Download.job fun _ body => .ok body)) ofArchives r
  | .jvn .. => Gathers l (ds.map (Download.job readFeed)) (fun feeds => .ok (Feed.merge feeds)) r
  | .vuls _ => ∃ d, ds = [d] ∧ r = d.ending.bind readAnnotations

def IsRead (e : Ending Body) : Fetcher → Prop
  | .nvd .. => ∃ a documents, e = .done (.archive a) ∧ a.documents? = some documents
  | .jvn .. => ∃ bytes listings, e = .done (.bytes bytes) ∧ Feed.parse bytes = .ok listings
  | .vuls _ => ∃ bytes b, e = .done (.bytes bytes) ∧ Annotation.parse bytes = some b

/-- The batch of downloads that ended so. -/
def Brings (endings : List (Ending Body)) (b : Batch) : Fetcher → Prop
  | .nvd .. => ∃ dictionary criteria entries matched,
      endings = [.done (.archive dictionary), .done (.archive criteria)] ∧
      dictionary.documents? = some entries ∧ criteria.documents? = some matched ∧
      b = Dictionary.build entries matched
  | .jvn .. => ∃ feeds : List (List Feed.Listing),
      List.Forall₂ (fun e listings => ∃ bytes, e = Ending.done (.bytes bytes) ∧
        Feed.parse bytes = .ok listings) endings feeds ∧
      b = { active := (Feed.firsts feeds.flatten).map fun l => ⟨l.title, [l.uri]⟩ }
  | .vuls _ => ∃ bytes, endings = [.done (.bytes bytes)] ∧ Annotation.parse bytes = some b

theorem ending_eq_done_iff {x : Except FetchError α} {v : α} : ending x = .done v ↔ x = .ok v := by
  cases x <;> simp [ending]

theorem allDone_job_iff {read : String → Body → Except FetchError α} {ds : List Download}
    {vs : List α} :
    AllDone (ds.map (Download.job read)) vs ↔
      List.Forall₂ (fun d v => ∃ body, d.ending = .done body ∧ read d.address body = .ok v)
        ds vs := by
  rw [AllDone, List.forall₂_map_left_iff]
  simp only [Download.job, Ending.bind_eq_done_iff]

theorem Gathers.eq_done_iff {read : String → Body → Except FetchError α} {ds : List Download}
    {make : List α → Except FetchError Batch} {r : Ending Batch}
    (h : Gathers l (ds.map (Download.job read)) make r) (b : Batch) :
    r = .done b ↔ ∃ vs, List.Forall₂ (fun d v => ∃ body, d.ending = .done body ∧
      read d.address body = .ok v) ds vs ∧ make vs = .ok b := by
  obtain ⟨s, hreach, hover, htime, rfl⟩ := h
  simp only [ending_eq_done_iff, ← allDone_job_iff, ← inOrder_eq_ok_iff hreach hover htime]
  exact bind_eq_ok_iff

theorem exists_done_bytes_iff {e : Ending Body} {P : List UInt8 → Prop} :
    (∃ body, e = .done body ∧ ∃ bytes, body = .bytes bytes ∧ P bytes) ↔
      ∃ bytes, e = .done (.bytes bytes) ∧ P bytes := by
  constructor
  · rintro ⟨_, he, bytes, rfl, hbytes⟩
    exact ⟨bytes, he, hbytes⟩
  · rintro ⟨bytes, he, hbytes⟩
    exact ⟨_, he, bytes, rfl, hbytes⟩

theorem readFeed_eq_ok_iff {address : String} {body : Body} {listings : List Feed.Listing} :
    readFeed address body = .ok listings ↔
      ∃ bytes, body = .bytes bytes ∧ Feed.parse bytes = .ok listings := by
  cases body with
  | archive a => simp [readFeed]
  | bytes bs =>
    simp only [readFeed, Body.bytes.injEq, exists_eq_left']
    cases Feed.parse bs <;> simp

theorem documents_eq_ok_iff {what : String} {body : Body} {entries : List (List UInt8)} :
    documents what body = .ok entries ↔
      ∃ a, body = .archive a ∧ a.documents? = some entries := by
  cases body with
  | bytes bs => simp [documents]
  | archive a =>
    simp only [documents, Body.archive.injEq, exists_eq_left']
    cases a.documents? <;> simp

theorem readAnnotations_eq_ok_iff {body : Body} {b : Batch} :
    readAnnotations body = .ok b ↔
      ∃ bytes, body = .bytes bytes ∧ Annotation.parse bytes = some b := by
  cases body with
  | archive a => simp [readAnnotations]
  | bytes bs =>
    simp only [readAnnotations, Body.bytes.injEq, exists_eq_left']
    cases Annotation.parse bs <;> simp

theorem ofArchives_eq_ok_iff {bodies : List Body} {b : Batch} :
    ofArchives bodies = .ok b ↔ ∃ dictionary criteria entries matched,
      bodies = [.archive dictionary, .archive criteria] ∧
      dictionary.documents? = some entries ∧ criteria.documents? = some matched ∧
      b = Dictionary.build entries matched := by
  constructor
  · intro h
    unfold ofArchives at h
    split at h
    · obtain ⟨entries, hentries, hmade⟩ := bind_eq_ok_iff.mp h
      obtain ⟨matched, hmatched, hbuilt⟩ := bind_eq_ok_iff.mp hmade
      obtain ⟨dictionary, rfl, hdictionary⟩ := documents_eq_ok_iff.mp hentries
      obtain ⟨criteria, rfl, hcriteria⟩ := documents_eq_ok_iff.mp hmatched
      exact ⟨dictionary, criteria, entries, matched, rfl, hdictionary, hcriteria,
        (Except.ok.inj hbuilt).symm⟩
    · cases h
  · rintro ⟨dictionary, criteria, entries, matched, rfl, hdictionary, hcriteria, rfl⟩
    have hentries : ∀ what, documents what (.archive dictionary) = .ok entries := fun _ =>
      documents_eq_ok_iff.mpr ⟨dictionary, rfl, hdictionary⟩
    have hmatched : ∀ what, documents what (.archive criteria) = .ok matched := fun _ =>
      documents_eq_ok_iff.mpr ⟨criteria, rfl, hcriteria⟩
    exact bind_eq_ok_iff.mpr ⟨entries, hentries _, bind_eq_ok_iff.mpr ⟨matched, hmatched _, rfl⟩⟩

variable {ds : List Download} {r : Ending Batch}

theorem forall₂_pair_iff {P : Download → Body → Prop} {x y : Body} :
    List.Forall₂ P ds [x, y] ↔ ∃ c d, ds = [c, d] ∧ P c x ∧ P d y := by
  constructor
  · intro h
    obtain ⟨c, _, hc, hrest, rfl⟩ := List.forall₂_cons_right_iff.mp h
    obtain ⟨d, _, hd, hnil, rfl⟩ := List.forall₂_cons_right_iff.mp hrest
    exact ⟨c, d, by rw [List.forall₂_nil_right_iff.mp hnil], hc, hd⟩
  · rintro ⟨c, d, rfl, hc, hd⟩
    exact .cons hc (.cons hd .nil)

/-- A fetch in time makes the batch that all its downloads bring, if they do. -/
theorem EndsInTime.eq_done_iff {f : Fetcher} (h : f.EndsInTime l ds r) (b : Batch) :
    r = .done b ↔ f.Brings (ds.map Download.ending) b := by
  cases f with
  | nvd dictionary criteria =>
    rw [Gathers.eq_done_iff h, Brings]
    simp only [Except.ok.injEq, exists_eq_right, ofArchives_eq_ok_iff]
    constructor
    · rintro ⟨_, hbodies, a, c, entries, matched, rfl, ha, hc, rfl⟩
      obtain ⟨d, e, rfl, hd, he⟩ := forall₂_pair_iff.mp hbodies
      exact ⟨a, c, entries, matched, by simp [hd, he], ha, hc, rfl⟩
    · rintro ⟨a, c, entries, matched, hds, ha, hc, rfl⟩
      obtain ⟨d, _, rfl, hd, hrest⟩ := List.map_eq_cons_iff.mp hds
      obtain ⟨e, _, rfl, he, hnil⟩ := List.map_eq_cons_iff.mp hrest
      rw [List.map_eq_nil_iff.mp hnil]
      exact ⟨_, .cons hd (.cons he .nil), a, c, entries, matched, rfl, ha, hc, rfl⟩
  | jvn base lastYear =>
    have hread : ∀ (d : Download) (listings : List Feed.Listing),
        (∃ body, d.ending = .done body ∧ readFeed d.address body = .ok listings) ↔
          ∃ bytes, d.ending = .done (.bytes bytes) ∧ Feed.parse bytes = .ok listings := by
      intro d listings
      simp only [readFeed_eq_ok_iff]
      exact exists_done_bytes_iff
    rw [Gathers.eq_done_iff h, Brings]
    simp only [hread, Except.ok.injEq, Feed.merge_eq, List.forall₂_map_left_iff]
    exact exists_congr fun feeds => and_congr_right fun _ => eq_comm
  | vuls address =>
    obtain ⟨d, rfl, rfl⟩ := h
    rw [Ending.bind_eq_done_iff, Brings]
    simp only [readAnnotations_eq_ok_iff, List.map_cons, List.map_nil, List.cons.injEq, and_true]
    exact exists_done_bytes_iff

theorem exists_brings_iff {f : Fetcher} (hds : ds.map Download.address = f.addresses) :
    (∃ b, f.Brings (ds.map Download.ending) b) ↔ ∀ d ∈ ds, f.IsRead d.ending := by
  cases f with
  | nvd dictionary criteria =>
    obtain ⟨c, _, rfl, -, hrest⟩ := List.map_eq_cons_iff.mp hds
    obtain ⟨d, _, rfl, -, hnil⟩ := List.map_eq_cons_iff.mp hrest
    obtain rfl := List.map_eq_nil_iff.mp hnil
    simp only [Brings, IsRead, List.map_cons, List.map_nil, List.cons.injEq, and_true,
      List.forall_mem_cons, List.not_mem_nil, false_imp_iff, implies_true]
    constructor
    · rintro ⟨_, x, y, entries, matched, ⟨hc, hd⟩, hx, hy, _⟩
      exact ⟨⟨x, entries, hc, hx⟩, y, matched, hd, hy⟩
    · rintro ⟨⟨x, entries, hc, hx⟩, y, matched, hd, hy⟩
      exact ⟨_, x, y, entries, matched, ⟨hc, hd⟩, hx, hy, rfl⟩
  | jvn base lastYear =>
    have hread : ∀ e : Ending Body, IsRead e (.jvn base lastYear) ↔ ∃ listings, ∃ bytes,
        e = .done (.bytes bytes) ∧ Feed.parse bytes = .ok listings := fun e => exists_comm
    simp only [hread, forall_exists_iff, Brings, List.forall₂_map_left_iff]
    constructor
    · rintro ⟨_, feeds, hfeeds, _⟩
      exact ⟨feeds, hfeeds⟩
    · rintro ⟨feeds, hfeeds⟩
      exact ⟨_, feeds, hfeeds, rfl⟩
  | vuls address =>
    obtain ⟨d, _, rfl, -, hnil⟩ := List.map_eq_cons_iff.mp hds
    obtain rfl := List.map_eq_nil_iff.mp hnil
    simp only [Brings, IsRead, List.map_cons, List.map_nil, List.cons.injEq, and_true,
      List.forall_mem_cons, List.not_mem_nil, false_imp_iff, implies_true]
    exact exists_comm

theorem gathers_gather {jobs : List (Job α)}
    (htime : (Schedule.run l (placed jobs)).timedOut = none)
    (make : List α → Except FetchError Batch) :
    Gathers l jobs make (ending ((gather l jobs).bind make)) :=
  ⟨_, Reachable.begin.final, State.isOver_final _ l, htime, rfl⟩

theorem gathers_or_timeout (l : Limits) (jobs : List (Job α))
    (make : List α → Except FetchError Batch) :
    Gathers l jobs make (ending ((gather l jobs).bind make)) ∨
      ∃ limit, ending ((gather l jobs).bind make) = .failed (.timeout limit) := by
  cases htime : (Schedule.run l (placed jobs)).timedOut with
  | none => exact Or.inl (gathers_gather htime make)
  | some limit =>
    have hresult : (Schedule.run l (placed jobs)).toResult =
        .error (.timeout (limit * Time.nanosPerMilli)) := by
      rw [Outcome.toResult, htime]
    refine Or.inr ⟨limit * Time.nanosPerMilli, ?_⟩
    rw [gather_eq, inOrder, hresult]
    rfl

theorem endsInTime_run (f : Fetcher) (l : Limits) (p : RetryPolicy) (n : Network) :
    f.EndsInTime l (downloaded p n f.addresses) (f.run l p n).1 ∨
      ∃ limit, (f.run l p n).1 = .failed (.timeout limit) := by
  cases f with
  | nvd dictionary criteria =>
    simp only [run, EndsInTime, addresses, ← downloads_eq]
    exact gathers_or_timeout l _ ofArchives
  | jvn base lastYear =>
    have hmap : ∀ x : Except FetchError (List (List Feed.Listing)),
        x.map Feed.merge = x.bind fun feeds => .ok (Feed.merge feeds) := fun x => by cases x <;> rfl
    simp only [run, EndsInTime, addresses, ← downloads_eq, hmap]
    exact gathers_or_timeout l _ _
  | vuls address => exact Or.inl ⟨_, rfl, rfl⟩

theorem addresses_jvn (base : String) (lastYear : Int) :
    ∃ years : List Int, years.Pairwise (· < ·) ∧ (∀ y, y ∈ years ↔ 2002 ≤ y ∧ y ≤ lastYear) ∧
      addresses (.jvn base lastYear) =
        years.map (fun y => Feed.trimSlashes base ++ "/years/jvndb_" ++ toString y ++ ".rdf") ++
          [Feed.trimSlashes base ++ "/jvndb_new.rdf", Feed.trimSlashes base ++ "/jvndb.rdf"] := by
  refine ⟨_, ?_, ?_, rfl⟩
  · rw [List.pairwise_map]
    exact List.pairwise_lt_range.imp fun h => by omega
  · intro y
    simp only [List.mem_map, List.mem_range, Feed.firstYear]
    constructor
    · rintro ⟨i, hi, rfl⟩
      omega
    · intro hy
      exact ⟨(y - 2002).toNat, by omega, by omega⟩

/-- What a fetch ends with when its time is not up depends on how its downloads end, and on no
schedule: it makes a batch exactly if each download is read, and then the batch of them all. -/
theorem fetch_on_any_schedule (f : Fetcher) :
    (∀ l p n, (downloaded p n f.addresses).map Download.address = f.addresses ∧
      (f.EndsInTime l (downloaded p n f.addresses) (f.run l p n).1 ∨
        ∃ limit, (f.run l p n).1 = .failed (.timeout limit))) ∧
    (∀ l ds r, ds.map Download.address = f.addresses → f.EndsInTime l ds r →
      (∀ b, r = .done b ↔ f.Brings (ds.map Download.ending) b) ∧
      ((∃ b, r = .done b) ↔ ∀ d ∈ ds, f.IsRead d.ending)) ∧
    (∀ l l' ds ds' r r', ds.map Download.ending = ds'.map Download.ending →
      f.EndsInTime l ds r → f.EndsInTime l' ds' r' → ∀ b, r = .done b ↔ r' = .done b) ∧
    ∀ base lastYear, f = .jvn base lastYear →
      ∃ years : List Int, years.Pairwise (· < ·) ∧ (∀ y, y ∈ years ↔ 2002 ≤ y ∧ y ≤ lastYear) ∧
        f.addresses =
          years.map (fun y => Feed.trimSlashes base ++ "/years/jvndb_" ++ toString y ++ ".rdf") ++
            [Feed.trimSlashes base ++ "/jvndb_new.rdf", Feed.trimSlashes base ++ "/jvndb.rdf"] := by
  refine ⟨fun l p n => ⟨address_downloaded p n f.addresses, endsInTime_run f l p n⟩, ?_, ?_, ?_⟩
  · intro l ds r hds h
    refine ⟨h.eq_done_iff, ?_⟩
    rw [← exists_brings_iff hds]
    exact exists_congr h.eq_done_iff
  · intro l l' ds ds' r r' hsame h h' b
    rw [h.eq_done_iff, h'.eq_done_iff, hsame]
  · rintro base lastYear rfl
    exact addresses_jvn base lastYear

def feedOf (vendor : String) : List UInt8 :=
  ("<r><cpe vendor='" ++ vendor ++ "' product='tool'>cpe:/a:acme:tool</cpe></r>").toList.map
    fun c => c.toNat.toUInt8

def rollingFeeds (new all : Nat) : List Download :=
  [⟨"http://feeds.test/jvndb_new.rdf", new, .done (.bytes (feedOf "acme"))⟩,
    ⟨"http://feeds.test/jvndb.rdf", all, .done (.bytes (feedOf "other"))⟩]

theorem fetch_on_any_schedule_rolling :
    ∃ r r', EndsInTime { concurrency := 1 } (rollingFeeds 5 1) r (.jvn "http://feeds.test/" 2001) ∧
      EndsInTime { concurrency := 2 } (rollingFeeds 5 1) r' (.jvn "http://feeds.test/" 2001) ∧
      r = .done { active := [⟨"acme tool", ["cpe:/a:acme:tool"]⟩] } ∧
      r' = .done { active := [⟨"acme tool", ["cpe:/a:acme:tool"]⟩] } := by
  obtain ⟨-, hread, hsame, -⟩ := fetch_on_any_schedule (.jvn "http://feeds.test/" 2001)
  have hone :
      EndsInTime { concurrency := 1 } (rollingFeeds 5 1) _ (.jvn "http://feeds.test/" 2001) :=
    gathers_gather (by decide +kernel) _
  have htwo :
      EndsInTime { concurrency := 2 } (rollingFeeds 5 1) _ (.jvn "http://feeds.test/" 2001) :=
    gathers_gather (by decide +kernel) _
  have hparse : ∀ vendor ∈ ["acme", "other"],
      Feed.parse (feedOf vendor) = .ok [⟨vendor, "tool", "cpe:/a:acme:tool"⟩] := fun vendor hv =>
    toOption_eq_some_iff.mp (by revert vendor hv; decide +kernel)
  have hbatch := ((hread _ _ _ (by decide +kernel) hone).1
      { active := [⟨"acme tool", ["cpe:/a:acme:tool"]⟩] }).mpr
    ⟨[[⟨"acme", "tool", "cpe:/a:acme:tool"⟩], [⟨"other", "tool", "cpe:/a:acme:tool"⟩]],
      .cons ⟨_, rfl, hparse _ (by simp)⟩ (.cons ⟨_, rfl, hparse _ (by simp)⟩ .nil),
      by decide +kernel⟩
  exact ⟨_, _, hone, htwo, hbatch, (hsame _ _ _ _ _ _ rfl hone htwo _).mp hbatch⟩

end Fetcher

end PlatformCatalog
