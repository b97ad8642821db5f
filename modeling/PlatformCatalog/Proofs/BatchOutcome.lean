import Mathlib.Data.List.Perm.Basic
import PlatformCatalog.Proofs.BatchSteps

/-!
# What a batch brings

What was received when a batch is over are the reports of the tasks that
ended before its deadline, in the order of their ends. A task that broke down
sends no report: it is found out when the batch is over in time, since no
other task is left that nothing was received from.
-/

set_option autoImplicit false

namespace PlatformCatalog

namespace Ending

variable {α : Type}

def value? : Ending α → Option α
  | .done v => some v
  | _ => none

def error? : Ending α → Option FetchError
  | .failed e => some e
  | _ => none

def isBroken : Ending α → Bool
  | .broken _ => true
  | _ => false

theorem exists_done_iff (e : Ending α) :
    (∃ v, e = .done v) ↔ e.error? = none ∧ e.isBroken = false := by
  cases e <;> simp [error?, isBroken]

theorem counts_once (e : Ending α) :
    e.value?.toList.length + (e.error?.toList.length + if e.isBroken then 1 else 0) = 1 := by
  cases e <;> rfl

end Ending

namespace Schedule

variable {α : Type} {l : Limits} {jobs : List (Job α)}

def breakdown (index : Nat) : FetchError := .taskAborted index "task panicked or was cancelled"

/-- A failure for each job that breaks down, in the order of the jobs. -/
def aborted (jobs : List (Job α)) : List FetchError :=
  (jobs.zipIdx.filter fun p => p.1.ending.isBroken).map fun p => breakdown p.2

/-- What an outcome tells, given the tasks that ended before the deadline, in the order of their
ends. -/
structure Tells (l : Limits) (jobs : List (Job α)) (ended : List (Task α)) (o : Outcome α) :
    Prop where
  results : o.results = ended.filterMap fun t => t.job.ending.value?
  /-- A batch that is over in time has heard of each job. -/
  inTime : o.timedOut = none → (ended.map fun t => (t.job, t.index)).Perm jobs.zipIdx ∧
    o.errors = (ended.filterMap fun t => t.job.ending.error?) ++ aborted jobs ∧
    o.results.length + o.errors.length = jobs.length
  late : ∀ limit, o.timedOut = some limit → limit = l.timeout ∧
    (l.timeout = 0 ∨ ∃ k < jobs.length, ∀ t ∈ ended, t.index ≠ k) ∧
    o.errors = ended.filterMap fun t => t.job.ending.error?
  toResult : ∀ vs, o.toResult = .ok vs ↔
    o.timedOut = none ∧ vs = o.results ∧ ∀ job ∈ jobs, ∃ v, job.ending = .done v

theorem Task.bind_value? (t : Task α) : t.report?.bind Report.value? = t.job.ending.value? := by
  rw [report?]
  cases t.job.ending <;> rfl

theorem Task.bind_error? (t : Task α) : t.report?.bind Report.error? = t.job.ending.error? := by
  rw [report?]
  cases t.job.ending <;> rfl

theorem Task.index_of_report? {t : Task α} {r : Report α} (h : t.report? = some r) :
    r.index = t.index := by
  rw [report?] at h
  split at h <;> cases h <;> rfl

theorem Task.report?_eq_none_iff (t : Task α) :
    t.report? = none ↔ t.job.ending.isBroken = true := by
  rw [report?]
  cases t.job.ending <;> simp [Ending.isBroken]

theorem length_endings (ts : List (Task α)) :
    (ts.filterMap fun t => t.job.ending.value?).length +
      ((ts.filterMap fun t => t.job.ending.error?).length +
        ts.countP fun t => t.job.ending.isBroken) = ts.length := by
  induction ts with
  | nil => rfl
  | cons t ts ih =>
    have hone := t.job.ending.counts_once
    simp only [List.filterMap_eq_flatMap_toList, List.flatMap_cons, List.length_append,
      List.countP_cons, List.length_cons] at ih ⊢
    omega

theorem State.sent_of_isOver {s : State α} (h : s.isOver l = true) :
    s.sent = [] ∧ (s.isDone = true ∨ l.horizon ≤ s.now) := by
  simp only [isOver, Bool.or_eq_true, Bool.and_eq_true, List.isEmpty_iff, decide_eq_true_eq] at h
  rcases h with hdone | ⟨hsent, hlate⟩
  · have hparts := hdone
    simp only [isDone, Bool.and_eq_true, List.isEmpty_iff] at hparts
    exact ⟨hparts.2, Or.inl hdone⟩
  · exact ⟨hsent, Or.inr hlate⟩

theorem State.isDone_iff (s : State α) :
    s.isDone = true ↔ s.isOpen = false ∧ s.running = [] ∧ s.sent = [] := by
  simp [isDone, and_assoc]

theorem Reachable.last_start {s : State α} (h : Reachable l jobs s) :
    s.isOpen = true → s.waiting = [] → s.now = 0 ∨ ∃ t ∈ s.started, t.start = s.now := by
  induction h with
  | begin => exact fun _ _ => Or.inl rfl
  | step _ hstep ih =>
    cases hstep with
    | receive _ => exact ih
    | finish _ _ => exact ih
    | start _ _ _ =>
      intro _ _
      exact Or.inr ⟨_, List.mem_append_right _ (List.mem_singleton.mpr rfl), rfl⟩
    | close _ _ =>
      intro hopen
      cases hopen
    | advance hidle =>
      intro hopen hwaiting
      have hclosed := hidle.closed hwaiting
      cases hopen.symm.trans hclosed

namespace Sound

variable {ended : List (Task α)} {s : State α}

theorem ended_perm (h : Sound l jobs ended s) (hover : s.isOver l = true)
    (hdeadline : ∀ t ∈ s.started, t.finish ≠ l.horizon) :
    ended.Perm (s.started.filter fun t => t.finish < l.horizon) := by
  have hended : ended.filter (fun t => t.finish < l.horizon) = ended := by
    apply List.filter_eq_self.mpr
    intro t ht
    have hpast := h.endedBy t ht
    have hother := hdeadline t (h.tasks.mem_iff.mpr (by simp [ht]))
    have hhorizon := h.inTime
    simp only [decide_eq_true_eq]
    omega
  have hrunning : s.running.filter (fun t => t.finish < l.horizon) = [] := by
    apply List.filter_eq_nil_iff.mpr
    intro t ht
    have hbusy := h.busyUntil t ht
    rcases (State.sent_of_isOver hover).2 with hdone | hlate
    · have hnone := ((State.isDone_iff s).mp hdone).2.1
      rw [hnone] at ht
      cases ht
    · simp only [decide_eq_true_eq]
      omega
  have hsplit := h.tasks.filter fun t => t.finish < l.horizon
  rw [List.filter_append, hended, hrunning, List.append_nil] at hsplit
  exact hsplit.symm

theorem ended_of_isDone (h : Sound l jobs ended s) (hdone : s.isDone = true) :
    (ended.map fun t => (t.job, t.index)).Perm jobs.zipIdx := by
  obtain ⟨hclosed, hrunning, -⟩ := (State.isDone_iff s).mp hdone
  have htasks := h.tasks
  have hturn := h.inTurn
  rw [hrunning, List.append_nil] at htasks
  rw [h.closed hclosed, List.append_nil] at hturn
  rw [← hturn]
  exact htasks.symm.map _

theorem received_eq (h : Sound l jobs ended s) (hsent : s.sent = []) :
    s.received = ended.filterMap Task.report? := by
  have hreports := h.reports
  rwa [hsent, List.append_nil] at hreports

theorem results_eq (h : Sound l jobs ended s) (hsent : s.sent = []) :
    s.received.filterMap Report.value? = ended.filterMap fun t => t.job.ending.value? := by
  rw [h.received_eq hsent, List.filterMap_filterMap]
  simp only [Task.bind_value?]

theorem errors_eq (h : Sound l jobs ended s) (hsent : s.sent = []) :
    s.received.filterMap Report.error? = ended.filterMap fun t => t.job.ending.error? := by
  rw [h.received_eq hsent, List.filterMap_filterMap]
  simp only [Task.bind_error?]

theorem received_any (h : Sound l jobs ended s) (hsent : s.sent = [])
    (hall : (ended.map fun t => (t.job, t.index)).Perm jobs.zipIdx) {job : Job α} {i : Nat}
    (hjob : (job, i) ∈ jobs.zipIdx) :
    (!s.received.any fun r => r.index = i) = job.ending.isBroken := by
  have hget : ∀ t ∈ ended, jobs[t.index]? = some t.job := by
    intro t ht
    apply List.mk_mem_zipIdx_iff_getElem?.mp
    exact hall.mem_iff.mp (List.mem_map_of_mem ht)
  obtain ⟨t, ht, hpair⟩ := List.mem_map.mp (hall.mem_iff.mpr hjob)
  obtain ⟨rfl, rfl⟩ := Prod.mk.inj hpair
  rw [h.received_eq hsent, Bool.eq_iff_iff, ← Task.report?_eq_none_iff]
  simp only [Bool.not_eq_true', List.any_eq_false, decide_eq_true_eq]
  constructor
  · intro hnone
    by_contra hreport
    obtain ⟨r, hr⟩ := Option.ne_none_iff_exists'.mp hreport
    exact hnone r (List.mem_filterMap.mpr ⟨t, ht, hr⟩) (Task.index_of_report? hr)
  · intro hnone r hr hindex
    obtain ⟨u, hu, hreport⟩ := List.mem_filterMap.mp hr
    -- No two tasks have the same place, so the report would be that of `t`.
    rw [Task.index_of_report? hreport] at hindex
    have hsame := hget u hu
    rw [hindex, hget t ht] at hsame
    have hbroken := (Task.report?_eq_none_iff t).mp hnone
    rw [Option.some.inj hsame, ← Task.report?_eq_none_iff, hreport] at hbroken
    cases hbroken

theorem missing_eq (h : Sound l jobs ended s) (hsent : s.sent = [])
    (hall : (ended.map fun t => (t.job, t.index)).Perm jobs.zipIdx) :
    s.missing jobs.length = aborted jobs := by
  have hplaces : List.range jobs.length = jobs.zipIdx.map Prod.snd := by
    rw [List.zipIdx_map_snd, List.range_eq_range']
  have hbroken : jobs.zipIdx.filter ((fun i => !s.received.any fun r => r.index = i) ∘ Prod.snd) =
      jobs.zipIdx.filter fun p => p.1.ending.isBroken := by
    apply List.filter_congr
    intro p hp
    exact h.received_any hsent hall hp
  rw [State.missing, hplaces, List.filter_map, hbroken, List.map_map]
  rfl

theorem places (h : Sound l jobs ended s) :
    (ended.map Task.index ++ (s.running.map Task.index ++ s.waiting.map Prod.snd)).Perm
      (List.range jobs.length) := by
  have hturn := congrArg (List.map Prod.snd) h.inTurn
  rw [List.map_append, List.map_map, List.zipIdx_map_snd, ← List.range_eq_range'] at hturn
  have htasks := (h.tasks.map Task.index).append_right (s.waiting.map Prod.snd)
  rw [List.map_append, List.append_assoc] at htasks
  rw [← hturn]
  exact htasks.symm

theorem unended (h : Sound l jobs ended s) {k : Nat}
    (hk : k ∈ s.running.map Task.index ++ s.waiting.map Prod.snd) :
    k < jobs.length ∧ ∀ t ∈ ended, t.index ≠ k := by
  have hnodup := h.places.nodup_iff.mpr List.nodup_range
  have hdisjoint := (List.nodup_append.mp hnodup).2.2
  constructor
  · exact List.mem_range.mp (h.places.mem_iff.mp (List.mem_append_right _ hk))
  · intro t ht
    exact hdisjoint t.index (List.mem_map_of_mem ht) k hk

/-- A batch that is late has a job that has not ended, unless it had no time at all. -/
theorem exists_unended (h : Sound l jobs ended s) (hreach : Reachable l jobs s)
    (hover : s.isOver l = true) (hlate : s.isDone = false)
    (hdeadline : ∀ t ∈ s.started, t.finish ≠ l.horizon) :
    l.timeout = 0 ∨ ∃ k < jobs.length, ∀ t ∈ ended, t.index ≠ k := by
  obtain ⟨hsent, hend⟩ := State.sent_of_isOver hover
  have hnow : s.now = l.horizon := by
    have hhorizon : l.horizon ≤ s.now := hend.resolve_left (by simp [hlate])
    exact Nat.le_antisymm h.inTime hhorizon
  by_cases hrest : s.running.map Task.index ++ s.waiting.map Prod.snd = []
  · left
    obtain ⟨hrunning, hwaiting⟩ := List.append_eq_nil_iff.mp hrest
    rw [List.map_eq_nil_iff] at hrunning hwaiting
    have hopen : s.isOpen = true := by
      simpa [State.isDone, hrunning, hsent] using hlate
    rcases hreach.last_start hopen hwaiting with hzero | ⟨t, ht, hstart⟩
    · rw [hnow, Limits.horizon] at hzero
      omega
    · -- The last task would have to end at the deadline, since it is not running.
      have htasks := h.tasks.mem_iff.mp ht
      rw [hrunning, List.append_nil] at htasks
      have hpast := h.endedBy t htasks
      have hother := hdeadline t ht
      have hfinish : t.start ≤ t.finish := Nat.le_add_right _ _
      omega
  · right
    obtain ⟨k, hk⟩ := List.exists_mem_of_ne_nil _ hrest
    obtain ⟨hlength, hnone⟩ := h.unended hk
    exact ⟨k, hlength, hnone⟩

end Sound

theorem Outcome.toResult_eq_ok_iff (o : Outcome α) (vs : List α) :
    o.toResult = .ok vs ↔ o.timedOut = none ∧ o.errors = [] ∧ vs = o.results := by
  rw [toResult]
  cases o.timedOut with
  | some limit => simp
  | none =>
    cases o.errors with
    | nil => simp [eq_comm]
    | cons e es => simp

theorem length_aborted (jobs : List (Job α)) :
    (aborted jobs).length = jobs.countP fun job => job.ending.isBroken := by
  have hjobs : jobs = jobs.zipIdx.map Prod.fst := (List.zipIdx_map_fst 0 jobs).symm
  conv_rhs => rw [hjobs, List.countP_map]
  rw [aborted, List.length_map, ← List.countP_eq_length_filter]
  rfl

theorem aborted_eq_nil_iff (jobs : List (Job α)) :
    aborted jobs = [] ↔ ∀ job ∈ jobs, job.ending.isBroken = false := by
  rw [← List.length_eq_zero_iff, length_aborted, List.countP_eq_zero]
  simp only [Bool.not_eq_true]

theorem Sound.jobs_of_isDone {ended : List (Task α)} {s : State α} (h : Sound l jobs ended s)
    (hdone : s.isDone = true) : (ended.map Task.job).Perm jobs := by
  have hfirst := (h.ended_of_isDone hdone).map Prod.fst
  rwa [List.map_map, List.zipIdx_map_fst] at hfirst

theorem Sound.errors_of_isDone {ended : List (Task α)} {s : State α} (h : Sound l jobs ended s)
    (hdone : s.isDone = true) : (s.outcome l jobs.length).errors =
      (ended.filterMap fun t => t.job.ending.error?) ++ aborted jobs := by
  have hsent := ((State.isDone_iff s).mp hdone).2.2
  have hall := h.ended_of_isDone hdone
  simp [State.outcome, hdone, h.errors_eq hsent, h.missing_eq hsent hall]

theorem Sound.errors_eq_nil_iff {ended : List (Task α)} {s : State α} (h : Sound l jobs ended s)
    (hdone : s.isDone = true) :
    (s.outcome l jobs.length).errors = [] ↔ ∀ job ∈ jobs, ∃ v, job.ending = .done v := by
  have hfailed : (ended.filterMap fun t => t.job.ending.error?) = [] ↔
      ∀ job ∈ jobs, job.ending.error? = none := by
    simp only [List.filterMap_eq_nil_iff, ← (h.jobs_of_isDone hdone).mem_iff, List.forall_mem_map]
  rw [h.errors_of_isDone hdone, List.append_eq_nil_iff, hfailed, aborted_eq_nil_iff,
    ← forall₂_and]
  simp only [Ending.exists_done_iff]

theorem Sound.tells {ended : List (Task α)} {s : State α} (h : Sound l jobs ended s)
    (hreach : Reachable l jobs s) (hover : s.isOver l = true)
    (hdeadline : ∀ t ∈ s.started, t.finish ≠ l.horizon) :
    Tells l jobs ended (s.outcome l jobs.length) := by
  have hsent := (State.sent_of_isOver hover).1
  have hresults : (s.outcome l jobs.length).results =
      ended.filterMap fun t => t.job.ending.value? := h.results_eq hsent
  cases hdone : s.isDone with
  | false =>
    have hsome : (s.outcome l jobs.length).timedOut = some l.timeout := by
      simp [State.outcome, hdone]
    have herrors : (s.outcome l jobs.length).errors =
        ended.filterMap fun t => t.job.ending.error? := by
      simp [State.outcome, hdone, h.errors_eq hsent]
    exact {
      results := hresults
      inTime := by simp [hsome]
      late := by
        intro limit hlimit
        rw [hsome] at hlimit
        exact ⟨(Option.some.inj hlimit).symm,
          h.exists_unended hreach hover hdone hdeadline, herrors⟩
      toResult := by simp [Outcome.toResult_eq_ok_iff, hsome] }
  | true =>
    have hall := h.ended_of_isDone hdone
    have hjobs := h.jobs_of_isDone hdone
    have hnone : (s.outcome l jobs.length).timedOut = none := by
      simp [State.outcome, hdone]
    have herrors := h.errors_of_isDone hdone
    exact {
      results := hresults
      inTime := by
        intro _
        have hbroken : jobs.countP (fun job => job.ending.isBroken) =
            ended.countP fun t => t.job.ending.isBroken := by
          rw [← hjobs.countP_eq, List.countP_map]
          rfl
        have hcount := length_endings ended
        have hlength : ended.length = jobs.length := by simpa using hjobs.length_eq
        refine ⟨hall, herrors, ?_⟩
        rw [hresults, herrors, List.length_append, length_aborted, hbroken]
        omega
      late := by simp [hnone]
      toResult := by
        intro vs
        rw [Outcome.toResult_eq_ok_iff, h.errors_eq_nil_iff hdone]
        exact and_congr_right fun _ => and_comm }

/-- Whatever order things happen in at the same moment, the outcome of a batch tells of the tasks
that ended before its deadline, and so does that of a run. -/
theorem outcome_tells_ended (l : Limits) (jobs : List (Job α)) :
    (∀ s, Reachable l jobs s → s.isOver l = true → (∀ t ∈ s.started, t.finish ≠ l.horizon) →
      (s.started.map fun t => (t.job, t.index)) <+: jobs.zipIdx ∧
      ∃ ended, ended.Perm (s.started.filter fun t => t.finish < l.horizon) ∧
        ended.Pairwise (fun t u => t.finish ≤ u.finish) ∧
        Tells l jobs ended (s.outcome l jobs.length)) ∧
    ∃ s, Reachable l jobs s ∧ s.isOver l = true ∧ run l jobs = s.outcome l jobs.length := by
  constructor
  · intro s hreach hover hdeadline
    obtain ⟨ended, hsound⟩ := hreach.sound
    refine ⟨⟨s.waiting, hsound.inTurn⟩, ended, hsound.ended_perm hover hdeadline,
      hsound.inOrder, ?_⟩
    exact hsound.tells hreach hover hdeadline
  · exact ⟨_, Reachable.begin.final, State.isOver_final _ l, rfl⟩

def tenMillis : Limits := { concurrency := 2, timeout := 10 }

def everyEnding : List (Job Nat) :=
  [⟨4, .done 1⟩, ⟨2, .broken "index out of bounds"⟩,
    ⟨1, .failed (.malformedEnvelope "feed" "no entries")⟩, ⟨3, .done 4⟩]

theorem outcome_tells_ended_every_ending :
    (∃ s ended, Reachable tenMillis everyEnding s ∧ s.isOver tenMillis = true ∧
      (∀ t ∈ s.started, t.finish ≠ tenMillis.horizon) ∧
      Tells tenMillis everyEnding ended (s.outcome tenMillis everyEnding.length)) ∧
    (run tenMillis everyEnding).results = [1, 4] ∧
    (run tenMillis everyEnding).errors =
      [.malformedEnvelope "feed" "no entries", breakdown 1] := by
  have hreach : Reachable tenMillis everyEnding ((begin tenMillis everyEnding).final tenMillis) :=
    Reachable.begin.final
  have hover := State.isOver_final (begin tenMillis everyEnding) tenMillis
  have hdeadline : ∀ t ∈ ((begin tenMillis everyEnding).final tenMillis).started,
      t.finish ≠ tenMillis.horizon := by decide +kernel
  obtain ⟨_, ended, _, _, htells⟩ :=
    (outcome_tells_ended tenMillis everyEnding).1 _ hreach hover hdeadline
  refine ⟨⟨_, ended, hreach, hover, hdeadline, htells⟩, ?_, ?_⟩
  · cbv
  · cbv

/-- Whether an outcome holds what the end of the task with this place brings. -/
def Outcome.Holds (o : Outcome α) (index : Nat) : Ending α → Prop
  | .done v => v ∈ o.results
  | .failed e => e ∈ o.errors
  | .broken _ => breakdown index ∈ o.errors

def brokenBeside : List (Job Nat) := [⟨1, .broken "index out of bounds"⟩, ⟨100, .done 2⟩]

/-- The outcome of a late batch holds nothing about a task that broke down before the deadline. -/
theorem not_holds_broken_beside :
    ∃ s, Reachable tenMillis brokenBeside s ∧ s.isOver tenMillis = true ∧
      (∀ t ∈ s.started, t.finish ≠ tenMillis.horizon) ∧
      run tenMillis brokenBeside = s.outcome tenMillis brokenBeside.length ∧
      ¬∀ t ∈ s.started, t.finish < tenMillis.horizon →
        (run tenMillis brokenBeside).Holds t.index t.job.ending := by
  have hdeadline : ∀ t ∈ ((begin tenMillis brokenBeside).final tenMillis).started,
      t.finish ≠ tenMillis.horizon := by decide +kernel
  have hstarted : ((begin tenMillis brokenBeside).final tenMillis).started =
      [⟨0, 0, ⟨1, .broken "index out of bounds"⟩⟩, ⟨1, 0, ⟨100, .done 2⟩⟩] := by cbv
  have herrors : (run tenMillis brokenBeside).errors = [] := by cbv
  refine ⟨_, Reachable.begin.final, State.isOver_final _ _, hdeadline, rfl, ?_⟩
  intro h
  have hheld : breakdown 0 ∈ (run tenMillis brokenBeside).errors :=
    h ⟨0, 0, ⟨1, .broken "index out of bounds"⟩⟩ (by simp [hstarted]) (by decide)
  rw [herrors] at hheld
  cases hheld

end Schedule

end PlatformCatalog
