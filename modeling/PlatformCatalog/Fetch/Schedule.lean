import PlatformCatalog.Fetch.Error

/-!
# Schedules of a batch

The tasks of a batch are started one by one. Each start takes a permit, which
the task gives back when it ends, and is followed by a pause. A task that
ends sends its result, unless it broke down. The batch is over once no task
is left that could send one, or at its deadline. The clock moves on only when
nothing else can happen. Times are milliseconds since the start of the batch.
-/

set_option autoImplicit false

namespace PlatformCatalog

open Time

structure Limits where
  concurrency : Nat := 5
  wait : Nat := 0
  timeout : Nat := 600000
  /-- How long after its moment a clock may notice the deadline. -/
  slack : Nat := 0
  deriving DecidableEq, Repr

namespace Limits

def permits (l : Limits) : Nat := max l.concurrency 1

def horizon (l : Limits) : Nat := l.timeout + l.slack

end Limits

structure Job (α : Type) where
  duration : Nat
  ending : Ending α

namespace Schedule

variable {α : Type}

structure Report (α : Type) where
  index : Nat
  result : Except FetchError α

namespace Report

def value? (r : Report α) : Option α := r.result.toOption

def error? (r : Report α) : Option FetchError :=
  match r.result with
  | .ok _ => none
  | .error e => some e

end Report

/-- A job that has started, with its place among the jobs. -/
structure Task (α : Type) where
  index : Nat
  start : Nat
  job : Job α

namespace Task

def finish (t : Task α) : Nat := t.start + t.job.duration

def report? (t : Task α) : Option (Report α) :=
  match t.job.ending with
  | .done v => some ⟨t.index, .ok v⟩
  | .failed e => some ⟨t.index, .error e⟩
  | .broken _ => none

end Task

structure State (α : Type) where
  now : Nat := 0
  waiting : List (Job α × Nat)
  /-- When the pause after the last start is over. -/
  resume : Nat := 0
  permits : Nat
  running : List (Task α) := []
  sent : List (Report α) := []
  received : List (Report α) := []
  started : List (Task α) := []
  isOpen : Bool := true

def begin (l : Limits) (jobs : List (Job α)) : State α :=
  { waiting := jobs.zipIdx, permits := l.permits }

namespace State

def receive (s : State α) (r : Report α) (rest : List (Report α)) : State α :=
  { s with sent := rest, received := s.received ++ [r] }

/-- A task ends, and the others go on. However it ends, its permit is free again. -/
def finish (s : State α) (t : Task α) (others : List (Task α)) : State α :=
  { s with
    running := others
    permits := s.permits + 1
    sent := s.sent ++ t.report?.toList }

def start (s : State α) (l : Limits) (job : Job α) (index : Nat) (rest : List (Job α × Nat)) :
    State α :=
  { s with
    waiting := rest
    resume := s.now + l.wait
    permits := s.permits - 1
    running := s.running ++ [⟨index, s.now, job⟩]
    started := s.started ++ [⟨index, s.now, job⟩] }

def close (s : State α) : State α := { s with isOpen := false }

def timers (s : State α) : List Nat :=
  (if s.waiting = [] ∨ s.resume ≤ s.now then [] else [s.resume]) ++ s.running.map Task.finish

def moment (s : State α) (l : Limits) : Nat := s.timers.foldr min l.horizon

def advance (s : State α) (l : Limits) : State α := { s with now := s.moment l }

def isDone (s : State α) : Bool := !s.isOpen && s.running.isEmpty && s.sent.isEmpty

/-- The batch is done, or its time is up and there is no report to receive. -/
def isOver (s : State α) (l : Limits) : Bool :=
  s.isDone || (s.sent.isEmpty && decide (l.horizon ≤ s.now))

/-- Nothing can happen before the clock moves on. -/
structure IsIdle (s : State α) (l : Limits) : Prop where
  sent : s.sent = []
  running : ∀ t ∈ s.running, s.now < t.finish
  blocked : s.waiting ≠ [] → s.resume ≤ s.now → s.permits = 0
  closed : s.waiting = [] → s.isOpen = false
  busy : s.isDone = false
  inTime : s.now < l.horizon

/-- What can happen to a batch. Of several things that can happen at the same moment, any may come
first. -/
inductive Step (l : Limits) : State α → State α → Prop
  | receive {s : State α} {r : Report α} {rest : List (Report α)} (hsent : s.sent = r :: rest) :
    Step l s (s.receive r rest)
  | finish {s : State α} {before after : List (Task α)} {t : Task α}
    (hrunning : s.running = before ++ t :: after) (hdue : t.finish ≤ s.now) :
    Step l s (s.finish t (before ++ after))
  | start {s : State α} {job : Job α} {index : Nat} {rest : List (Job α × Nat)}
    (hwaiting : s.waiting = (job, index) :: rest) (hpause : s.resume ≤ s.now)
    (hpermit : 0 < s.permits) : Step l s (s.start l job index rest)
  | close {s : State α} (hwaiting : s.waiting = []) (hopen : s.isOpen = true) : Step l s s.close
  | advance {s : State α} (hidle : s.IsIdle l) : Step l s (s.advance l)

def isDue (s : State α) (t : Task α) : Bool := t.finish ≤ s.now

def next? (s : State α) (l : Limits) : Option (State α) :=
  match s.sent with
  | r :: rest => some (s.receive r rest)
  | [] =>
    if s.isOver l then none
    else match s.running.find? s.isDue with
      | some t => some (s.finish t (s.running.eraseP s.isDue))
      | none =>
        match s.waiting with
        | (job, index) :: rest =>
          if s.resume ≤ s.now ∧ 0 < s.permits then some (s.start l job index rest)
          else some (s.advance l)
        | [] => if s.isOpen then some s.close else some (s.advance l)

theorem exists_split_of_find? {s : State α} {t : Task α} (h : s.running.find? s.isDue = some t) :
    t.finish ≤ s.now ∧ ∃ before after, s.running = before ++ t :: after ∧
      s.running.eraseP s.isDue = before ++ after := by
  obtain ⟨hdue, before, after, hrunning, hbefore⟩ := List.find?_eq_some_iff_append.mp h
  refine ⟨by simpa [isDue] using hdue, before, after, hrunning, ?_⟩
  have hnone : ∀ u ∈ before, ¬s.isDue u = true := by simpa using hbefore
  rw [hrunning, List.eraseP_append_right _ hnone, List.eraseP_cons_of_pos hdue]

theorem step_of_next? {s t : State α} {l : Limits} (h : s.next? l = some t) : Step l s t := by
  rw [next?] at h
  split at h
  · next hsent =>
    obtain rfl := Option.some.inj h
    exact .receive hsent
  · next hsent =>
    split at h
    · cases h
    · next hover =>
      have htime : s.isDone = false ∧ s.now < l.horizon := by
        simpa [isOver, hsent] using hover
      split at h
      · next hfind =>
        obtain rfl := Option.some.inj h
        obtain ⟨hdue, before, after, hrunning, herase⟩ := exists_split_of_find? hfind
        rw [herase]
        exact .finish hrunning hdue
      · next hfind =>
        have hrunning : ∀ task ∈ s.running, s.now < task.finish := by
          intro task htask
          simpa [isDue] using List.find?_eq_none.mp hfind task htask
        split at h
        · next hwaiting =>
          split at h
          · next hready =>
            obtain rfl := Option.some.inj h
            exact .start hwaiting hready.1 hready.2
          · next hblocked =>
            obtain rfl := Option.some.inj h
            refine .advance ⟨hsent, hrunning, ?_, by simp [hwaiting], htime.1, htime.2⟩
            intro _ hpause
            exact Nat.eq_zero_of_not_pos fun hpermit => hblocked ⟨hpause, hpermit⟩
        · next hwaiting =>
          split at h
          · next hopen =>
            obtain rfl := Option.some.inj h
            exact .close hwaiting hopen
          · next hclosed =>
            obtain rfl := Option.some.inj h
            exact .advance ⟨hsent, hrunning, by simp [hwaiting], fun _ => by simpa using hclosed,
              htime.1, htime.2⟩

theorem isOver_of_next? {s : State α} {l : Limits} (h : s.next? l = none) : s.isOver l = true := by
  rw [next?] at h
  split at h
  · cases h
  · split at h
    · next hover => exact hover
    · repeat' split at h
      all_goals cases h

def left (s : State α) (l : Limits) : Nat :=
  3 * s.waiting.length + 2 * s.running.length + s.sent.length + s.isOpen.toNat + (l.horizon - s.now)

theorem foldr_min_le (ts : List Nat) (horizon : Nat) : ts.foldr min horizon ≤ horizon := by
  induction ts with
  | nil => exact Nat.le_refl horizon
  | cons t ts ih => exact Nat.le_trans (Nat.min_le_right t _) ih

theorem foldr_min_le_of_mem {ts : List Nat} {t : Nat} (ht : t ∈ ts) (horizon : Nat) :
    ts.foldr min horizon ≤ t := by
  induction ts with
  | nil => cases ht
  | cons u ts ih =>
    rcases List.mem_cons.mp ht with rfl | ht
    · exact Nat.min_le_left t _
    · exact Nat.le_trans (Nat.min_le_right u _) (ih ht)

theorem lt_foldr_min {ts : List Nat} {now horizon : Nat} (hts : ∀ t ∈ ts, now < t)
    (hhorizon : now < horizon) : now < ts.foldr min horizon := by
  induction ts with
  | nil => exact hhorizon
  | cons t ts ih =>
    have ht := hts t (by simp)
    have hrest := ih fun u hu => hts u (by simp [hu])
    exact Nat.lt_min.mpr ⟨ht, hrest⟩

theorem moment_le (s : State α) (l : Limits) : s.moment l ≤ l.horizon := foldr_min_le _ _

theorem moment_le_finish {s : State α} {t : Task α} (ht : t ∈ s.running) (l : Limits) :
    s.moment l ≤ t.finish :=
  foldr_min_le_of_mem (List.mem_append_right _ (List.mem_map_of_mem ht)) l.horizon

theorem moment_le_resume {s : State α} (hwaiting : s.waiting ≠ []) (hpause : s.now < s.resume)
    (l : Limits) : s.moment l ≤ s.resume := by
  have hpausing : ¬(s.waiting = [] ∨ s.resume ≤ s.now) := by
    simp [hwaiting, hpause]
  apply foldr_min_le_of_mem
  simp [timers, hpausing]

theorem IsIdle.lt_moment {s : State α} {l : Limits} (h : s.IsIdle l) : s.now < s.moment l := by
  apply lt_foldr_min ?_ h.inTime
  intro time htime
  rcases List.mem_append.mp htime with htime | htime
  · split at htime
    · cases htime
    · next hpause =>
      rw [List.mem_singleton.mp htime]
      exact Nat.lt_of_not_le fun hle => hpause (Or.inr hle)
  · obtain ⟨t, ht, rfl⟩ := List.mem_map.mp htime
    exact h.running t ht

theorem length_report?_le (t : Task α) : t.report?.toList.length ≤ 1 := by
  cases t.report? <;> simp

theorem Step.left_lt {s t : State α} {l : Limits} (h : Step l s t) : t.left l < s.left l := by
  cases h with
  | receive hsent =>
    simp only [left, State.receive, hsent, List.length_cons]
    omega
  | @finish _ _ task hrunning _ =>
    have hreport := length_report?_le task
    simp only [left, State.finish, hrunning, List.length_append, List.length_cons]
    omega
  | start hwaiting _ _ =>
    simp only [left, State.start, hwaiting, List.length_append, List.length_cons, List.length_nil]
    omega
  | close _ hopen =>
    simp only [left, State.close, hopen, Bool.toNat_true, Bool.toNat_false]
    omega
  | advance hidle =>
    have hlater := hidle.lt_moment
    have hle := s.moment_le l
    simp only [left, State.advance]
    omega

def final (s : State α) (l : Limits) : State α :=
  match _hnext : s.next? l with
  | none => s
  | some t => t.final l
termination_by s.left l
decreasing_by exact (step_of_next? _hnext).left_lt

end State

/-- What a batch brings, in order of completion, with the tasks that broke down last. -/
structure Outcome (α : Type) where
  results : List α
  errors : List FetchError
  timedOut : Option Nat
  elapsed : Nat
  starts : List (Option Nat)

namespace State

def missing (s : State α) (total : Nat) : List FetchError :=
  ((List.range total).filter fun i => !s.received.any fun r => r.index = i).map fun i =>
    .taskAborted i "task panicked or was cancelled"

def outcome (s : State α) (l : Limits) (total : Nat) : Outcome α :=
  { results := s.received.filterMap Report.value?
    errors := s.received.filterMap Report.error? ++ if s.isDone then s.missing total else []
    timedOut := if s.isDone then none else some l.timeout
    elapsed := if s.isDone then s.now else l.timeout
    starts := (List.range total).map fun i =>
      (s.started.find? fun t => t.index = i).map Task.start }

end State

def run (l : Limits) (jobs : List (Job α)) : Outcome α :=
  ((begin l jobs).final l).outcome l jobs.length

def Outcome.toResult (o : Outcome α) : Except FetchError (List α) :=
  match o.timedOut with
  | some limit => .error (.timeout (limit * nanosPerMilli))
  | none => if o.errors.isEmpty then .ok o.results else .error (.aggregated o.errors)

end Schedule

end PlatformCatalog
