import Mathlib.Data.List.Infix
import Mathlib.Order.Bounds.Basic
import PlatformCatalog.Proofs.BatchSteps

/-!
# When tasks start

A task starts as soon as the pause after the last start is over and a permit
is free: the clock never passes a moment at which one more task may start.
So the moment of each start is determined by the tasks that started before,
in whatever order things happen.
-/

set_option autoImplicit false

namespace PlatformCatalog.Schedule

variable {α : Type} {l : Limits} {jobs : List (Job α)}

def Task.isUnfinished (t : Task α) (m : Nat) : Bool := t.start ≤ m && m < t.finish

def unfinished (ts : List (Task α)) (m : Nat) : Nat := ts.countP fun t => t.isUnfinished m

/-- Whether one more task may start at a moment, after those that started earlier. -/
def MayStart (l : Limits) (earlier : List (Task α)) (m : Nat) : Prop :=
  (∀ last ∈ earlier.getLast?, last.start + l.wait ≤ m) ∧ unfinished earlier m < max 1 l.concurrency

/-- Each task has started in its turn and at the earliest moment at which it could. -/
structure OnSchedule (l : Limits) (jobs : List (Job α)) (s : State α) : Prop where
  inTurn : ∀ (k : Nat) (t : Task α), s.started[k]? = some t →
    t.index = k ∧ jobs[k]? = some t.job
  bounded : ∀ m, unfinished s.started m ≤ max 1 l.concurrency
  spaced : s.started.Pairwise fun t u => t.start + l.wait ≤ u.start
  /-- The tasks that started earlier determine the start of the next one. -/
  earliest : ∀ earlier t, earlier ++ [t] <+: s.started →
    IsLeast {m | MayStart l earlier m} t.start
  inTime : ∀ t ∈ s.started, t.start ≤ l.horizon
  /-- A job is left out only if it could not have started before the deadline. -/
  complete : s.isOver l = true → s.started.length < jobs.length →
    ∀ m, MayStart l s.started m → l.horizon ≤ m

theorem permits_eq (l : Limits) : l.permits = max 1 l.concurrency := Nat.max_comm _ _

theorem Task.isUnfinished_iff (t : Task α) (m : Nat) :
    t.isUnfinished m = true ↔ t.start ≤ m ∧ m < t.finish := by
  simp [isUnfinished]

theorem Sound.unfinished_eq {ended : List (Task α)} {s : State α} (h : Sound l jobs ended s)
    (m : Nat) : unfinished s.started m = unfinished ended m + unfinished s.running m := by
  rw [unfinished, h.tasks.countP_eq, List.countP_append]
  rfl

theorem unfinished_concat (ts : List (Task α)) (t : Task α) (m : Nat) :
    unfinished (ts ++ [t]) m = unfinished ts m + if t.isUnfinished m then 1 else 0 := by
  simp [unfinished, List.countP_append, List.countP_singleton]

theorem unfinished_le_of_started {ts : List (Task α)} {m since : Nat}
    (hstarted : ∀ t ∈ ts, t.start ≤ since) (hsince : since ≤ m) :
    unfinished ts m ≤ unfinished ts since := by
  apply List.countP_mono_left
  intro t ht hunfinished
  have hstart := hstarted t ht
  rw [Task.isUnfinished_iff] at hunfinished ⊢
  omega

theorem Sound.unfinished_le {ended : List (Task α)} {s : State α} (h : Sound l jobs ended s) :
    unfinished s.started s.now ≤ s.running.length := by
  have hended : unfinished ended s.now = 0 := by
    apply List.countP_eq_zero.mpr
    intro t ht
    have hpast := h.endedBy t ht
    rw [Task.isUnfinished_iff]
    omega
  have hrunning : unfinished s.running s.now ≤ s.running.length := List.countP_le_length
  rw [h.unfinished_eq]
  omega

/-- All running tasks are unfinished until the first of them ends. -/
theorem Sound.le_unfinished {ended : List (Task α)} {s : State α} (h : Sound l jobs ended s)
    {m : Nat} (hnow : s.now ≤ m) (hrunning : ∀ t ∈ s.running, m < t.finish) :
    s.running.length ≤ unfinished s.started m := by
  have hall : unfinished s.running m = s.running.length := by
    apply List.countP_eq_length.mpr
    intro t ht
    have hstart := h.startedBy t (h.tasks.mem_iff.mpr (by simp [ht]))
    have hfinish := hrunning t ht
    rw [Task.isUnfinished_iff]
    omega
  rw [h.unfinished_eq]
  omega

theorem unfinished_le_permits {ts : List (Task α)}
    (hstart : ∀ earlier t, earlier ++ [t] <+: ts → MayStart l earlier t.start)
    (hspaced : ts.Pairwise fun t u => t.start + l.wait ≤ u.start) (m : Nat) :
    unfinished ts m ≤ max 1 l.concurrency := by
  induction ts using List.reverseRecOn with
  | nil => exact Nat.zero_le _
  | append_singleton ts t ih =>
    obtain ⟨hrest, -, hlast⟩ := List.pairwise_append.mp hspaced
    have hbefore := ih (fun earlier u hu => hstart earlier u (hu.trans (List.prefix_append ts [t])))
      hrest
    rw [unfinished_concat]
    by_cases hunfinished : t.isUnfinished m = true
    · -- The tasks before had left a permit when `t` started, and none has started since.
      have hpermit := (hstart ts t List.prefix_rfl).2
      have hsince : t.start ≤ m := ((t.isUnfinished_iff m).mp hunfinished).1
      have hstarted : ∀ u ∈ ts, u.start ≤ t.start := by
        intro u hu
        have hpause := hlast u hu t (by simp)
        omega
      have hle := unfinished_le_of_started hstarted hsince
      simp only [hunfinished, if_true]
      omega
    · simpa [hunfinished] using hbefore

/-- No task has started too early, and none is late. -/
structure Prompt (l : Limits) (s : State α) : Prop where
  paused : ∀ t ∈ s.started, t.start + l.wait ≤ s.resume
  resumed : ∀ m, (∀ last ∈ s.started.getLast?, last.start + l.wait ≤ m) → s.resume ≤ m
  spaced : s.started.Pairwise fun t u => t.start + l.wait ≤ u.start
  notLate : s.waiting ≠ [] → ∀ m, MayStart l s.started m → s.now ≤ m
  earliest : ∀ earlier t, earlier ++ [t] <+: s.started →
    IsLeast {m | MayStart l earlier m} t.start

theorem prompt_begin (l : Limits) (jobs : List (Job α)) : Prompt l (begin l jobs) where
  paused := by simp [begin]
  resumed := fun m _ => Nat.zero_le m
  spaced := .nil
  notLate := fun _ m _ => Nat.zero_le m
  earliest := by simp [begin]

namespace Prompt

variable {ended : List (Task α)} {s : State α}

theorem start (h : Prompt l s) (hsound : Sound l jobs ended s) {job : Job α} {index : Nat}
    {rest : List (Job α × Nat)} (hwaiting : s.waiting = (job, index) :: rest)
    (hpause : s.resume ≤ s.now) (hpermit : 0 < s.permits) :
    Prompt l (s.start l job index rest) where
  paused := by
    have hlater : s.resume ≤ s.now + l.wait := hpause.trans (Nat.le_add_right s.now l.wait)
    exact forall_mem_concat (fun t ht => (h.paused t ht).trans hlater) (le_refl (s.now + l.wait))
  resumed := by
    intro m hm
    exact hm ⟨index, s.now, job⟩ (by simp [State.start])
  spaced := pairwise_concat h.spaced fun t ht => (h.paused t ht).trans hpause
  notLate := by
    intro _ m hm
    have hlast := hm.1 ⟨index, s.now, job⟩ (by simp [State.start])
    exact (Nat.le_add_right s.now l.wait).trans hlast
  earliest := by
    intro earlier t hprefix
    rcases List.prefix_concat_iff.mp hprefix with heq | hprefix
    · obtain ⟨rfl, ht⟩ := List.append_inj' heq rfl
      rw [List.cons.inj ht |>.1]
      -- A permit is free now, and the clock has not passed an earlier moment of that kind.
      constructor
      · constructor
        · intro last hlast
          exact (h.paused last (List.mem_of_mem_getLast? hlast)).trans hpause
        · have hrunning := hsound.unfinished_le
          have hpermits := hsound.permits
          rw [permits_eq] at hpermits
          show unfinished s.started s.now < max 1 l.concurrency
          omega
      · intro m hm
        exact h.notLate (by simp [hwaiting]) m hm
    · exact h.earliest earlier t hprefix

theorem advance (h : Prompt l s) (hsound : Sound l jobs ended s) (hidle : s.IsIdle l) :
    Prompt l (s.advance l) :=
  { h with
    notLate := by
      intro hwaiting m hm
      have hnow := h.notLate hwaiting m hm
      have hresume := h.resumed m hm.1
      by_cases hpause : s.resume ≤ s.now
      · -- All permits are taken until one of the running tasks ends.
        have hpermits := hsound.permits
        rw [hidle.blocked hwaiting hpause, permits_eq] at hpermits
        by_contra hearly
        have hrunning : ∀ t ∈ s.running, m < t.finish := by
          intro t ht
          exact Nat.lt_of_lt_of_le (Nat.lt_of_not_le hearly) (State.moment_le_finish ht l)
        have hall := hsound.le_unfinished hnow hrunning
        have hfew : unfinished s.started m < max 1 l.concurrency := hm.2
        omega
      · have hmoment : s.moment l ≤ s.resume :=
          s.moment_le_resume hwaiting (Nat.lt_of_not_le hpause) l
        exact hmoment.trans hresume }

theorem step (h : Prompt l s) (hsound : Sound l jobs ended s) {t : State α}
    (hstep : State.Step l s t) : Prompt l t := by
  cases hstep with
  | receive _ => exact { h with }
  | finish _ _ => exact { h with }
  | start hwaiting hpause hpermit => exact h.start hsound hwaiting hpause hpermit
  | close _ _ => exact { h with }
  | advance hidle => exact h.advance hsound hidle

end Prompt

theorem Reachable.prompt {s : State α} (h : Reachable l jobs s) : Prompt l s := by
  induction h with
  | begin => exact prompt_begin l jobs
  | step hreach hstep ih =>
    obtain ⟨ended, hsound⟩ := hreach.sound
    exact ih.step hsound hstep

theorem Sound.getElem?_started {ended : List (Task α)} {s : State α} (h : Sound l jobs ended s)
    {k : Nat} {t : Task α} (ht : s.started[k]? = some t) :
    t.index = k ∧ jobs[k]? = some t.job := by
  have hturn : jobs.zipIdx[k]? = some (t.job, t.index) := by
    obtain ⟨hk, -⟩ := List.getElem?_eq_some_iff.mp ht
    rw [← h.inTurn, List.getElem?_append_left (by simpa using hk), List.getElem?_map, ht]
    rfl
  rw [List.getElem?_zipIdx] at hturn
  obtain ⟨job, hjob, heq⟩ := Option.map_eq_some_iff.mp hturn
  obtain ⟨hsame, hindex⟩ := Prod.mk.inj heq
  rw [← hsame]
  exact ⟨by omega, hjob⟩

theorem Sound.find?_started {ended : List (Task α)} {s : State α} (h : Sound l jobs ended s)
    (k : Nat) : s.started.find? (fun t => t.index = k) = s.started[k]? := by
  cases hk : s.started[k]? with
  | none =>
    apply List.find?_eq_none.mpr
    intro t ht
    obtain ⟨i, hi, rfl⟩ := List.mem_iff_getElem.mp ht
    have hindex := (h.getElem?_started (List.getElem?_eq_getElem hi)).1
    have hlength := List.getElem?_eq_none_iff.mp hk
    simp only [decide_eq_true_eq]
    omega
  | some t =>
    obtain ⟨hlength, hget⟩ := List.getElem?_eq_some_iff.mp hk
    apply List.find?_eq_some_iff_getElem.mpr
    refine ⟨by simpa using (h.getElem?_started hk).1, k, hlength, hget, ?_⟩
    intro i hi
    have hindex := (h.getElem?_started (List.getElem?_eq_getElem (hi.trans hlength))).1
    simp only [Bool.not_eq_true', decide_eq_false_iff_not]
    omega

theorem Sound.starts_outcome {ended : List (Task α)} {s : State α} (h : Sound l jobs ended s)
    (total : Nat) : (s.outcome l total).starts =
      (List.range total).map fun k => s.started[k]?.map Task.start := by
  simp only [State.outcome, h.find?_started]

theorem Reachable.onSchedule {s : State α} (h : Reachable l jobs s) : OnSchedule l jobs s := by
  obtain ⟨ended, hsound⟩ := h.sound
  have hprompt := h.prompt
  exact {
    inTurn := fun k t ht => hsound.getElem?_started ht
    bounded := unfinished_le_permits (fun earlier t ht => (hprompt.earliest earlier t ht).1)
      hprompt.spaced
    spaced := hprompt.spaced
    earliest := hprompt.earliest
    inTime := fun t ht => (hsound.startedBy t ht).trans hsound.inTime
    complete := by
      intro hover hlength m hm
      have hwaiting : s.waiting ≠ [] := by
        intro hnone
        have hturn := congrArg List.length hsound.inTurn
        simp only [hnone, List.append_nil, List.length_map, List.length_zipIdx] at hturn
        omega
      have hopen : s.isOpen = true := by
        by_contra hclosed
        exact hwaiting (hsound.closed (by simpa using hclosed))
      have hlate : l.horizon ≤ s.now := by
        have htime : s.sent = [] ∧ l.horizon ≤ s.now := by
          simpa [State.isOver, State.isDone, hopen] using hover
        exact htime.2
      exact hlate.trans (hprompt.notLate hwaiting m hm) }

/-- Whatever order things happen in at the same moment, a batch keeps to its schedule, and so does
the run that ends it. -/
theorem batch_on_schedule (l : Limits) (jobs : List (Job α)) :
    (∀ s, Reachable l jobs s → OnSchedule l jobs s) ∧
      ∃ s, Reachable l jobs s ∧ s.isOver l = true ∧ run l jobs = s.outcome l jobs.length ∧
        (run l jobs).starts = (List.range jobs.length).map fun k => s.started[k]?.map Task.start := by
  have hreach : Reachable l jobs ((begin l jobs).final l) := Reachable.begin.final
  obtain ⟨ended, hsound⟩ := hreach.sound
  constructor
  · intro s hs
    exact hs.onSchedule
  · exact ⟨_, hreach, State.isOver_final _ l, rfl, hsound.starts_outcome jobs.length⟩

def brokenInBetween : List (Job Nat) :=
  [⟨30, .done 1⟩, ⟨15, .broken "index out of bounds"⟩, ⟨5, .done 3⟩]

def twoAtATime : Limits := { concurrency := 2, wait := 10, timeout := 100 }

theorem batch_on_schedule_broken_in_between :
    (∃ s, Reachable twoAtATime brokenInBetween s ∧ s.isOver twoAtATime = true ∧
      OnSchedule twoAtATime brokenInBetween s) ∧
      (run twoAtATime brokenInBetween).starts = [some 0, some 10, some 25] := by
  obtain ⟨hschedule, s, hreach, hover, -⟩ := batch_on_schedule twoAtATime brokenInBetween
  have hstarts : (run twoAtATime brokenInBetween).starts = [some 0, some 10, some 25] := by cbv
  exact ⟨⟨s, hreach, hover, hschedule s hreach⟩, hstarts⟩

end PlatformCatalog.Schedule
