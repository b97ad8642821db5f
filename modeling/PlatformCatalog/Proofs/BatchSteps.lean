import Mathlib.Data.List.Infix
import Mathlib.Data.List.Perm.Basic
import PlatformCatalog.Fetch.Schedule

/-!
# What a batch keeps

Whatever happens to a batch, and in whatever order, each job has started at
most once and in its turn, each task that has started is running or has ended,
each permit is free or taken by a running task, and what was sent are the
reports of the ended tasks in the order of their ends.
-/

set_option autoImplicit false

namespace PlatformCatalog.Schedule

variable {α : Type} {l : Limits} {jobs : List (Job α)}

/-- The states of a batch, in any order of what happens at the same moment. -/
inductive Reachable (l : Limits) (jobs : List (Job α)) : State α → Prop
  | begin : Reachable l jobs (begin l jobs)
  | step {s t : State α} (h : Reachable l jobs s) (hstep : State.Step l s t) : Reachable l jobs t

theorem Reachable.final {s : State α} (h : Reachable l jobs s) : Reachable l jobs (s.final l) := by
  fun_induction State.final s l with
  | case1 s hnext => exact h
  | case2 s t hnext ih => exact ih (h.step (State.step_of_next? hnext))

theorem State.isOver_final (s : State α) (l : Limits) : (s.final l).isOver l = true := by
  fun_induction State.final s l with
  | case1 s hnext => exact isOver_of_next? hnext
  | case2 s t hnext ih => exact ih

theorem forall_mem_concat {β : Type} {P : β → Prop} {xs : List β} {x : β} (hxs : ∀ y ∈ xs, P y)
    (hx : P x) : ∀ y ∈ xs ++ [x], P y :=
  List.forall_mem_append.mpr ⟨hxs, List.forall_mem_singleton.mpr hx⟩

theorem pairwise_concat {β : Type} {R : β → β → Prop} {xs : List β} {x : β}
    (hxs : xs.Pairwise R) (hx : ∀ y ∈ xs, R y x) : (xs ++ [x]).Pairwise R := by
  apply List.pairwise_append.mpr
  exact ⟨hxs, List.pairwise_singleton R x, fun y hy => List.forall_mem_singleton.mpr (hx y hy)⟩

/-- The state of a batch is right, given the tasks that have ended, in the order of their ends. -/
structure Sound (l : Limits) (jobs : List (Job α)) (ended : List (Task α)) (s : State α) :
    Prop where
  inTurn : s.started.map (fun t => (t.job, t.index)) ++ s.waiting = jobs.zipIdx
  tasks : s.started.Perm (ended ++ s.running)
  permits : s.permits + s.running.length = l.permits
  reports : s.received ++ s.sent = ended.filterMap Task.report?
  closed : s.isOpen = false → s.waiting = []
  inTime : s.now ≤ l.horizon
  startedBy : ∀ t ∈ s.started, t.start ≤ s.now
  busyUntil : ∀ t ∈ s.running, s.now ≤ t.finish
  endedBy : ∀ t ∈ ended, t.finish ≤ s.now
  inOrder : ended.Pairwise fun t u => t.finish ≤ u.finish

theorem sound_begin (l : Limits) (jobs : List (Job α)) : Sound l jobs [] (begin l jobs) where
  inTurn := rfl
  tasks := .nil
  permits := rfl
  reports := rfl
  closed := by simp [begin]
  inTime := Nat.zero_le _
  startedBy := by simp [begin]
  busyUntil := by simp [begin]
  endedBy := by simp
  inOrder := .nil

namespace Sound

variable {ended : List (Task α)} {s : State α}

theorem receive (h : Sound l jobs ended s) {r : Report α} {rest : List (Report α)}
    (hsent : s.sent = r :: rest) : Sound l jobs ended (s.receive r rest) :=
  { h with
    reports := by
      have hreports := h.reports
      rw [hsent] at hreports
      simpa [State.receive] using hreports }

theorem finish (h : Sound l jobs ended s) {before after : List (Task α)} {t : Task α}
    (hrunning : s.running = before ++ t :: after) (hdue : t.finish ≤ s.now) :
    Sound l jobs (ended ++ [t]) (s.finish t (before ++ after)) where
  inTurn := h.inTurn
  tasks := by
    have htasks := h.tasks
    rw [hrunning] at htasks
    show s.started.Perm (ended ++ [t] ++ (before ++ after))
    rw [List.append_assoc, List.singleton_append]
    exact htasks.trans (List.perm_middle.append_left ended)
  permits := by
    have hpermits := h.permits
    simp only [hrunning, List.length_append, List.length_cons] at hpermits
    simp only [State.finish, List.length_append]
    omega
  reports := by
    show s.received ++ (s.sent ++ t.report?.toList) = _
    rw [← List.append_assoc, h.reports, List.filterMap_append]
    cases hreport : t.report? <;> simp [hreport]
  closed := h.closed
  inTime := h.inTime
  startedBy := h.startedBy
  busyUntil := by
    intro u hu
    apply h.busyUntil u
    rw [hrunning]
    rcases List.mem_append.mp hu with hu | hu <;> simp [hu]
  endedBy := forall_mem_concat h.endedBy hdue
  inOrder := by
    -- No running task has ended before now, and no ended one after it.
    have hlast : s.now ≤ t.finish := h.busyUntil t (by simp [hrunning])
    exact pairwise_concat h.inOrder fun u hu => (h.endedBy u hu).trans hlast

theorem start (h : Sound l jobs ended s) {job : Job α} {index : Nat}
    {rest : List (Job α × Nat)} (hwaiting : s.waiting = (job, index) :: rest)
    (hpermit : 0 < s.permits) : Sound l jobs ended (s.start l job index rest) where
  inTurn := by
    have hturn := h.inTurn
    rw [hwaiting] at hturn
    simpa [State.start] using hturn
  tasks := by
    show (s.started ++ [_]).Perm (ended ++ (s.running ++ [_]))
    rw [← List.append_assoc]
    exact h.tasks.append_right _
  permits := by
    have hpermits := h.permits
    simp only [State.start, List.length_append, List.length_singleton]
    omega
  reports := h.reports
  closed := by
    intro hclosed
    have hnone := h.closed hclosed
    rw [hwaiting] at hnone
    cases hnone
  inTime := h.inTime
  startedBy := forall_mem_concat h.startedBy (le_refl s.now)
  busyUntil := forall_mem_concat h.busyUntil (Nat.le_add_right s.now job.duration)
  endedBy := h.endedBy
  inOrder := h.inOrder

theorem close (h : Sound l jobs ended s) (hwaiting : s.waiting = []) :
    Sound l jobs ended s.close :=
  { h with closed := fun _ => hwaiting }

theorem advance (h : Sound l jobs ended s) (hidle : s.IsIdle l) :
    Sound l jobs ended (s.advance l) :=
  have hlater : s.now ≤ s.moment l := hidle.lt_moment.le
  { h with
    inTime := s.moment_le l
    startedBy := fun t ht => (h.startedBy t ht).trans hlater
    busyUntil := fun _ ht => s.moment_le_finish ht l
    endedBy := fun t ht => (h.endedBy t ht).trans hlater }

theorem step (h : Sound l jobs ended s) {t : State α} (hstep : State.Step l s t) :
    ∃ others, Sound l jobs others t := by
  cases hstep with
  | receive hsent => exact ⟨ended, h.receive hsent⟩
  | finish hrunning hdue => exact ⟨_, h.finish hrunning hdue⟩
  | start hwaiting _ hpermit => exact ⟨ended, h.start hwaiting hpermit⟩
  | close hwaiting _ => exact ⟨ended, h.close hwaiting⟩
  | advance hidle => exact ⟨ended, h.advance hidle⟩

end Sound

theorem Reachable.sound {s : State α} (h : Reachable l jobs s) :
    ∃ ended, Sound l jobs ended s := by
  induction h with
  | begin => exact ⟨[], sound_begin l jobs⟩
  | step _ hstep ih =>
    obtain ⟨ended, hsound⟩ := ih
    exact hsound.step hstep

end PlatformCatalog.Schedule
