import Mathlib.Data.List.Forall2
import PlatformCatalog.Proofs.BatchOutcome
import PlatformCatalog.Proofs.BatchStarts

/-!
# More permits

A batch that may run more tasks at once is no worse off. Each task starts no
later, since those before it started no later and so ended no later. A batch
that was over in time is still over in time, and no later than before.
-/

set_option autoImplicit false

namespace PlatformCatalog.Schedule

variable {α : Type} {l : Limits} {more : Nat} {jobs : List (Job α)}

structure Task.NoLater (t' t : Task α) : Prop where
  job : t'.job = t.job
  start : t'.start ≤ t.start

theorem Task.NoLater.finish {t' t : Task α} (h : t'.NoLater t) : t'.finish ≤ t.finish := by
  rw [Task.finish, Task.finish, h.job]
  exact Nat.add_le_add_right h.start _

theorem exists_getElem?_of_forall₂ {β γ : Type} {R : β → γ → Prop} {xs : List β} {ys : List γ}
    (h : xs.Forall₂ R ys) {k : Nat} {x : β} (hx : xs[k]? = some x) :
    ∃ y, ys[k]? = some y ∧ R x y := by
  induction h generalizing k with
  | nil => cases hx
  | @cons x y xs ys hxy _ ih =>
    cases k with
    | zero =>
      obtain rfl := Option.some.inj hx
      exact ⟨y, rfl, hxy⟩
    | succ k => exact ih hx

theorem unfinished_le_of_noLater {ts' ts : List (Task α)} (h : ts'.Forall₂ Task.NoLater ts)
    {m : Nat} (hm : ∀ t ∈ ts, t.start ≤ m) : unfinished ts' m ≤ unfinished ts m := by
  induction h with
  | nil => exact le_rfl
  | @cons t' t ts' ts ht _ ih =>
    have hrest := ih fun u hu => hm u (List.mem_cons_of_mem t hu)
    have hstart : t.start ≤ m := hm t List.mem_cons_self
    have hone : t'.isUnfinished m = true → t.isUnfinished m = true := by
      have hfinish := ht.finish
      rw [Task.isUnfinished_iff, Task.isUnfinished_iff]
      omega
    simp only [unfinished, List.countP_cons] at hrest ⊢
    by_cases h' : t'.isUnfinished m = true
    · simp only [h', hone h', if_true]
      omega
    · simp only [h', Bool.false_eq_true, if_false]
      omega

theorem mayStart_of_noLater (hmore : l.concurrency ≤ more) {ts' ts : List (Task α)}
    (h : ts'.Forall₂ Task.NoLater ts) {m : Nat} (hm : ∀ t ∈ ts, t.start ≤ m)
    (hmay : MayStart l ts m) : MayStart { l with concurrency := more } ts' m := by
  obtain ⟨hpause, hpermit⟩ := hmay
  constructor
  · intro last' hlast'
    rw [Option.mem_def, List.getLast?_eq_getElem?, h.length_eq] at hlast'
    obtain ⟨last, hlast, hno⟩ := exists_getElem?_of_forall₂ h hlast'
    rw [← List.getLast?_eq_getElem?] at hlast
    have hstart := hno.start
    have hwait := hpause last hlast
    show last'.start + l.wait ≤ m
    omega
  · have hfew := unfinished_le_of_noLater h hm
    show unfinished ts' m < max 1 more
    omega

theorem OnSchedule.length_le {s : State α} (h : OnSchedule l jobs s) :
    s.started.length ≤ jobs.length := by
  by_contra hlong
  have hk : jobs.length < s.started.length := by omega
  have hjob := (h.inTurn jobs.length _ (List.getElem?_eq_getElem hk)).2
  simp at hjob

def State.StartsNoLater (s' s : State α) : Prop :=
  ∃ ts', ts' <+: s'.started ∧ ts'.Forall₂ Task.NoLater s.started

theorem State.StartsNoLater.getElem? {s' s : State α} (h : s'.StartsNoLater s) {k : Nat}
    {t : Task α} (ht : s.started[k]? = some t) :
    ∃ t', s'.started[k]? = some t' ∧ t'.NoLater t := by
  obtain ⟨ts', hfront, hno⟩ := h
  obtain ⟨t', ht', hle⟩ := exists_getElem?_of_forall₂ (List.Forall₂.flip hno) ht
  obtain ⟨hk, rfl⟩ := List.getElem?_eq_some_iff.mp ht'
  exact ⟨_, List.prefix_iff_getElem?.mp hfront k hk, hle⟩

/-- The induction is on the tasks that started with fewer permits: the next of them could have
started then with more permits, too. -/
theorem OnSchedule.startsNoLater {s s' : State α} (h : OnSchedule l jobs s)
    (h' : OnSchedule { l with concurrency := more } jobs s') (hmore : l.concurrency ≤ more)
    (hover' : s'.isOver { l with concurrency := more } = true)
    (hearly : ∀ t ∈ s.started, t.start < l.horizon) : s'.StartsNoLater s := by
  suffices hall : ∀ ts, ts <+: s.started → ∃ ts', ts' <+: s'.started ∧ ts'.Forall₂ Task.NoLater ts
    from hall _ List.prefix_rfl
  intro ts hts
  induction ts using List.reverseRecOn with
  | nil => exact ⟨[], List.nil_prefix, .nil⟩
  | append_singleton ts t ih =>
    obtain ⟨ts', ⟨rest', hrest'⟩, hno⟩ := ih ((List.prefix_append ts [t]).trans hts)
    have hlength : ts'.length = ts.length := hno.length_eq
    have hbefore : ∀ u ∈ ts, u.start ≤ t.start := by
      intro u hu
      have hspaced := (List.pairwise_append.mp (h.spaced.sublist hts.sublist)).2.2 u hu t (by simp)
      omega
    have hmay : MayStart { l with concurrency := more } ts' t.start :=
      mayStart_of_noLater hmore hno hbefore (h.earliest ts t hts).1
    have htask : s.started[ts.length]? = some t := by
      obtain ⟨rest, hrest⟩ := hts
      rw [← hrest]
      simp
    cases rest' with
    | nil =>
      -- The task would have been left out although it could have started before the deadline.
      rw [List.append_nil] at hrest'
      have hshort : s'.started.length < jobs.length := by
        rw [← hrest', hlength]
        exact (List.getElem?_eq_some_iff.mp htask).1.trans_le h.length_le
      have hlate := h'.complete hover' hshort t.start (hrest' ▸ hmay)
      exact absurd (hearly t (List.mem_of_getElem? htask)) (Nat.not_lt.mpr hlate)
    | cons t' rest' =>
      have hfront : ts' ++ [t'] <+: s'.started := ⟨rest', by simpa using hrest'⟩
      have htask' : s'.started[ts.length]? = some t' := by
        rw [← hrest', ← hlength]
        simp
      have hjob : t'.job = t.job := by
        have hsame := (h'.inTurn _ _ htask').2
        rw [(h.inTurn _ _ htask).2] at hsame
        exact (Option.some.inj hsame).symm
      have hstart : t'.start ≤ t.start := (h'.earliest ts' t' hfront).2 hmay
      exact ⟨ts' ++ [t'], hfront, List.rel_append hno (.cons ⟨hjob, hstart⟩ .nil)⟩

theorem Reachable.now_le_finish {s : State α} (h : Reachable l jobs s) (hwaiting : s.waiting = []) :
    s.now = 0 ∨ ∃ t ∈ s.started, s.now ≤ t.finish := by
  induction h with
  | begin => exact .inl rfl
  | @step s _ hreach hstep ih =>
    cases hstep with
    | receive _ => exact ih hwaiting
    | finish _ _ => exact ih hwaiting
    | start _ _ _ =>
      exact .inr ⟨_, List.mem_append_right _ (List.mem_singleton.mpr rfl), Nat.le_add_right _ _⟩
    | close _ _ => exact ih hwaiting
    | advance hidle =>
      obtain ⟨ended, hsound⟩ := hreach.sound
      have hrunning : s.running ≠ [] := by
        intro hnone
        have hdone := (State.isDone_iff s).mpr ⟨hidle.closed hwaiting, hnone, hidle.sent⟩
        rw [hidle.busy] at hdone
        cases hdone
      obtain ⟨t, ht⟩ := List.exists_mem_of_ne_nil _ hrunning
      exact .inr ⟨t, hsound.tasks.mem_iff.mpr (List.mem_append_right _ ht),
        State.moment_le_finish ht l⟩

/-- Nothing starts at the deadline or later, and nothing ends then in a batch that is done. -/
structure InTime (l : Limits) (s : State α) : Prop where
  starts : ∀ t ∈ s.started, t.start < l.horizon
  finishes : s.isDone = true → 0 < l.horizon ∧ ∀ t ∈ s.started, t.finish < l.horizon

theorem Sound.finish_le_of_isDone {ended : List (Task α)} {s : State α} (h : Sound l jobs ended s)
    (hdone : s.isDone = true) : ∀ t ∈ s.started, t.finish ≤ s.now := by
  intro t ht
  have htasks := h.tasks.mem_iff.mp ht
  rw [((State.isDone_iff s).mp hdone).2.1, List.append_nil] at htasks
  exact h.endedBy t htasks

theorem Sound.length_started {ended : List (Task α)} {s : State α} (h : Sound l jobs ended s)
    (hwaiting : s.waiting = []) : s.started.length = jobs.length := by
  have hturn := congrArg List.length h.inTurn
  simpa [hwaiting] using hturn

section Compared

variable {s s' : State α} {ended : List (Task α)}

theorem Sound.all_started (h : Sound l jobs ended s) {ended' : List (Task α)}
    (h' : Sound { l with concurrency := more } jobs ended' s') (hdone : s.isDone = true)
    (hno : s'.StartsNoLater s) :
    s'.waiting = [] ∧ ∀ t' ∈ s'.started, ∃ t ∈ s.started, t'.NoLater t := by
  obtain ⟨ts', hfront, hno⟩ := hno
  have hlength := h.length_started (h.closed ((State.isDone_iff s).mp hdone).1)
  have hle := hfront.length_le
  have hturn := congrArg List.length h'.inTurn
  rw [List.length_append, List.length_map, List.length_zipIdx] at hturn
  rw [hno.length_eq] at hle
  have hall : ts' = s'.started := hfront.eq_of_length (by rw [hno.length_eq]; omega)
  refine ⟨List.length_eq_zero_iff.mp (by omega), ?_⟩
  intro t' ht'
  obtain ⟨k, hk⟩ := List.mem_iff_getElem?.mp ht'
  obtain ⟨t, ht, hle⟩ := exists_getElem?_of_forall₂ hno (hall ▸ hk)
  exact ⟨t, List.mem_of_getElem? ht, hle⟩

theorem isDone_of_startsNoLater (h : Sound l jobs ended s)
    (hreach' : Reachable { l with concurrency := more } jobs s')
    (hover' : s'.isOver { l with concurrency := more } = true) (htime : InTime l s)
    (hdone : s.isDone = true) (hno : s'.StartsNoLater s) : s'.isDone = true := by
  obtain ⟨ended', h'⟩ := hreach'.sound
  obtain ⟨hwaiting, hall⟩ := h.all_started h' hdone hno
  obtain ⟨hpos, hfinish⟩ := htime.finishes hdone
  obtain ⟨hsent, hdone' | hlate⟩ := State.sent_of_isOver hover'
  · exact hdone'
  -- At the deadline all tasks have ended, and the last of them started before.
  have hended : ∀ t' ∈ s'.started, t'.finish < s'.now := by
    intro t' ht'
    obtain ⟨t, ht, hle⟩ := hall t' ht'
    exact (hle.finish.trans_lt (hfinish t ht)).trans_le hlate
  have hrunning : s'.running = [] := by
    apply List.eq_nil_iff_forall_not_mem.mpr
    intro t' ht'
    have hbusy := h'.busyUntil t' ht'
    have hpast := hended t' (h'.tasks.mem_iff.mpr (List.mem_append_right _ ht'))
    omega
  have hclosed : s'.isOpen = false := by
    by_contra hopen
    have hlate : l.horizon ≤ s'.now := hlate
    rcases hreach'.last_start (by simpa using hopen) hwaiting with hzero | ⟨t', ht', hstart⟩
    · omega
    · have hpast := hended t' ht'
      have hfinish : t'.start ≤ t'.finish := Nat.le_add_right _ _
      omega
  exact (State.isDone_iff s').mpr ⟨hclosed, hrunning, hsent⟩

theorem now_le_of_startsNoLater (h : Sound l jobs ended s)
    (hreach' : Reachable { l with concurrency := more } jobs s') (hdone : s.isDone = true)
    (hno : s'.StartsNoLater s) : s'.now ≤ s.now := by
  obtain ⟨ended', h'⟩ := hreach'.sound
  obtain ⟨hwaiting, hall⟩ := h.all_started h' hdone hno
  obtain hzero | ⟨t', ht', hnow⟩ := hreach'.now_le_finish hwaiting
  · omega
  · obtain ⟨t, ht, hle⟩ := hall t' ht'
    exact hnow.trans (hle.finish.trans (h.finish_le_of_isDone hdone t ht))

end Compared

/-- The first outcome is no worse than the second. -/
structure Outcome.NoLater (o' o : Outcome α) : Prop where
  starts : ∀ k m : Nat, o.starts[k]? = some (some m) → ∃ m' ≤ m, o'.starts[k]? = some (some m')
  elapsed : o'.elapsed ≤ o.elapsed
  timedOut : o.timedOut = none → o'.timedOut = none

theorem timedOut_eq_none_iff (s : State α) (l : Limits) (total : Nat) :
    (s.outcome l total).timedOut = none ↔ s.isDone = true := by
  simp [State.outcome]

theorem Sound.starts_eq_some_iff {ended : List (Task α)} {s : State α} (h : Sound l jobs ended s)
    {k m : Nat} : (s.outcome l jobs.length).starts[k]? = some (some m) ↔
      ∃ t, s.started[k]? = some t ∧ t.start = m := by
  rw [h.starts_outcome, List.getElem?_map]
  by_cases hk : k < jobs.length
  · simp [List.getElem?_range hk]
  · have hnone : s.started[k]? = none := by
      by_contra hsome
      obtain ⟨t, ht⟩ := Option.ne_none_iff_exists'.mp hsome
      exact hk (List.getElem?_eq_some_iff.mp (h.getElem?_started ht).2).1
    have hrange : (List.range jobs.length)[k]? = none := List.getElem?_eq_none (by simpa using hk)
    rw [hrange]
    simp [hnone]

theorem noLater_outcome (hclock : l.slack = 0) (hmore : l.concurrency ≤ more) {s s' : State α}
    (hreach : Reachable l jobs s) (hreach' : Reachable { l with concurrency := more } jobs s')
    (hover' : s'.isOver { l with concurrency := more } = true) (htime : InTime l s) :
    (s'.outcome { l with concurrency := more } jobs.length).NoLater
      (s.outcome l jobs.length) := by
  obtain ⟨ended, h⟩ := hreach.sound
  obtain ⟨ended', h'⟩ := hreach'.sound
  have hno : s'.StartsNoLater s :=
    hreach.onSchedule.startsNoLater hreach'.onSchedule hmore hover' htime.starts
  have hdone' (hdone : s.isDone = true) : s'.isDone = true :=
    isDone_of_startsNoLater h hreach' hover' htime hdone hno
  constructor
  · intro k m hm
    obtain ⟨t, ht, rfl⟩ := h.starts_eq_some_iff.mp hm
    obtain ⟨t', ht', hle⟩ := hno.getElem? ht
    exact ⟨t'.start, hle.start, h'.starts_eq_some_iff.mpr ⟨t', ht', rfl⟩⟩
  · cases hdone : s.isDone with
    | true =>
      simp only [State.outcome, hdone, hdone' hdone, if_true]
      exact now_le_of_startsNoLater h hreach' hdone hno
    | false =>
      have hnow' : s'.now ≤ l.timeout + l.slack := h'.inTime
      simp only [State.outcome, hdone]
      split
      · show s'.now ≤ l.timeout
        omega
      · exact le_rfl
  · rw [timedOut_eq_none_iff, timedOut_eq_none_iff]
    exact hdone'

structure Timely (l : Limits) (s : State α) : Prop where
  closed : s.isOpen = false → 0 < l.horizon
  starts : ∀ t ∈ s.started, t.start < l.horizon
  finishes : ∀ t ∈ s.started, t ∈ s.running ∨ t.finish < l.horizon

namespace Timely

variable {s : State α}

theorem step (h : Timely l s) {t : State α} (hstep : State.Step l s t) (hnow : s.now < l.horizon) :
    Timely l t := by
  cases hstep with
  | receive _ => exact { h with }
  | @finish before after task hrunning hdue =>
    refine { h with finishes := ?_ }
    intro u hu
    rcases h.finishes u hu with hu | hu
    · rw [hrunning, List.mem_append, List.mem_cons] at hu
      rcases hu with hu | rfl | hu
      · exact .inl (List.mem_append_left _ hu)
      · exact .inr (hdue.trans_lt hnow)
      · exact .inl (List.mem_append_right _ hu)
    · exact .inr hu
  | start _ _ _ =>
    refine ⟨h.closed, forall_mem_concat h.starts hnow, forall_mem_concat ?_ ?_⟩
    · intro u hu
      exact (h.finishes u hu).imp_left (List.mem_append_left _)
    · exact .inl (List.mem_append_right _ (List.mem_singleton.mpr rfl))
  | close _ _ => exact { h with closed := fun _ => (Nat.zero_le _).trans_lt hnow }
  | advance _ => exact { h with }

/-- A run receives what was sent before it looks at the clock, and then does nothing at the
deadline. -/
theorem next (h : Timely l s) {t : State α} (hnext : s.next? l = some t) : Timely l t := by
  have hstep := State.step_of_next? hnext
  cases hsent : s.sent with
  | cons r rest =>
    rw [State.next?, hsent] at hnext
    obtain rfl := Option.some.inj hnext
    exact { h with }
  | nil =>
    apply h.step hstep
    by_contra hlate
    have hover : s.isOver l = true := by simp [State.isOver, hsent, Nat.not_lt.mp hlate]
    simp [State.next?, hsent, hover] at hnext

theorem final (h : Timely l s) : Timely l (s.final l) := by
  fun_induction State.final s l with
  | case1 s hnext => exact h
  | case2 s t hnext ih => exact ih (h.next hnext)

theorem inTime (h : Timely l s) : InTime l s := by
  refine ⟨h.starts, ?_⟩
  intro hdone
  obtain ⟨hclosed, hrunning, -⟩ := (State.isDone_iff s).mp hdone
  refine ⟨h.closed hclosed, ?_⟩
  intro t ht
  have hended := h.finishes t ht
  rw [hrunning] at hended
  exact hended.resolve_left List.not_mem_nil

end Timely

theorem timely_begin (l : Limits) (jobs : List (Job α)) : Timely l (begin l jobs) where
  closed := by simp [begin]
  starts := by simp [begin]
  finishes := by simp [begin]

/-- With more permits, no task starts later, each task that starts still starts, and the batch ends
no later and is over in time if it was. This holds of a run, and whatever order things happen in at
the same moment if nothing happens just at the deadline. -/
theorem more_permits_no_later (l : Limits) (hclock : l.slack = 0) (more : Nat)
    (hmore : l.concurrency ≤ more) (jobs : List (Job α)) :
    (run { l with concurrency := more } jobs).NoLater (run l jobs) ∧
      ∀ s s', Reachable l jobs s → Reachable { l with concurrency := more } jobs s' →
        s'.isOver { l with concurrency := more } = true → 0 < l.timeout →
        (∀ t ∈ s.started, t.start ≠ l.timeout ∧ t.finish ≠ l.timeout) →
        (s'.outcome { l with concurrency := more } jobs.length).NoLater
          (s.outcome l jobs.length) := by
  constructor
  · exact noLater_outcome hclock hmore Reachable.begin.final Reachable.begin.final
      (State.isOver_final _ _) (timely_begin l jobs).final.inTime
  · intro s s' hreach hreach' hover' hpos hdeadline
    have hhorizon : l.horizon = l.timeout := by rw [Limits.horizon, hclock, Nat.add_zero]
    obtain ⟨ended, h⟩ := hreach.sound
    have hnow : s.now ≤ l.timeout := hhorizon ▸ h.inTime
    refine noLater_outcome hclock hmore hreach hreach' hover' ⟨?_, ?_⟩
    · intro t ht
      have hstart := h.startedBy t ht
      have hother := (hdeadline t ht).1
      omega
    · intro hdone
      refine ⟨hhorizon ▸ hpos, ?_⟩
      intro t ht
      have hfinish := h.finish_le_of_isDone hdone t ht
      have hother := (hdeadline t ht).2
      omega

def oneAtATime : Limits := { twoAtATime with concurrency := 1 }

theorem more_permits_no_later_broken_in_between :
    oneAtATime.slack = 0 ∧ oneAtATime.concurrency ≤ 2 ∧
      (run twoAtATime brokenInBetween).NoLater (run oneAtATime brokenInBetween) ∧
      (run oneAtATime brokenInBetween).starts = [some 0, some 30, some 45] ∧
      (run twoAtATime brokenInBetween).starts = [some 0, some 10, some 25] ∧
      (run oneAtATime brokenInBetween).elapsed = 50 ∧
      (run twoAtATime brokenInBetween).elapsed = 30 ∧
      ∃ s s', Reachable oneAtATime brokenInBetween s ∧ Reachable twoAtATime brokenInBetween s' ∧
        s'.isOver twoAtATime = true ∧ 0 < oneAtATime.timeout ∧
        (∀ t ∈ s.started, t.start ≠ oneAtATime.timeout ∧ t.finish ≠ oneAtATime.timeout) ∧
        (s'.outcome twoAtATime brokenInBetween.length).NoLater
          (s.outcome oneAtATime brokenInBetween.length) := by
  have hclock : oneAtATime.slack = 0 := rfl
  have hmore : oneAtATime.concurrency ≤ 2 := by decide
  obtain ⟨hrun, hany⟩ := more_permits_no_later oneAtATime hclock 2 hmore brokenInBetween
  have hreach : Reachable oneAtATime brokenInBetween
      ((begin oneAtATime brokenInBetween).final oneAtATime) := Reachable.begin.final
  have hreach' : Reachable twoAtATime brokenInBetween
      ((begin twoAtATime brokenInBetween).final twoAtATime) := Reachable.begin.final
  have hover' := State.isOver_final (begin twoAtATime brokenInBetween) twoAtATime
  have hpos : 0 < oneAtATime.timeout := by decide
  have hdeadline : ∀ t ∈ ((begin oneAtATime brokenInBetween).final oneAtATime).started,
      t.start ≠ oneAtATime.timeout ∧ t.finish ≠ oneAtATime.timeout := by decide +kernel
  refine ⟨hclock, hmore, hrun, by cbv, by cbv, by cbv, by cbv, _, _, hreach, hreach', hover', hpos,
    hdeadline, ?_⟩
  exact hany _ _ hreach hreach' hover' hpos hdeadline

end PlatformCatalog.Schedule
