import PlatformCatalog.Proofs.Interleaving
import PlatformCatalog.Proofs.RelationalIngestion

/-!
# Insertions that fail

An insertion goes from one access to the next, and the medium may fail at any
of them. The key-value store reads all that can refuse a batch before its
first commit. The relational store makes all its changes in one transaction,
and what a transaction has changed is undone if it is dropped.
-/

set_option autoImplicit false

namespace PlatformCatalog

def StoreError.IsRefusal : StoreError → Prop
  | .schemaVersionMismatch _ _ | .invalidBatchSize _ | .corrupt _ _ => True
  | _ => False

theorem bind_eq_error_iff {ε α β : Type} {x : Except ε α} {f : α → Except ε β} {e : ε} :
    x >>= f = .error e ↔ x = .error e ∨ ∃ a, x = .ok a ∧ f a = .error e := by
  cases x <;> simp [bind, Except.bind]

/-- What goes on access by access on a medium that may fail. -/
structure Procedure (σ : Type) where
  advance : σ → σ
  isOver : σ → Bool
  stop : String → σ → σ

namespace Procedure

variable {σ : Type} {p : Procedure σ} {w final : σ}

def attempt (p : Procedure σ) (w : σ) : Option String → σ
  | none => p.advance w
  | some reason => if p.isOver w then w else p.stop reason w

def run (p : Procedure σ) (w : σ) (faults : List (Option String)) : σ := faults.foldl p.attempt w

theorem run_of_attempt {P : σ → Prop} (hbegin : P w)
    (hstep : ∀ v fault, P v → P (p.attempt v fault)) (faults : List (Option String)) :
    P (p.run w faults) := by
  induction faults generalizing w with
  | nil => exact hbegin
  | cons fault faults ih => exact ih (hstep w fault hbegin)

def Ends (p : Procedure σ) (w final : σ) : Prop :=
  ∃ n, p.run w (List.replicate n none) = final ∧ p.isOver final = true

theorem Ends.over (h : p.isOver w = true) : p.Ends w w := ⟨0, rfl, h⟩

theorem Ends.step (h : p.Ends (p.advance w) final) : p.Ends w final := by
  obtain ⟨n, hn, hover⟩ := h
  exact ⟨n + 1, hn, hover⟩

end Procedure

namespace KeyValueStore

variable {c : Intake} {s t : KeyValueStore} {stage : Stage} {e : StoreError}

def Stage.isOver : Stage → Bool
  | .writing [] | .failed _ => true
  | _ => false

def ingestion (c : Intake) : Procedure (KeyValueStore × Stage) where
  advance w := advance c w.1 w.2
  isOver w := w.2.isOver
  stop reason w := (w.1, .failed (.keyValue reason))

/-- The commits that are still to come if the store stays as it is. -/
def Stage.outlook (c : Intake) (s : KeyValueStore) : Stage → Except StoreError (List Commit)
  | .begun => s.insertion c.source c.batch c.batchSize
  | .checked => do
    let own ← s.manifest c.source
    let siblings ← s.manifests c.source.siblings
    return plan c.source own siblings (normalize c.source c.batch) c.batchSize
  | .reading own read left => do
    let siblings ← s.manifests left
    return plan c.source own (read.foldr Manifest.merge siblings)
      (normalize c.source c.batch) c.batchSize
  | .writing left => .ok left
  | .failed e => .error e

theorem outlook_settle (found : Except StoreError Stage) :
    (Stage.settle found).outlook c s = found.bind (Stage.outlook c s) := by
  cases found <;> rfl

theorem outlook_advance (h : ∀ left, stage ≠ .writing left) :
    (advance c s stage).1 = s ∧ (advance c s stage).2.outlook c s = stage.outlook c s := by
  cases stage with
  | begun =>
    refine ⟨rfl, ?_⟩
    rw [advance, outlook_settle, Stage.outlook, insertion_eq]
    cases Stamp.gate s.stamp c.batchSize <;> rfl
  | checked =>
    refine ⟨rfl, ?_⟩
    rw [advance, outlook_settle, Stage.outlook]
    cases s.manifest c.source <;> rfl
  | reading own read left =>
    cases left with
    | nil => exact ⟨rfl, rfl⟩
    | cons u left =>
      refine ⟨rfl, ?_⟩
      rw [advance, outlook_settle, Stage.outlook, manifests]
      cases s.manifest u with
      | error e => rfl
      | ok m =>
        cases hleft : s.manifests left with
        | error e => simp [Functor.map, Except.map, bind, Except.bind, Stage.outlook, hleft]
        | ok others =>
          simp [Functor.map, Except.map, bind, Except.bind, pure, Except.pure, Stage.outlook,
            hleft]
  | writing left => exact absurd rfl (h left)
  | failed e => exact ⟨rfl, rfl⟩

/-- How far an insertion may have come: it has read, it has made the first commits of its plan, or
the medium has stopped it before the last one. -/
inductive Course (c : Intake) (s : KeyValueStore) : KeyValueStore × Stage → Prop
  | read {stage : Stage} : (∀ left, stage ≠ .writing left) →
      stage.outlook c s = s.insertion c.source c.batch c.batchSize → Course c s (s, stage)
  | written {done left : List Commit} :
      s.insertion c.source c.batch c.batchSize = .ok (done ++ left) →
      Course c s (s.commitAll done, .writing left)
  | unread (reason : String) : Course c s (s, .failed (.keyValue reason))
  | unwritten {done left : List Commit} (reason : String) : left ≠ [] →
      s.insertion c.source c.batch c.batchSize = .ok (done ++ left) →
      Course c s (s.commitAll done, .failed (.keyValue reason))

theorem Course.of_outlook (h : stage.outlook c s = s.insertion c.source c.batch c.batchSize) :
    Course c s (s, stage) := by
  cases stage with
  | writing left =>
    have hplan : s.insertion c.source c.batch c.batchSize = .ok ([] ++ left) := h.symm
    exact .written hplan
  | _ => exact .read (fun _ => Stage.noConfusion) h

theorem Course.advance {w : KeyValueStore × Stage} (h : Course c s w) :
    Course c s (advance c w.1 w.2) := by
  cases h with
  | @read stage hstage houtlook =>
    obtain ⟨hstore, hsame⟩ := outlook_advance (c := c) (s := s) hstage
    have hnext := Course.of_outlook (hsame.trans houtlook)
    nth_rewrite 2 [← hstore] at hnext
    exact hnext
  | @written done left hplan =>
    cases left with
    | nil => exact .written hplan
    | cons commit left =>
      have hnext : Course c s (s.commitAll (done ++ [commit]), .writing left) :=
        .written (by rw [hplan, List.append_assoc, List.singleton_append])
      rwa [commitAll_append] at hnext
  | unread reason => exact .unread reason
  | unwritten reason hleft hplan => exact .unwritten reason hleft hplan

theorem Course.attempt {w : KeyValueStore × Stage} (h : Course c s w) (fault : Option String) :
    Course c s ((ingestion c).attempt w fault) := by
  cases fault with
  | none => exact h.advance
  | some reason =>
    rw [Procedure.attempt]
    split
    · exact h
    · next hover =>
      cases h with
      | read _ _ => exact .unread reason
      | @written done left hplan =>
        have hleft : left ≠ [] := by
          rintro rfl
          exact hover rfl
        exact .unwritten reason hleft hplan
      | unread _ => exact absurd rfl hover
      | unwritten _ _ _ => exact absurd rfl hover

theorem course_run (c : Intake) (s : KeyValueStore) (faults : List (Option String)) :
    Course c s ((ingestion c).run (s, .begun) faults) :=
  Procedure.run_of_attempt (.of_outlook rfl) (fun _ fault h => h.attempt fault) faults

def conclude (s : KeyValueStore) : Except StoreError KeyValueStore → KeyValueStore × Stage
  | .ok t => (t, .writing [])
  | .error e => (s, .failed e)

def Stage.final (c : Intake) (s : KeyValueStore) (stage : Stage) : KeyValueStore × Stage :=
  conclude s ((stage.outlook c s).map s.commitAll)

theorem ends_writing (c : Intake) (s : KeyValueStore) (left : List Commit) :
    (ingestion c).Ends (s, .writing left) (s.commitAll left, .writing []) := by
  induction left generalizing s with
  | nil => exact .over rfl
  | cons commit left ih => exact .step (ih (s.commit commit))

theorem ends_settle {α : Type} (found : Except StoreError α) {next : α → Stage}
    (h : ∀ a, (ingestion c).Ends (s, next a) ((next a).final c s)) :
    (ingestion c).Ends (s, .settle (next <$> found))
      ((Stage.settle (next <$> found)).final c s) := by
  cases found with
  | error e => exact .over rfl
  | ok a => exact h a

theorem final_advance (h : ∀ left, stage ≠ .writing left) :
    (advance c s stage).2.final c s = stage.final c s := by
  rw [Stage.final, (outlook_advance h).2, Stage.final]

theorem ends_reading (c : Intake) (s : KeyValueStore) (own : Manifest) (read : List Manifest)
    (left : List Source) :
    (ingestion c).Ends (s, .reading own read left) ((Stage.reading own read left).final c s) := by
  induction left generalizing read with
  | nil => exact .step (ends_writing c s _)
  | cons u left ih =>
    rw [← final_advance fun _ => Stage.noConfusion]
    exact .step (ends_settle _ fun m => ih (read ++ [m]))

theorem ends_checked (c : Intake) (s : KeyValueStore) :
    (ingestion c).Ends (s, .checked) (Stage.checked.final c s) := by
  rw [← final_advance fun _ => Stage.noConfusion]
  exact .step (ends_settle _ fun own => ends_reading c s own [] c.source.siblings)

theorem ends_begun (c : Intake) (s : KeyValueStore) :
    (ingestion c).Ends (s, .begun) (Stage.begun.final c s) := by
  rw [← final_advance fun _ => Stage.noConfusion]
  exact .step (ends_settle _ fun _ => ends_checked c s)

theorem ends_insert (c : Intake) (s : KeyValueStore) :
    (ingestion c).Ends (s, .begun)
      (conclude s ((s.insert c.source c.batch c.batchSize).map (·.1))) := by
  have hinsert : (s.insert c.source c.batch c.batchSize).map (·.1) =
      (s.insertion c.source c.batch c.batchSize).map s.commitAll := by
    rw [insert]
    cases s.insertion c.source c.batch c.batchSize <;> rfl
  rw [hinsert]
  exact ends_begun c s

theorem isRefusal_of_stamp (h : s.stamp = .error e) : e.IsRefusal := by
  rw [stamp] at h
  split at h
  · cases h
  · obtain hversion | ⟨version, -, h⟩ := bind_eq_error_iff.mp h
    · rw [readVersion] at hversion
      split at hversion
      · cases hversion
      · rw [← Except.error.inj hversion]
        trivial
    · obtain htime | ⟨time, -, h⟩ := bind_eq_error_iff.mp h
      · rw [readTime.eq_def] at htime
        split at htime
        · cases htime
        · split at htime
          · cases htime
          · rw [← Except.error.inj htime]
            trivial
      · cases h

theorem isRefusal_of_gate {batchSize : Nat} (h : Stamp.gate s.stamp batchSize = .error e) :
    e.IsRefusal := by
  obtain hstamp | ⟨stamp, -, h⟩ := bind_eq_error_iff.mp h
  · exact isRefusal_of_stamp hstamp
  · obtain hschema | ⟨_, -, hsize⟩ := bind_eq_error_iff.mp h
    · rw [Stamp.checkSchema] at hschema
      split_ifs at hschema
      rw [← Except.error.inj hschema]
      trivial
    · rw [Stamp.checkBatchSize] at hsize
      split_ifs at hsize
      rw [← Except.error.inj hsize]
      trivial

theorem isRefusal_of_manifest {u : Source} (h : s.manifest u = .error e) : e.IsRefusal := by
  rw [manifest] at h
  split at h
  · cases h
  · split at h
    · cases h
    · rw [← Except.error.inj h]
      trivial

theorem isRefusal_of_manifests {sources : List Source} (h : s.manifests sources = .error e) :
    e.IsRefusal := by
  induction sources with
  | nil => cases h
  | cons u rest ih =>
    obtain hu | ⟨m, -, h⟩ := bind_eq_error_iff.mp h
    · exact isRefusal_of_manifest hu
    · obtain hrest | ⟨others, -, h⟩ := bind_eq_error_iff.mp h
      · exact ih hrest
      · cases h

theorem isRefusal_of_insertion {source : Source} {b : Batch} {batchSize : Nat}
    (h : s.insertion source b batchSize = .error e) : e.IsRefusal := by
  rw [insertion_eq] at h
  obtain hgate | ⟨_, -, h⟩ := bind_eq_error_iff.mp h
  · exact isRefusal_of_gate hgate
  · obtain hown | ⟨own, -, h⟩ := bind_eq_error_iff.mp h
    · exact isRefusal_of_manifest hown
    · obtain hsiblings | ⟨siblings, -, h⟩ := bind_eq_error_iff.mp h
      · exact isRefusal_of_manifests hsiblings
      · cases h

/-- A failure is a refusal, with the store as it was, or the fault of the medium. -/
theorem Course.failed (h : Course c s (t, .failed e)) :
    e.IsRefusal ∧ t = s ∨ ∃ reason, e = .keyValue reason := by
  cases h with
  | read _ houtlook => exact Or.inl ⟨isRefusal_of_insertion houtlook.symm, rfl⟩
  | unread reason => exact Or.inr ⟨reason, rfl⟩
  | unwritten reason _ _ => exact Or.inr ⟨reason, rfl⟩

theorem eq_of_refused {faults : List (Option String)}
    (h : (ingestion c).run (s, .begun) faults = (t, .failed e)) (he : e.IsRefusal) : t = s := by
  have hcourse := course_run c s faults
  rw [h] at hcourse
  obtain ⟨-, rfl⟩ | ⟨reason, rfl⟩ := hcourse.failed
  · rfl
  · exact he.elim

end KeyValueStore

namespace RelationalStore

variable {c : Intake} {s : RelationalStore} {e : StoreError}

/-- The rows of a store, and those to which it goes back if the transaction under way is
dropped. -/
structure File where
  rows : RelationalStore
  journal : Option RelationalStore := none
  deriving DecidableEq, Repr

namespace File

def beginTransaction (f : File) : File := { f with journal := some f.rows }

def commit (f : File) : File := { f with journal := none }

def rollBack (f : File) : File := ⟨f.journal.getD f.rows, none⟩

end File

inductive Stage where
  | begun
  | checked
  | listing
  | executing (left : List Statement)
  | done
  | failed (e : StoreError)
  deriving DecidableEq, Repr

def Stage.isOver : Stage → Bool
  | .done | .failed _ => true
  | _ => false

/-- One access of an insertion: the checks, the beginning of the transaction, its list of old
records, a statement, or its end. -/
def advance (c : Intake) (f : File) : Stage → File × Stage
  | .begun =>
    match Stamp.gate f.rows.stamp c.batchSize with
    | .ok () => (f, .checked)
    | .error e => (f.rollBack, .failed e)
  | .checked => (f.beginTransaction, .listing)
  | .listing =>
    (f, .executing (f.rows.statements c.source (normalize c.source c.batch) c.batchSize))
  | .executing (st :: left) =>
    match f.rows.execute st with
    | .ok rows => ({ f with rows }, .executing left)
    | .error e => (f.rollBack, .failed e)
  | .executing [] => (f.commit, .done)
  | .done => (f, .done)
  | .failed e => (f, .failed e)

def ingestion (c : Intake) : Procedure (File × Stage) where
  advance w := advance c w.1 w.2
  isOver w := w.2.isOver
  stop reason w := (w.1.rollBack, .failed (.relational reason))

/-- How far an insertion may have come: it has checked the store, it is in its transaction, or it
has come to one of its two ends. -/
inductive Course (c : Intake) (s : RelationalStore) : File × Stage → Prop
  | begun : Course c s (⟨s, none⟩, .begun)
  | checked : Stamp.gate s.stamp c.batchSize = .ok () → Course c s (⟨s, none⟩, .checked)
  | listing : Stamp.gate s.stamp c.batchSize = .ok () → Course c s (⟨s, some s⟩, .listing)
  | executing {rows : RelationalStore} {left : List Statement} :
      Stamp.gate s.stamp c.batchSize = .ok () →
      rows.executeAll left =
        s.executeAll (s.statements c.source (normalize c.source c.batch) c.batchSize) →
      Course c s (⟨rows, some s⟩, .executing left)
  | done {rows : RelationalStore} {n : Nat} :
      s.insert c.source c.batch c.batchSize = .ok (rows, n) → Course c s (⟨rows, none⟩, .done)
  | failed (e : StoreError) : Course c s (⟨s, none⟩, .failed e)

/-- Unless the transaction has been committed, what it has changed can be undone. -/
theorem Course.rollBack {w : File × Stage} (h : Course c s w) (hdone : w.2 ≠ .done) :
    w.1.rollBack = ⟨s, none⟩ := by
  cases h with
  | done _ => exact absurd rfl hdone
  | _ => rfl

theorem Course.advance {w : File × Stage} (h : Course c s w) : Course c s (advance c w.1 w.2) := by
  cases h with
  | begun =>
    rw [RelationalStore.advance]
    cases hgate : Stamp.gate s.stamp c.batchSize with
    | ok _ => exact .checked hgate
    | error e => exact .failed e
  | checked hgate => exact .listing hgate
  | listing hgate => exact .executing hgate rfl
  | @executing rows left hgate hleft =>
    cases left with
    | nil =>
      refine .done (n := (normalize c.source c.batch).length) ?_
      rw [insert_eq, hgate, ← hleft]
      rfl
    | cons st left =>
      rw [RelationalStore.advance]
      rw [executeAll] at hleft
      cases hst : rows.execute st with
      | ok next =>
        rw [hst] at hleft
        exact .executing hgate hleft
      | error e => exact .failed e
  | done hinsert => exact .done hinsert
  | failed e => exact .failed e

theorem Course.attempt {w : File × Stage} (h : Course c s w) (fault : Option String) :
    Course c s ((ingestion c).attempt w fault) := by
  cases fault with
  | none => exact h.advance
  | some reason =>
    rw [Procedure.attempt]
    split
    · exact h
    · next hover =>
      have hdone : w.2 ≠ .done := fun hdone => hover (congrArg Stage.isOver hdone)
      have hstop : (ingestion c).stop reason w = (⟨s, none⟩, .failed (.relational reason)) :=
        Prod.ext (h.rollBack hdone) rfl
      rw [hstop]
      exact .failed _

theorem course_run (c : Intake) (s : RelationalStore) (faults : List (Option String)) :
    Course c s ((ingestion c).run (⟨s, none⟩, .begun) faults) :=
  Procedure.run_of_attempt .begun (fun _ fault h => h.attempt fault) faults

theorem eq_of_failed {faults : List (Option String)} {f : File}
    (h : (ingestion c).run (⟨s, none⟩, .begun) faults = (f, .failed e)) : f = ⟨s, none⟩ := by
  have hcourse := course_run c s faults
  rw [h] at hcourse
  cases hcourse
  rfl

def conclude (s : RelationalStore) : Except StoreError RelationalStore → File × Stage
  | .ok rows => (⟨rows, none⟩, .done)
  | .error e => (⟨s, none⟩, .failed e)

theorem ends_executing (c : Intake) (s rows : RelationalStore) (left : List Statement) :
    (ingestion c).Ends (⟨rows, some s⟩, .executing left) (conclude s (rows.executeAll left)) := by
  induction left generalizing rows with
  | nil => exact .step (.over rfl)
  | cons st left ih =>
    refine .step ?_
    rw [executeAll]
    cases hst : rows.execute st with
    | ok next =>
      have hnext : (ingestion c).advance (⟨rows, some s⟩, .executing (st :: left)) =
          (⟨next, some s⟩, .executing left) := by
        simp only [ingestion, advance, hst]
      rw [hnext]
      exact ih next
    | error e =>
      have hnext : (ingestion c).advance (⟨rows, some s⟩, .executing (st :: left)) =
          (⟨s, none⟩, .failed e) := by
        simp only [ingestion, advance, hst]
        rfl
      rw [hnext]
      exact .over rfl

theorem ends_insert (c : Intake) (s : RelationalStore) :
    (ingestion c).Ends (⟨s, none⟩, .begun)
      (conclude s ((s.insert c.source c.batch c.batchSize).map (·.1))) := by
  refine .step ?_
  rw [insert_eq]
  cases hgate : Stamp.gate s.stamp c.batchSize with
  | ok _ =>
    have hnext : (ingestion c).advance (⟨s, none⟩, .begun) = (⟨s, none⟩, .checked) := by
      simp only [ingestion, advance, hgate]
    rw [hnext]
    have hresult : ((do
        let t ← s.executeAll (s.statements c.source (normalize c.source c.batch) c.batchSize)
        return (t, (normalize c.source c.batch).length)) : Except _ _).map (·.1) =
          s.executeAll (s.statements c.source (normalize c.source c.batch) c.batchSize) := by
      cases s.executeAll (s.statements c.source (normalize c.source c.batch) c.batchSize) <;> rfl
    rw [Except.bind, hresult]
    exact .step (.step (ends_executing c s s _))
  | error e =>
    have hnext : (ingestion c).advance (⟨s, none⟩, .begun) = (⟨s, none⟩, .failed e) := by
      simp only [ingestion, advance, hgate]
      rfl
    rw [hnext]
    exact .over rfl

end RelationalStore

/-- A refused batch leaves a key-value store as it was, and only the medium can make an insertion
fail there otherwise. A relational store is as it was after any failure, whatever statements were
done before. If the medium does not fail, either insertion ends as if it were done at once. -/
theorem failed_insertions (c : Intake) :
    (∀ (s t : KeyValueStore) (faults : List (Option String)) (e : StoreError),
      (KeyValueStore.ingestion c).run (s, .begun) faults = (t, .failed e) →
        (e.IsRefusal → t = s) ∧ (e.IsRefusal ∨ ∃ reason, e = .keyValue reason)) ∧
    (∀ (s : RelationalStore) (f : RelationalStore.File) (faults : List (Option String))
      (e : StoreError), (RelationalStore.ingestion c).run (⟨s, none⟩, .begun) faults =
        (f, .failed e) → f = ⟨s, none⟩) ∧
    (∀ s : KeyValueStore, (KeyValueStore.ingestion c).Ends (s, .begun)
      (s.conclude ((s.insert c.source c.batch c.batchSize).map (·.1)))) ∧
    ∀ s : RelationalStore, (RelationalStore.ingestion c).Ends (⟨s, none⟩, .begun)
      (s.conclude ((s.insert c.source c.batch c.batchSize).map (·.1))) := by
  refine ⟨fun s t faults e h => ⟨KeyValueStore.eq_of_refused h, ?_⟩,
    fun s f faults e => RelationalStore.eq_of_failed, KeyValueStore.ends_insert c,
    RelationalStore.ends_insert c⟩
  have hcourse := KeyValueStore.course_run c s faults
  rw [h] at hcourse
  exact hcourse.failed.imp_left And.left

def KeyValueStore.cutManifest : KeyValueStore :=
  fresh.setField manifestKey Source.jvn.name "\x7b\"ActiveCpes\":["

def RelationalStore.guarded : RelationalStore :=
  ⟨normalize .nvd KeyValueStore.singleProduct, some (.ofStamp .fresh), ["broken"]⟩

def secondRefused : Batch :=
  ⟨[⟨"nginx", ["cpe:/a:nginx:nginx:1.0"]⟩, ⟨"Broken", ["cpe:/a:broken:thing:1.0"]⟩], []⟩

theorem failed_insertions_second_refused :
    let c : Intake := ⟨.nvd, secondRefused, 1⟩
    let cut := (KeyValueStore.ingestion c).run (KeyValueStore.cutManifest, .begun)
    let guarded := (RelationalStore.ingestion c).run (⟨RelationalStore.guarded, none⟩, .begun)
    (∃ t e, cut (List.replicate 3 none) = (t, .failed e) ∧ e.IsRefusal ∧
      t = KeyValueStore.cutManifest) ∧
    (guarded (List.replicate 5 none)).1.rows ≠ RelationalStore.guarded ∧
    ∃ f e, guarded (List.replicate 6 none) = (f, .failed e) ∧
      f = ⟨RelationalStore.guarded, none⟩ := by
  intro c cut guarded
  obtain ⟨hkeyValue, hrelational, -, -⟩ := failed_insertions c
  have hcut : (cut (List.replicate 3 none)).2 =
      .failed (.corrupt "CPE#DEP/jvn" "not a manifest") := by decide +kernel
  have hguarded : (guarded (List.replicate 6 none)).2 =
      .failed (.relational "the record is refused") := by decide +kernel
  refine ⟨⟨_, _, Prod.ext rfl hcut, trivial, ?_⟩, by decide +kernel,
    ⟨_, _, Prod.ext rfl hguarded, ?_⟩⟩
  · exact (hkeyValue _ _ _ _ (Prod.ext rfl hcut)).1 trivial
  · exact hrelational _ _ _ _ (Prod.ext rfl hguarded)

end PlatformCatalog
