import PlatformCatalog.Proofs.History

/-!
# Insertions that interleave

Two insertions of different sources take turns. Each reads what it needs and
then commits its plan, and does not look again at what the other one has
changed meanwhile.
-/

set_option autoImplicit false

namespace PlatformCatalog.KeyValueStore

inductive Stage where
  | begun
  | checked
  | reading (own : Manifest) (read : List Manifest) (left : List Source)
  | writing (left : List Commit)
  | failed (e : StoreError)
  deriving DecidableEq, Repr

def Stage.settle : Except StoreError Stage → Stage
  | .ok stage => stage
  | .error e => .failed e

def merged (read : List Manifest) : Manifest := read.foldr Manifest.merge Manifest.empty

def advance (c : Intake) (s : KeyValueStore) : Stage → KeyValueStore × Stage
  | .begun => (s, .settle ((fun _ => .checked) <$> Stamp.gate s.stamp c.batchSize))
  | .checked =>
    (s, .settle ((fun own => .reading own [] c.source.siblings) <$> s.manifest c.source))
  | .reading own read (u :: left) =>
    (s, .settle ((fun m => .reading own (read ++ [m]) left) <$> s.manifest u))
  | .reading own read [] =>
    (s, .writing
      (plan c.source own (merged read) (normalize c.source c.batch) c.batchSize))
  | .writing (commit :: left) => (s.commit commit, .writing left)
  | .writing [] => (s, .writing [])
  | .failed e => (s, .failed e)

structure Race where
  store : KeyValueStore
  stage : Bool → Stage

namespace Race

def turn (calls : Bool → Intake) (w : Race) (i : Bool) : Race :=
  let next := advance (calls i) w.store (w.stage i)
  ⟨next.1, Function.update w.stage i next.2⟩

def run (calls : Bool → Intake) (w : Race) (turns : List Bool) : Race := turns.foldl (turn calls) w

def Done (w : Race) : Prop := ∀ i, w.stage i = .writing []

end Race

def race (calls : Bool → Intake) (s : KeyValueStore) (turns : List Bool) : Race :=
  Race.run calls ⟨s, fun _ => .begun⟩ turns

namespace Race

variable {calls : Bool → Intake}

theorem run_append (w : Race) (turns more : List Bool) :
    w.run calls (turns ++ more) = (w.run calls turns).run calls more :=
  List.foldl_append

theorem run_append_singleton (w : Race) (turns : List Bool) (i : Bool) :
    w.run calls (turns ++ [i]) = (w.run calls turns).turn calls i :=
  run_append w turns [i]

theorem stage_turn_self (w : Race) (i : Bool) :
    (w.turn calls i).stage i = (advance (calls i) w.store (w.stage i)).2 :=
  Function.update_self ..

theorem stage_turn_of_ne (w : Race) {i j : Bool} (hj : j ≠ i) :
    (w.turn calls i).stage j = w.stage j :=
  Function.update_of_ne hj ..

theorem store_turn (calls : Bool → Intake) (w : Race) (i : Bool) :
    (w.turn calls i).store = w.store ∨
      ∃ c left, w.stage i = .writing (c :: left) ∧ (w.turn calls i).store = w.store.commit c := by
  unfold turn
  cases w.stage i with
  | reading own read left => cases left <;> exact Or.inl rfl
  | writing left =>
    cases left with
    | nil => exact Or.inl rfl
    | cons c left => exact Or.inr ⟨c, left, rfl, rfl⟩
  | begun => exact Or.inl rfl
  | checked => exact Or.inl rfl
  | failed e => exact Or.inl rfl

end Race

theorem race_append (calls : Bool → Intake) (s : KeyValueStore) (turns more : List Bool) :
    race calls s (turns ++ more) = (race calls s turns).run calls more :=
  Race.run_append _ turns more

theorem race_append_singleton (calls : Bool → Intake) (s : KeyValueStore) (turns : List Bool)
    (i : Bool) : race calls s (turns ++ [i]) = (race calls s turns).turn calls i :=
  Race.run_append_singleton _ turns i

structure Race.Reaches (calls : Bool → Intake) (w : Race) (i : Bool) (t : KeyValueStore)
    (stage : Stage) (turns : List Bool) : Prop where
  store : (w.run calls turns).store = t
  own : (w.run calls turns).stage i = stage
  other : (w.run calls turns).stage (!i) = w.stage (!i)

section

variable {calls : Bool → Intake} {w : Race} {i : Bool}

theorem Race.Reaches.begin (calls : Bool → Intake) (w : Race) (i : Bool) :
    w.Reaches calls i w.store (w.stage i) [] :=
  ⟨rfl, rfl, rfl⟩

theorem Race.Reaches.cons {t : KeyValueStore} {stage : Stage} {turns : List Bool}
    (h : (w.turn calls i).Reaches calls i t stage turns) : w.Reaches calls i t stage (i :: turns) :=
  ⟨h.store, h.own, h.other.trans (stage_turn_of_ne w (by simp))⟩

theorem Race.Reaches.append {t u : KeyValueStore} {stage final : Stage} {turns more : List Bool}
    (h : w.Reaches calls i t stage turns)
    (hmore : (w.run calls turns).Reaches calls i u final more) :
    w.Reaches calls i u final (turns ++ more) := by
  constructor
  · rw [run_append, hmore.store]
  · rw [run_append, hmore.own]
  · rw [run_append, hmore.other, h.other]

theorem turn_eq (calls : Bool → Intake) {stage : Stage} (h : w.stage i = stage) :
    w.turn calls i = ⟨(advance (calls i) w.store stage).1,
      Function.update w.stage i (advance (calls i) w.store stage).2⟩ := by
  rw [Race.turn, h]

theorem reaches_plan (calls : Bool → Intake) {own siblings : Manifest} {read : List Manifest}
    {left : List Source}
    (h : w.stage i = .reading own read left) (hleft : w.store.manifests left = .ok siblings) :
    ∃ turns, w.Reaches calls i w.store (.writing (plan (calls i).source own
      (read.foldr Manifest.merge siblings) (normalize (calls i).source (calls i).batch)
      (calls i).batchSize)) turns := by
  induction left generalizing w read siblings with
  | nil =>
    cases hleft
    have hturn := turn_eq calls h
    refine ⟨[i], Race.Reaches.cons ?_⟩
    rw [hturn]
    exact ⟨rfl, Function.update_self .., rfl⟩
  | cons u left ih =>
    have hturn := turn_eq calls h
    obtain ⟨m, others, hm, hothers, rfl⟩ := manifests_cons_eq_ok_iff.mp hleft
    rw [advance, hm] at hturn
    have hstore : (w.turn calls i).store = w.store := by rw [hturn]
    have hstage : (w.turn calls i).stage i = .reading own (read ++ [m]) left := by
      rw [hturn]
      exact Function.update_self ..
    have hrest : (w.turn calls i).store.manifests left = .ok others := by
      rw [hstore]
      exact hothers
    obtain ⟨turns, hturns⟩ := ih hstage hrest
    rw [hstore, List.foldr_append] at hturns
    exact ⟨i :: turns, Race.Reaches.cons hturns⟩

theorem reaches_writing (calls : Bool → Intake) {commits : List Commit}
    (h : w.stage i = .begun)
    (hplan : w.store.insertion (calls i).source (calls i).batch (calls i).batchSize =
      .ok commits) :
    ∃ turns, w.Reaches calls i w.store (.writing commits) turns := by
  obtain ⟨hcurrent, hsize, own, siblings, hown, hsib, rfl⟩ := insertion_eq_ok_iff.mp hplan
  have hgate := gate_eq_ok_iff.mpr ⟨hcurrent, hsize⟩
  have hfirst : w.turn calls i = ⟨w.store, Function.update w.stage i .checked⟩ := by
    rw [turn_eq calls h, advance, hgate]
    rfl
  have hsecond : (w.turn calls i).turn calls i =
      ⟨w.store, Function.update w.stage i (.reading own [] (calls i).source.siblings)⟩ := by
    rw [hfirst, turn_eq calls (Function.update_self ..), advance, hown, Function.update_idem]
    rfl
  have hstore : ((w.turn calls i).turn calls i).store = w.store := by rw [hsecond]
  have hstage : ((w.turn calls i).turn calls i).stage i =
      .reading own [] (calls i).source.siblings := by
    rw [hsecond]
    exact Function.update_self ..
  have hread : ((w.turn calls i).turn calls i).store.manifests (calls i).source.siblings =
      .ok siblings := by
    rw [hstore]
    exact hsib
  obtain ⟨turns, hturns⟩ := reaches_plan calls hstage hread
  rw [hstore] at hturns
  exact ⟨i :: i :: turns, Race.Reaches.cons (Race.Reaches.cons hturns)⟩

theorem reaches_done (calls : Bool → Intake) {commits : List Commit}
    (h : w.stage i = .writing commits) :
    ∃ turns, w.Reaches calls i (w.store.commitAll commits) (.writing []) turns := by
  induction commits generalizing w with
  | nil =>
    have hbegin := Race.Reaches.begin calls w i
    rw [h] at hbegin
    exact ⟨[], hbegin⟩
  | cons c rest ih =>
    have hturn : w.turn calls i =
        ⟨w.store.commit c, Function.update w.stage i (.writing rest)⟩ := turn_eq calls h
    have hstore : (w.turn calls i).store = w.store.commit c := by rw [hturn]
    have hstage : (w.turn calls i).stage i = .writing rest := by
      rw [hturn]
      exact Function.update_self ..
    obtain ⟨turns, hturns⟩ := ih hstage
    rw [hstore] at hturns
    exact ⟨i :: turns, Race.Reaches.cons hturns⟩

theorem reaches_insertion (calls : Bool → Intake) {commits : List Commit}
    (h : w.stage i = .begun)
    (hplan : w.store.insertion (calls i).source (calls i).batch (calls i).batchSize =
      .ok commits) :
    ∃ turns, w.Reaches calls i (w.store.commitAll commits) (.writing []) turns := by
  obtain ⟨turns, hturns⟩ := reaches_writing calls h hplan
  obtain ⟨more, hmore⟩ := reaches_done calls hturns.own
  rw [hturns.store] at hmore
  exact ⟨turns ++ more, hturns.append hmore⟩

end

def Stage.IsRegular : Stage → Prop
  | .reading own _ _ => own.InOrder ∧ ∀ e ∈ own.items, PlatformCatalog.IsRegular e
  | .writing left => ∀ c ∈ left, c.IsRegular
  | _ => True

theorem Sound.advance {s : KeyValueStore} (hs : s.Sound) (c : Intake) {stage : Stage}
    (h : stage.IsRegular) :
    (advance c s stage).1.Sound ∧ (advance c s stage).2.IsRegular := by
  cases stage with
  | begun =>
    refine ⟨hs, ?_⟩
    rw [KeyValueStore.advance]
    cases Stamp.gate s.stamp c.batchSize <;> trivial
  | checked =>
    refine ⟨hs, ?_⟩
    obtain ⟨own, hown⟩ := hs.readable c.source
    rw [KeyValueStore.advance, hown]
    exact ⟨manifest_inOrder hown, fun e he => hs.regular c.source e ⟨own, hown, he⟩⟩
  | reading own read left =>
    cases left with
    | nil => exact ⟨hs, isRegular_plan h.1 h.2 c.source _ c.batch c.batchSize⟩
    | cons u left =>
      refine ⟨hs, ?_⟩
      obtain ⟨m, hm⟩ := hs.readable u
      rw [KeyValueStore.advance, hm]
      exact h
  | writing left =>
    cases left with
    | nil => exact ⟨hs, h⟩
    | cons commit left =>
      exact ⟨hs.commit (h commit (by simp)), fun d hd => h d (by simp [hd])⟩
  | failed e => exact ⟨hs, trivial⟩

structure Race.Sound (w : Race) : Prop where
  store : w.store.Sound
  stages : ∀ i, (w.stage i).IsRegular

theorem Race.Sound.isRegular_commit {w : Race} (hw : w.Sound) {i : Bool} {c : Commit}
    {left : List Commit} (h : w.stage i = .writing (c :: left)) : c.IsRegular := by
  have hall := hw.stages i
  rw [h] at hall
  exact hall c (by simp)

theorem Race.Sound.turn {w : Race} (hw : w.Sound) (calls : Bool → Intake) (i : Bool) :
    (w.turn calls i).Sound := by
  have hstep := hw.store.advance (calls i) (hw.stages i)
  refine ⟨hstep.1, fun j => ?_⟩
  by_cases hj : j = i
  · rw [hj, stage_turn_self]
    exact hstep.2
  · rw [stage_turn_of_ne w hj]
    exact hw.stages j

theorem Race.Sound.run {w : Race} (hw : w.Sound) (calls : Bool → Intake) (turns : List Bool) :
    (w.run calls turns).Sound := by
  induction turns generalizing w with
  | nil => exact hw
  | cons i rest ih => exact ih (hw.turn calls i)

theorem Sound.race {s : KeyValueStore} (hs : s.Sound) (calls : Bool → Intake)
    (turns : List Bool) : (race calls s turns).Sound := by
  have hbegin : Race.Sound ⟨s, fun _ => .begun⟩ := ⟨hs, fun _ => trivial⟩
  exact hbegin.run calls turns

/-- The stores that calls lead to, one after another or two at a time. A call may break off. -/
inductive Attainable : KeyValueStore → Prop
  | fresh : Attainable fresh
  | stamped {s : KeyValueStore} (stamp : Stamp) : Attainable s → Attainable (s.writeStamp stamp)
  | raced {s : KeyValueStore} (calls : Bool → Intake) (turns : List Bool) : Attainable s →
      Attainable (race calls s turns).store

theorem Attainable.sound {s : KeyValueStore} (hs : s.Attainable) : s.Sound := by
  induction hs with
  | fresh => exact sound_fresh
  | stamped stamp _ ih => exact ih.writeStamp stamp
  | raced calls turns _ ih => exact (ih.race calls turns).store

theorem Attainable.insertion {s : KeyValueStore} (hs : s.Attainable) {source : Source} {b : Batch}
    {batchSize : Nat} {commits : List Commit}
    (h : s.insertion source b batchSize = .ok commits) : (s.commitAll commits).Attainable := by
  obtain ⟨turns, hturns⟩ := reaches_insertion (fun _ => ⟨source, b, batchSize⟩)
    (w := ⟨s, fun _ => .begun⟩) (i := false) rfl h
  have hraced := hs.raced (fun _ => ⟨source, b, batchSize⟩) turns
  rwa [race, hturns.store] at hraced

section

variable {s : KeyValueStore} {calls : Bool → Intake} {w : Race} {i : Bool}

/-- A manifest as one insertion may find it: the one from before, or the one that the other
insertion has recorded. -/
def Seen (s : KeyValueStore) (calls : Bool → Intake) (i : Bool) (u : Source) (m : Manifest) :
    Prop :=
  s.manifest u = .ok m ∨
    u = (calls !i).source ∧ m = .ofItems (contribution (calls !i).source (calls !i).batch)

/-- An item that an insertion may remove, by what it may have seen. -/
def Droppable (s : KeyValueStore) (calls : Bool → Intake) (i : Bool) (e : Family × Item) : Prop :=
  s.Holds (calls i).source e ∧ e ∉ contribution (calls i).source (calls i).batch ∧
    ∀ u, u ≠ (calls i).source → ∃ m, Seen s calls i u m ∧ e ∉ m.items

/-- What the other insertion contributes was stale from the start if it may be removed at all. -/
theorem Droppable.stale {e : Family × Item} (hd : Droppable s calls i e)
    (he : e ∈ contribution (calls !i).source (calls !i).batch) :
    s.Stale (calls i).source (calls i).batch e := by
  refine ⟨hd.1, hd.2.1, fun u hu => ?_⟩
  obtain ⟨m, hseen | ⟨_, hm⟩, hem⟩ := hd.2.2 u hu
  · rwa [holds_iff hseen]
  · rw [hm, Manifest.mem_items_ofItems] at hem
    exact absurd he hem

inductive Remainder (s : KeyValueStore) (calls : Bool → Intake) (i : Bool) : List Commit → Prop
  | record : Remainder s calls i
      [.record (calls i).source (.ofItems (contribution (calls i).source (calls i).batch))]
  | add {entries : List (Family × Item)} {left : List Commit} :
      (∀ e ∈ entries, e ∈ contribution (calls i).source (calls i).batch) →
      Remainder s calls i left → Remainder s calls i (.add entries :: left)
  | remove {entries : List (Family × Item)} {left : List Commit} :
      (∀ e ∈ entries, Droppable s calls i e) →
      Remainder s calls i left → Remainder s calls i (.remove entries :: left)

theorem Remainder.ne_nil {left : List Commit} (h : Remainder s calls i left) : left ≠ [] := by
  cases h <;> exact List.cons_ne_nil _ _

theorem Remainder.droppable {left : List Commit} (h : Remainder s calls i left)
    {e : Family × Item} (he : e ∈ removed left) : Droppable s calls i e := by
  induction h with
  | record => cases he
  | add _ _ ih => exact ih he
  | remove hall _ ih =>
    rcases List.mem_append.mp he with hhead | hrest
    · exact hall e hhead
    · exact ih hrest

theorem Remainder.contributed {left : List Commit} (h : Remainder s calls i left)
    {e : Family × Item} (he : e ∈ added left) :
    e ∈ contribution (calls i).source (calls i).batch := by
  induction h with
  | record => cases he
  | add hall _ ih =>
    rcases List.mem_append.mp he with hhead | hrest
    · exact hall e hhead
    · exact ih hrest
  | remove _ _ ih => exact ih he

theorem Remainder.of_changes (additions removals : List (List (Family × Item)))
    (hadd : ∀ e ∈ additions.flatten, e ∈ contribution (calls i).source (calls i).batch)
    (hrem : ∀ e ∈ removals.flatten, Droppable s calls i e) :
    Remainder s calls i (additions.map .add ++ removals.map .remove ++
      [.record (calls i).source (.ofItems (contribution (calls i).source (calls i).batch))]) := by
  induction additions with
  | nil =>
    induction removals with
    | nil => exact .record
    | cons entries rest ih =>
      exact .remove (fun e he => hrem e (by simp [he])) (ih fun e he =>
        hrem e (List.mem_append_right entries he))
  | cons entries rest ih =>
    exact .add (fun e he => hadd e (by simp [he])) (ih fun e he =>
      hadd e (List.mem_append_right entries he))

theorem mem_items_merged (read : List Manifest) (e : Family × Item) :
    e ∈ (merged read).items ↔ ∃ m ∈ read, e ∈ m.items := by
  induction read with
  | nil => simp [merged, Manifest.items_empty]
  | cons m rest ih =>
    rw [merged, List.foldr_cons, ← merged, Manifest.mem_items_merge, ih,
      List.exists_mem_cons_iff, or_comm]

theorem Remainder.of_plan {own : Manifest} {read : List Manifest}
    (hown : s.manifest (calls i).source = .ok own)
    (hread : ∀ u ∈ (calls i).source.siblings, ∃ m ∈ read, Seen s calls i u m) :
    Remainder s calls i (plan (calls i).source own (merged read)
      (normalize (calls i).source (calls i).batch) (calls i).batchSize) := by
  rw [plan_eq]
  apply Remainder.of_changes
  · intro e he
    rwa [flatten_additionBatches] at he
  · intro e he
    rw [flatten_chunks, mem_removable (manifest_inOrder hown), mem_items_merged] at he
    obtain ⟨hheld, hleft, hnone⟩ := he
    refine ⟨⟨own, hown, hheld⟩, hleft, fun u hu => ?_⟩
    obtain ⟨m, hm, hseen⟩ := hread u (Source.mem_siblings.mpr hu)
    exact ⟨m, hseen, fun hem => hnone ⟨m, hm, hem⟩⟩

/-- What an insertion has read is what it may have seen, and so is what its plan rests on. -/
def Informed (s : KeyValueStore) (calls : Bool → Intake) (i : Bool) : Stage → Prop
  | .reading own read left => s.manifest (calls i).source = .ok own ∧
      ∀ u ∈ (calls i).source.siblings, u ∈ left ∨ ∃ m ∈ read, Seen s calls i u m
  | .writing left => left = [] ∨ Remainder s calls i left
  | _ => True

/-- The race goes on as begun from the store: only an insertion that is done has changed a
manifest, namely its own. -/
structure Race.Follows (s : KeyValueStore) (calls : Bool → Intake) (w : Race) : Prop where
  informed : ∀ i, Informed s calls i (w.stage i)
  manifests : ∀ i, w.store.manifest (calls i).source =
    if w.stage i = .writing [] then
      .ok (.ofItems (contribution (calls i).source (calls i).batch))
    else s.manifest (calls i).source
  others : ∀ u, (∀ i, u ≠ (calls i).source) → w.store.manifest u = s.manifest u

namespace Race.Follows

theorem begin (s : KeyValueStore) (calls : Bool → Intake) :
    Follows s calls ⟨s, fun _ => .begun⟩ :=
  ⟨fun _ => trivial, fun _ => by rw [if_neg (by simp)], fun _ _ => rfl⟩

theorem seen (hw : w.Follows s calls) {u : Source} (hu : u ≠ (calls i).source) {m : Manifest}
    (hm : w.store.manifest u = .ok m) : Seen s calls i u m := by
  by_cases hother : u = (calls !i).source
  · subst hother
    rw [hw.manifests] at hm
    split at hm
    · exact Or.inr ⟨rfl, (Except.ok.inj hm).symm⟩
    · exact Or.inl hm
  · refine Or.inl ?_
    rw [← hm, hw.others u]
    intro j
    by_cases hj : j = i
    · rwa [hj]
    · rwa [Bool.eq_not.mpr hj]

theorem informed_advance (hw : w.Follows s calls) (hs : w.store.Sound) (i : Bool) :
    Informed s calls i (advance (calls i) w.store (w.stage i)).2 := by
  have hi := hw.informed i
  have hown := hw.manifests i
  cases hstage : w.stage i with
  | begun =>
    rw [advance]
    cases Stamp.gate w.store.stamp (calls i).batchSize <;> trivial
  | checked =>
    obtain ⟨own, hread⟩ := hs.readable (calls i).source
    rw [hstage, if_neg (by simp), hread] at hown
    rw [advance, hread]
    exact ⟨hown.symm, fun u hu => Or.inl hu⟩
  | reading own read left =>
    rw [hstage] at hi
    cases left with
    | nil =>
      refine Or.inr (Remainder.of_plan hi.1 fun u hu => ?_)
      exact (hi.2 u hu).resolve_left List.not_mem_nil
    | cons u left =>
      obtain ⟨m, hm⟩ := hs.readable u
      rw [advance, hm]
      refine ⟨hi.1, fun v hv => ?_⟩
      rcases hi.2 v hv with hleft | ⟨n, hn, hseen⟩
      · rcases List.mem_cons.mp hleft with rfl | hrest
        · exact Or.inr ⟨m, by simp, hw.seen (Source.mem_siblings.mp hv) hm⟩
        · exact Or.inl hrest
      · exact Or.inr ⟨n, by simp [hn], hseen⟩
  | writing left =>
    rw [hstage] at hi
    cases left with
    | nil => exact Or.inl rfl
    | cons commit left =>
      rcases hi with hnil | hplan
      · cases hnil
      · cases hplan with
        | record => exact Or.inl rfl
        | add _ hleft => exact Or.inr hleft
        | remove _ hleft => exact Or.inr hleft
  | failed e => trivial

theorem manifest_advance_of_ne (hw : w.Follows s calls) {i : Bool} {u : Source}
    (hu : u ≠ (calls i).source) :
    (advance (calls i) w.store (w.stage i)).1.manifest u = w.store.manifest u := by
  obtain hsame | ⟨c, left, hstage, hcommit⟩ := store_turn calls w i
  · exact congrArg (manifest · u) hsame
  · have hi := hw.informed i
    rw [hstage] at hi
    refine (congrArg (manifest · u) hcommit).trans ?_
    rcases hi with hnil | hplan
    · cases hnil
    · cases hplan with
      | record => rw [manifest_record _ (Manifest.inOrder_ofItems _), if_neg hu]
      | add _ _ => exact manifest_of_hashes rfl u
      | remove _ _ => exact manifest_of_hashes rfl u

theorem manifest_advance_self (hw : w.Follows s calls) (i : Bool) :
    (advance (calls i) w.store (w.stage i)).1.manifest (calls i).source =
      if (advance (calls i) w.store (w.stage i)).2 = .writing [] then
        .ok (.ofItems (contribution (calls i).source (calls i).batch))
      else s.manifest (calls i).source := by
  have hi := hw.informed i
  have hown := hw.manifests i
  cases hstage : w.stage i with
  | begun =>
    rw [hstage, if_neg (by simp)] at hown
    rw [advance, if_neg]
    · exact hown
    · cases Stamp.gate w.store.stamp (calls i).batchSize <;> exact Stage.noConfusion
  | checked =>
    rw [hstage, if_neg (by simp)] at hown
    rw [advance, if_neg]
    · exact hown
    · cases w.store.manifest (calls i).source <;> exact Stage.noConfusion
  | reading own read left =>
    rw [hstage, if_neg (by simp)] at hown
    cases left with
    | nil =>
      rw [advance, if_neg (by simp [plan])]
      exact hown
    | cons u left =>
      rw [advance, if_neg]
      · exact hown
      · cases w.store.manifest u <;> exact Stage.noConfusion
  | writing left =>
    rw [hstage] at hi hown
    cases left with
    | nil => exact hown
    | cons commit left =>
      rw [if_neg (by simp)] at hown
      rcases hi with hnil | hplan
      · cases hnil
      · cases hplan with
        | record =>
          rw [advance, if_pos rfl, manifest_record _ (Manifest.inOrder_ofItems _), if_pos rfl]
        | add _ hleft =>
          rw [advance, if_neg (by simpa using hleft.ne_nil)]
          exact (manifest_of_hashes rfl _).trans hown
        | remove _ hleft =>
          rw [advance, if_neg (by simpa using hleft.ne_nil)]
          exact (manifest_of_hashes rfl _).trans hown
  | failed e =>
    rw [hstage, if_neg (by simp)] at hown
    rw [advance, if_neg (by simp)]
    exact hown

theorem turn (hw : w.Follows s calls) (hs : w.store.Sound)
    (hne : ∀ {i j}, i ≠ j → (calls i).source ≠ (calls j).source) (i : Bool) :
    (w.turn calls i).Follows s calls where
  informed j := by
    by_cases hj : j = i
    · rw [hj, stage_turn_self]
      exact hw.informed_advance hs i
    · rw [stage_turn_of_ne w hj]
      exact hw.informed j
  manifests j := by
    by_cases hj : j = i
    · rw [hj, stage_turn_self]
      exact hw.manifest_advance_self i
    · rw [stage_turn_of_ne w hj, ← hw.manifests j]
      exact hw.manifest_advance_of_ne (hne hj)
  others u hu := (hw.manifest_advance_of_ne (hu i)).trans (hw.others u hu)

end Race.Follows

variable (hs : s.Sound) (hne : ∀ {i j}, i ≠ j → (calls i).source ≠ (calls j).source)

include hs hne in
theorem follows_race (turns : List Bool) : (race calls s turns).Follows s calls := by
  induction turns using List.reverseRecOn with
  | nil => exact Race.Follows.begin s calls
  | append_singleton turns i ih =>
    rw [race_append_singleton]
    exact ih.turn (hs.race calls turns).store hne i

end

end PlatformCatalog.KeyValueStore
