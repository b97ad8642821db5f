import PlatformCatalog.Proofs.Interleaving

/-!
# Items that a race loses

An item is lost when one of two interleaved insertions removes it as stale
after the other one has added it for the last time. This can happen exactly
when one batch contributes what the other one leaves out as stale.
-/

set_option autoImplicit false

namespace PlatformCatalog.KeyValueStore

variable {s : KeyValueStore} {calls : Bool → Intake} {w : Race} {i : Bool}

/-- The other insertion is still to remove an item that this one has no more to add. -/
def Race.Overtaken (w : Race) (i : Bool) (e : Family × Item) : Prop :=
  (∃ left, w.stage (!i) = .writing left ∧ e ∈ removed left) ∧
    ∃ left, w.stage i = .writing left ∧ e ∉ added left

theorem writing_turn {left : List Commit} (h : (w.turn calls i).stage i = .writing left) :
    (∃ own read, w.stage i = .reading own read [] ∧ left = plan (calls i).source own (merged read)
      (normalize (calls i).source (calls i).batch) (calls i).batchSize) ∨
    (∃ c, w.stage i = .writing (c :: left) ∧ (w.turn calls i).store = w.store.commit c) ∨
    (w.stage i = .writing [] ∧ left = [] ∧ (w.turn calls i).store = w.store) := by
  rw [Race.stage_turn_self] at h
  unfold Race.turn
  cases hstage : w.stage i with
  | begun =>
    rw [hstage, advance] at h
    cases hgate : Stamp.gate w.store.stamp (calls i).batchSize <;> rw [hgate] at h <;> cases h
  | checked =>
    rw [hstage, advance] at h
    cases hm : w.store.manifest (calls i).source <;> rw [hm] at h <;> cases h
  | reading own read rest =>
    rw [hstage] at h
    cases rest with
    | nil =>
      cases h
      exact Or.inl ⟨own, read, rfl, rfl⟩
    | cons u rest =>
      rw [advance] at h
      cases hm : w.store.manifest u <;> rw [hm] at h <;> cases h
  | writing rest =>
    rw [hstage] at h
    cases rest with
    | nil =>
      cases h
      exact Or.inr (Or.inr ⟨rfl, rfl, rfl⟩)
    | cons c rest =>
      cases h
      exact Or.inr (Or.inl ⟨c, rfl, rfl⟩)
  | failed e =>
    rw [hstage] at h
    cases h

namespace Race.Follows

theorem contributed (hw : w.Follows s calls) {left : List Commit} (h : w.stage i = .writing left)
    {e : Family × Item} (he : e ∈ added left) :
    e ∈ contribution (calls i).source (calls i).batch := by
  have hi := hw.informed i
  rw [h] at hi
  rcases hi with rfl | hplan
  · cases he
  · exact hplan.contributed he

theorem droppable (hw : w.Follows s calls) {left : List Commit} (h : w.stage i = .writing left)
    {e : Family × Item} (he : e ∈ removed left) : Droppable s calls i e := by
  have hi := hw.informed i
  rw [h] at hi
  rcases hi with rfl | hplan
  · cases he
  · exact hplan.droppable he

end Race.Follows

variable (hs : s.Sound) (hne : ∀ {i j}, i ≠ j → (calls i).source ≠ (calls j).source)

include hs hne in
/-- What an insertion contributes is still to be added, or it is there, or it was lost. -/
theorem present_or_overtaken (turns : List Bool) {e : Family × Item}
    (he : e ∈ contribution (calls i).source (calls i).batch) {left : List Commit}
    (hleft : (race calls s turns).stage i = .writing left) :
    e ∈ added left ∨ setRow e ∈ (race calls s turns).store.sets ∨
      ∃ before, before <+: turns ∧ (race calls s before).Overtaken i e := by
  have hregular := isRegular_of_mem_contribution he
  induction turns using List.reverseRecOn generalizing left with
  | nil => cases hleft
  | append_singleton turns j ih =>
    have hsound := hs.race calls turns
    have hfollows := follows_race hs hne turns
    rw [race_append_singleton] at hleft ⊢
    -- An item that was lost before this turn stays on record.
    have hlater : (∃ before, before <+: turns ∧ (race calls s before).Overtaken i e) →
        ∃ before, before <+: turns ++ [j] ∧ (race calls s before).Overtaken i e :=
      fun ⟨before, hbefore, h⟩ => ⟨before, hbefore.trans (List.prefix_append turns [j]), h⟩
    by_cases hj : j = i
    · subst hj
      obtain ⟨own, read, _, rfl⟩ | ⟨c, hstage, hstore⟩ | ⟨hstage, rfl, hstore⟩ :=
        writing_turn hleft
      · left
        rwa [added_plan]
      · have hcommit := hsound.isRegular_commit hstage
        have hkept : e ∉ c.removed := by
          intro hmem
          have hdrop := hfollows.droppable hstage (List.mem_append_left _ hmem)
          exact hdrop.2.1 he
        rw [hstore, setRow_mem_commit hsound.store.sets hcommit hregular]
        rcases ih hstage with hadd | hrow | hlost
        · rcases List.mem_append.mp hadd with hnow | hrest
          · exact Or.inr (Or.inl ⟨hkept, Or.inl hnow⟩)
          · exact Or.inl hrest
        · exact Or.inr (Or.inl ⟨hkept, Or.inr hrow⟩)
        · exact Or.inr (Or.inr (hlater hlost))
      · rw [hstore]
        rcases ih hstage with hadd | hrow | hlost
        · exact Or.inl hadd
        · exact Or.inr (Or.inl hrow)
        · exact Or.inr (Or.inr (hlater hlost))
    · have hother : i = !j := Bool.eq_not.mpr (Ne.symm hj)
      rw [Race.stage_turn_of_ne _ (Ne.symm hj)] at hleft
      rcases ih hleft with hadd | hrow | hlost
      · exact Or.inl hadd
      · obtain hstore | ⟨c, rest, hstage, hstore⟩ :=
          Race.store_turn calls (race calls s turns) j
        · rw [hstore]
          exact Or.inr (Or.inl hrow)
        · have hcommit := hsound.isRegular_commit hstage
          by_cases hmem : e ∈ c.removed
          · by_cases hadd : e ∈ added left
            · exact Or.inl hadd
            · refine Or.inr (Or.inr ⟨turns, List.prefix_append turns [j], ?_, left, hleft, hadd⟩)
              rw [hother, Bool.not_not]
              exact ⟨c :: rest, hstage, List.mem_append_left _ hmem⟩
          · rw [hstore, setRow_mem_commit hsound.store.sets hcommit hregular]
            exact Or.inr (Or.inl ⟨hmem, Or.inr hrow⟩)
      · exact Or.inr (Or.inr (hlater hlost))

structure Race.Losing (w : Race) (i : Bool) (e : Family × Item) : Prop where
  own : ∃ left, w.stage i = .writing left ∧ e ∉ added left
  other : ∃ left, w.stage (!i) = .writing left ∧ (e ∈ removed left ∨ setRow e ∉ w.store.sets)

theorem Race.Losing.turn (hw : w.Follows s calls) (hsound : w.Sound) {e : Family × Item}
    (hregular : IsRegular e) (hdrop : Droppable s calls (!i) e) (h : w.Losing i e) (j : Bool) :
    (w.turn calls j).Losing i e := by
  obtain ⟨⟨left, hleft, hadd⟩, rest, hrest, hgone⟩ := h
  by_cases hj : j = i
  · subst hj
    have hother : (w.turn calls j).stage (!j) = .writing rest := by
      rw [stage_turn_of_ne w (by simp), hrest]
    have hown : (w.turn calls j).stage j = (advance (calls j) w.store (.writing left)).2 := by
      rw [stage_turn_self, hleft]
    have hstore : (w.turn calls j).store = (advance (calls j) w.store (.writing left)).1 := by
      rw [Race.turn, hleft]
    cases left with
    | nil => exact ⟨⟨[], hown, hadd⟩, rest, hother, by rwa [hstore]⟩
    | cons c left =>
      have hhead : e ∉ c.added := fun hmem => hadd (List.mem_append_left _ hmem)
      refine ⟨⟨left, hown, fun hmem => hadd (List.mem_append_right c.added hmem)⟩,
        rest, hother, hgone.imp_right fun hrow => ?_⟩
      rw [hstore, advance, setRow_mem_commit hsound.store.sets (hsound.isRegular_commit hleft)
        hregular]
      tauto
  · have hji : j = !i := Bool.eq_not.mpr hj
    subst hji
    have hown : (w.turn calls (!i)).stage i = .writing left := by
      rw [stage_turn_of_ne w (Ne.symm hj), hleft]
    have hother : (w.turn calls (!i)).stage (!i) =
        (advance (calls !i) w.store (.writing rest)).2 := by
      rw [stage_turn_self, hrest]
    have hstore : (w.turn calls (!i)).store =
        (advance (calls !i) w.store (.writing rest)).1 := by
      rw [Race.turn, hrest]
    cases rest with
    | nil => exact ⟨⟨left, hown, hadd⟩, [], hother, by rwa [hstore]⟩
    | cons c rest =>
      refine ⟨⟨left, hown, hadd⟩, rest, hother, ?_⟩
      have hhead : e ∉ c.added := fun hmem =>
        hdrop.2.1 (hw.contributed hrest (List.mem_append_left _ hmem))
      rw [hstore, advance, setRow_mem_commit hsound.store.sets (hsound.isRegular_commit hrest)
        hregular]
      rcases hgone with hmem | hrow
      · rcases List.mem_append.mp hmem with hnow | hlater
        · exact Or.inr fun hrow => hrow.1 hnow
        · exact Or.inl hlater
      · tauto

include hs hne in
theorem losing_of_overtaken {before : List Bool} {e : Family × Item}
    (he : e ∈ contribution (calls i).source (calls i).batch)
    (h : (race calls s before).Overtaken i e) (more : List Bool) :
    (race calls s (before ++ more)).Losing i e := by
  obtain ⟨⟨rest, hrest, hmem⟩, hown⟩ := h
  have hdrop := (follows_race hs hne before).droppable hrest hmem
  induction more using List.reverseRecOn with
  | nil =>
    rw [List.append_nil]
    exact ⟨hown, rest, hrest, Or.inl hmem⟩
  | append_singleton more j ih =>
    rw [← List.append_assoc, race_append_singleton]
    exact ih.turn (follows_race hs hne _) (hs.race calls _) (isRegular_of_mem_contribution he)
      hdrop j

include hs hne in
theorem missing_iff_overtaken {turns : List Bool} (hdone : (race calls s turns).Done)
    {e : Family × Item} (he : e ∈ contribution (calls i).source (calls i).batch) :
    setRow e ∉ (race calls s turns).store.sets ↔
      ∃ before, before <+: turns ∧ (race calls s before).Overtaken i e := by
  constructor
  · intro hrow
    rcases present_or_overtaken hs hne turns he (hdone i) with hadd | hpresent | hlost
    · cases hadd
    · exact absurd hpresent hrow
    · exact hlost
  · rintro ⟨before, ⟨more, rfl⟩, h⟩
    obtain ⟨rest, hrest, hgone⟩ := (losing_of_overtaken hs hne he h more).other
    rw [hdone (!i)] at hrest
    cases hrest
    exact hgone.resolve_left List.not_mem_nil

include hs hne in
/-- A stale item is lost if the other insertion runs from its first read to its manifest while
this one waits to write. -/
theorem exists_overtaken (hc : s.Current) (hsize : ∀ i, 1 ≤ (calls i).batchSize)
    {e : Family × Item} (he : e ∈ contribution (calls i).source (calls i).batch)
    (hstale : s.Stale (calls !i).source (calls !i).batch e) :
    ∃ turns, (race calls s turns).Done ∧ setRow e ∉ (race calls s turns).store.sets := by
  obtain ⟨commits, hplan⟩ :=
    hs.exists_insertion hc (calls i).source (calls i).batch (hsize i)
  obtain ⟨others, hothers⟩ :=
    hs.exists_insertion hc (calls !i).source (calls !i).batch (hsize !i)
  obtain ⟨reads, hreads⟩ := reaches_writing calls (w := ⟨s, fun _ => .begun⟩)
    (i := !i) rfl hothers
  have hwaiting : (race calls s reads).stage i = .begun := by
    have hother := hreads.other
    rwa [Bool.not_not] at hother
  have hfirst : (race calls s reads).store.insertion (calls i).source (calls i).batch
      (calls i).batchSize = .ok commits := by
    rw [race, hreads.store]
    exact hplan
  obtain ⟨whole, hwhole⟩ := reaches_insertion calls hwaiting hfirst
  have hstage : (race calls s (reads ++ whole)).stage (!i) = .writing others := by
    rw [race_append, hwhole.other]
    exact hreads.own
  obtain ⟨rest, hrest⟩ := reaches_done calls hstage
  have hown : (race calls s (reads ++ whole)).stage i = .writing [] := by
    rw [race_append]
    exact hwhole.own
  have hdone : (race calls s (reads ++ whole ++ rest)).Done := by
    intro j
    rw [race_append]
    by_cases hj : j = i
    · have hkept := hrest.other
      rw [Bool.not_not] at hkept
      rw [hj]
      exact hkept.trans hown
    · rw [Bool.eq_not.mpr hj]
      exact hrest.own
  refine ⟨_, hdone, (missing_iff_overtaken hs hne hdone he).mpr ?_⟩
  refine ⟨_, List.prefix_append _ rest, ⟨others, hstage, ?_⟩, [], hown, List.not_mem_nil⟩
  obtain ⟨_, _, own, siblings, hownManifest, hsiblings, rfl⟩ := insertion_eq_ok_iff.mp hothers
  rw [removed_plan, mem_removable_iff_stale hownManifest hsiblings]
  exact hstale

include hs hne in
theorem stale_of_overtaken {before : List Bool} {e : Family × Item}
    (he : e ∈ contribution (calls i).source (calls i).batch)
    (h : (race calls s before).Overtaken i e) :
    s.Stale (calls !i).source (calls !i).batch e := by
  obtain ⟨⟨rest, hrest, hmem⟩, _⟩ := h
  have hdrop := (follows_race hs hne before).droppable hrest hmem
  apply hdrop.stale
  rwa [Bool.not_not]

include hs hne in
theorem holds_done_iff {turns : List Bool} (hdone : (race calls s turns).Done) (i : Bool)
    (e : Family × Item) :
    (race calls s turns).store.Holds (calls i).source e ↔
      e ∈ contribution (calls i).source (calls i).batch := by
  have hmanifest := (follows_race hs hne turns).manifests i
  rw [if_pos (hdone i)] at hmanifest
  rw [holds_iff hmanifest, Manifest.mem_items_ofItems]

theorem source_ne (h : (calls false).source ≠ (calls true).source) {i j : Bool} (hij : i ≠ j) :
    (calls i).source ≠ (calls j).source := by
  cases i <;> cases j
  · exact absurd rfl hij
  · exact h
  · exact h.symm
  · exact absurd rfl hij

/-- Two insertions of different sources race. When both are done, an item of a manifest is missing
from the sets exactly if at some point the other insertion was still to remove it and this one
had no more to add of it. No way of taking turns loses an item exactly if neither batch
contributes what is stale for the other one. -/
theorem race_loses_iff (hs : s.Attainable) (hc : s.Current)
    (hdiffer : (calls false).source ≠ (calls true).source)
    (hsize : ∀ i, 1 ≤ (calls i).batchSize) :
    (∀ turns, (race calls s turns).Done → ∀ i e,
      (race calls s turns).store.Holds (calls i).source e →
        (setRow e ∉ (race calls s turns).store.sets ↔
          ∃ before, before <+: turns ∧ (race calls s before).Overtaken i e)) ∧
    ((∀ turns, (race calls s turns).Done → ∀ i e,
      (race calls s turns).store.Holds (calls i).source e →
        setRow e ∈ (race calls s turns).store.sets) ↔
      ∀ i e, e ∈ contribution (calls i).source (calls i).batch →
        ¬s.Stale (calls !i).source (calls !i).batch e) := by
  have hsound := hs.sound
  have hne : ∀ {i j}, i ≠ j → (calls i).source ≠ (calls j).source := source_ne hdiffer
  refine ⟨fun turns hdone i e he => ?_, ?_, ?_⟩
  · rw [holds_done_iff hsound hne hdone] at he
    exact missing_iff_overtaken hsound hne hdone he
  · intro hkeeps i e he hstale
    obtain ⟨turns, hdone, hmissing⟩ := exists_overtaken hsound hne hc hsize he hstale
    exact hmissing (hkeeps turns hdone i e ((holds_done_iff hsound hne hdone i e).mpr he))
  · intro hnone turns hdone i e he
    rw [holds_done_iff hsound hne hdone] at he
    by_contra hmissing
    obtain ⟨before, _, hovertaken⟩ := (missing_iff_overtaken hsound hne hdone he).mp hmissing
    exact hnone i e he (stale_of_overtaken hsound hne he hovertaken)

def handover : Bool → Intake
  | false => ⟨.nvd, {}, 1⟩
  | true => ⟨.jvn, singleProduct, 1⟩

theorem attainable_first : (fresh.commitAll firstCommits).Attainable :=
  Attainable.fresh.insertion insertion_first

theorem current_first : (fresh.commitAll firstCommits).Current := by
  obtain ⟨stamp, hstamp, hout⟩ := current_fresh
  exact ⟨stamp, (stamp_insertion insertion_first).trans hstamp, hout⟩

theorem stale_singleUri : (fresh.commitAll firstCommits).Stale .nvd {} singleUri := by
  refine ⟨?_, List.not_mem_nil, fun u hu => ?_⟩
  · rw [holds_insertion insertion_first, if_pos rfl]
    exact singleUri_mem_contribution .nvd
  · rw [holds_insertion insertion_first, if_neg hu]
    exact not_holds_fresh u singleUri

theorem race_loses_singleUri :
    (fresh.commitAll firstCommits).Attainable ∧ (fresh.commitAll firstCommits).Current ∧
      (handover false).source ≠ (handover true).source ∧ (∀ i, 1 ≤ (handover i).batchSize) ∧
      ¬∀ turns, (race handover (fresh.commitAll firstCommits) turns).Done → ∀ i e,
        (race handover (fresh.commitAll firstCommits) turns).store.Holds (handover i).source e →
          setRow e ∈ (race handover (fresh.commitAll firstCommits) turns).store.sets := by
  have hdiffer : (handover false).source ≠ (handover true).source := by decide
  have hsize : ∀ i, 1 ≤ (handover i).batchSize := by decide
  refine ⟨attainable_first, current_first, hdiffer, hsize, fun hkeeps => ?_⟩
  have hnone := (race_loses_iff attainable_first current_first hdiffer hsize).2.mp hkeeps
  exact hnone true singleUri (singleUri_mem_contribution .jvn) stale_singleUri

end PlatformCatalog.KeyValueStore
