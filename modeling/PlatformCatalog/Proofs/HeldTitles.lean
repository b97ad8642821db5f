import Mathlib.Data.List.Induction
import PlatformCatalog.Fetch.Dictionary
import PlatformCatalog.Proofs.Rows

/-!
# What is held of a dictionary

A name of the dictionary is held under its flag, with the title of the last
item that gives it with that flag. A match criterion adds a name only where
neither flag holds it, so it replaces no title.
-/

set_option autoImplicit false

namespace PlatformCatalog.Dictionary

open Json

def items (documents : List (List UInt8)) : List Item :=
  documents.filterMap fun bytes => (parseBytes bytes).bind Item.ofJson

def criteria (documents : List (List UInt8)) : List String :=
  documents.filterMap fun bytes => (parseBytes bytes).bind criterion?

def IsName (s : String) : Prop := ∃ n, Formatted.read s = .ok n

theorem isNone_iff_not_isName {s : String} :
    (Formatted.read s).toOption.isNone = true ↔ ¬IsName s := by
  unfold IsName
  cases Formatted.read s <;> simp [Except.toOption]

instance (s : String) : Decidable (IsName s) :=
  decidable_of_iff ((Formatted.read s).toOption.isNone = false) (by
    rw [← Bool.not_eq_true, isNone_iff_not_isName, not_not])

/-- The title of the last item with the flag whose name is this one, a formatted string. -/
def lastTitle? (is : List Item) (deprecated : Bool) (name : String) : Option String :=
  ((is.filter fun i => IsName i.name ∧ i.deprecated = deprecated ∧ i.name = name).getLast?).map
    Item.title

/-- The title made for a name that no item has. -/
def madeTitle? (name : String) : Option String :=
  (Formatted.read name).toOption.map Holdings.titleOf

theorem isSome_lastTitle?_iff {is : List Item} {deprecated : Bool} {name : String} :
    (lastTitle? is deprecated name).isSome = true ↔
      ∃ i ∈ is, IsName i.name ∧ i.deprecated = deprecated ∧ i.name = name := by
  rw [lastTitle?, Option.isSome_map, List.getLast?_isSome, Ne, List.filter_eq_nil_iff]
  simp only [decide_eq_true_eq, not_forall, not_not, exists_prop]

theorem lastTitle?_eq_none_iff {is : List Item} {name : String} :
    (∀ flag, lastTitle? is flag name = none) ↔ ∀ i ∈ is, IsName i.name → i.name ≠ name := by
  simp only [← Option.not_isSome_iff_eq_none, isSome_lastTitle?_iff]
  constructor
  · intro h i hi hname hsame
    exact h i.deprecated ⟨i, hi, hname, rfl, hsame⟩
  · rintro h flag ⟨i, hi, hname, _, hsame⟩
    exact h i hi hname hsame

theorem forall_ne_iff {is : List Item} {name : String} (hname : IsName name) :
    (∀ i ∈ is, IsName i.name → i.name ≠ name) ↔ ∀ i ∈ is, i.name ≠ name := by
  constructor
  · rintro h i hi rfl
    exact h i hi hname rfl
  · intro h i hi _
    exact h i hi

theorem isSome_madeTitle?_iff {name : String} : (madeTitle? name).isSome = true ↔ IsName name := by
  rw [madeTitle?, IsName]
  cases Formatted.read name <;> simp [Except.toOption]

namespace Holdings

def rows (h : Holdings) (deprecated : Bool) : List (String × String) :=
  if deprecated then h.deprecated else h.active

def title? (h : Holdings) (deprecated : Bool) (name : String) : Option String :=
  Ordered.get? name (h.rows deprecated)

theorem title?_addItem (h : Holdings) (i : Item) (flag : Bool) (name : String) :
    (h.addItem i).title? flag name =
      if IsName i.name ∧ i.deprecated = flag ∧ i.name = name then some i.title
      else h.title? flag name := by
  rw [addItem]
  by_cases hname : IsName i.name
  · rw [if_neg (mt isNone_iff_not_isName.mp (not_not_intro hname))]
    cases hflag : i.deprecated <;> cases flag <;>
      simp [title?, rows, Ordered.get?_put Ordered.textBefore_strict, hname, eq_comm]
  · rw [if_pos (isNone_iff_not_isName.mpr hname), if_neg fun h => hname h.1]

theorem title?_addItems (is : List Item) (flag : Bool) (name : String) :
    (is.foldl addItem {}).title? flag name = lastTitle? is flag name := by
  induction is using List.reverseRecOn with
  | nil => cases flag <;> rfl
  | append_singleton is i ih =>
    rw [List.foldl_append, List.foldl_cons, List.foldl_nil, title?_addItem, ih, lastTitle?,
      lastTitle?, List.filter_append, List.filter_singleton]
    split
    · next h =>
      rw [decide_eq_true h, cond_true, List.getLast?_concat]
      rfl
    · next h => rw [decide_eq_false h, cond_false, List.append_nil]

/-- The title that a criterion brings where no item of its name is deprecated. -/
def addedTitle? (h : Holdings) (name : String) : Option String :=
  if h.title? true name = none then madeTitle? name else none

theorem title?_put_active (h : Holdings) (c title : String) (flag : Bool) (name : String) :
    title? { h with active := Ordered.put Ordered.textBefore c title h.active } flag name =
      if flag = false ∧ c = name then some title else h.title? flag name := by
  cases flag <;> simp [title?, rows, Ordered.get?_put Ordered.textBefore_strict, eq_comm]

theorem title?_addCriterion (h : Holdings) (c : String) (flag : Bool) (name : String) :
    (h.addCriterion c).title? flag name =
      if flag = false ∧ c = name then (h.title? false c).or (h.addedTitle? c)
      else h.title? flag name := by
  have hkept : h.title? flag name =
      if flag = false ∧ c = name then h.title? false c else h.title? flag name := by
    split
    · next h => rw [h.1, h.2]
    · rfl
  have hholds : h.holds c = ((h.title? false c).isSome || (h.title? true c).isSome) := rfl
  rw [addCriterion, hholds, addedTitle?]
  cases hactive : h.title? false c with
  | some title =>
    rw [hactive] at hkept
    simpa using hkept
  | none =>
    cases hdeprecated : h.title? true c with
    | some title =>
      rw [hactive] at hkept
      simpa using hkept
    | none =>
      rw [madeTitle?]
      cases Formatted.read c with
      | error e =>
        rw [hactive] at hkept
        simpa [Except.toOption] using hkept
      | ok n => simp [title?_put_active, Except.toOption]

theorem title?_addCriteria (h : Holdings) (cs : List String) (name : String) :
    (cs.foldl addCriterion h).title? true name = h.title? true name ∧
      (cs.foldl addCriterion h).title? false name =
        (h.title? false name).or (if name ∈ cs then h.addedTitle? name else none) := by
  induction cs generalizing h with
  | nil => simp
  | cons c cs ih =>
    have hdeprecated : (h.addCriterion c).title? true name = h.title? true name := by
      rw [title?_addCriterion, if_neg (by simp)]
    have hadded : (h.addCriterion c).addedTitle? name = h.addedTitle? name := by
      rw [addedTitle?, addedTitle?, hdeprecated]
    rw [List.foldl_cons, (ih _).1, (ih _).2, hdeprecated, hadded, title?_addCriterion]
    refine ⟨rfl, ?_⟩
    by_cases hc : c = name
    · subst hc
      by_cases hcs : c ∈ cs <;> simp [hcs, Option.or_assoc]
    · simp [hc, Ne.symm hc]

def built (dictionary found : List (List UInt8)) : Holdings :=
  (criteria found).foldl addCriterion ((items dictionary).foldl addItem {})

theorem build_eq (dictionary found : List (List UInt8)) :
    build dictionary found = (built dictionary found).toBatch := rfl

variable {dictionary found : List (List UInt8)}

theorem title?_built_true (name : String) :
    (built dictionary found).title? true name = lastTitle? (items dictionary) true name := by
  rw [built, (title?_addCriteria _ _ name).1, title?_addItems]

theorem title?_built_false (name : String) :
    (built dictionary found).title? false name =
      (lastTitle? (items dictionary) false name).or
        (if name ∈ criteria found ∧ lastTitle? (items dictionary) true name = none then
          madeTitle? name
        else none) := by
  rw [built, (title?_addCriteria _ _ name).2, title?_addItems, addedTitle?, title?_addItems]
  congr 1
  by_cases hc : name ∈ criteria found <;> simp [hc]

theorem title?_built_false_eq_some_iff {name title : String} :
    (built dictionary found).title? false name = some title ↔
      lastTitle? (items dictionary) false name = some title ∨
        name ∈ criteria found ∧ (∀ i ∈ items dictionary, IsName i.name → i.name ≠ name) ∧
          madeTitle? name = some title := by
  rw [title?_built_false, Option.or_eq_some_iff, Option.ite_none_right_eq_some,
    ← lastTitle?_eq_none_iff, Bool.forall_bool]
  tauto

def Lists (h : Holdings) (deprecated : Bool) (name : String) : Prop :=
  (h.title? deprecated name).isSome = true

theorem lists_built_true (name : String) : (built dictionary found).Lists true name ↔
    ∃ i ∈ items dictionary, IsName i.name ∧ i.deprecated = true ∧ i.name = name := by
  rw [Lists, title?_built_true, isSome_lastTitle?_iff]

theorem lists_built_false (name : String) : (built dictionary found).Lists false name ↔
    (∃ i ∈ items dictionary, IsName i.name ∧ i.deprecated = false ∧ i.name = name) ∨
      name ∈ criteria found ∧ IsName name ∧ ∀ i ∈ items dictionary, i.name ≠ name := by
  simp only [Lists, Option.isSome_iff_exists, title?_built_false_eq_some_iff, exists_or,
    exists_and_left]
  rw [← isSome_lastTitle?_iff, ← isSome_madeTitle?_iff, Option.isSome_iff_exists,
    Option.isSome_iff_exists]
  refine or_congr_right (and_congr_right fun _ => ?_)
  rw [← Option.isSome_iff_exists, isSome_madeTitle?_iff, and_comm]
  exact and_congr_right forall_ne_iff

theorem isName_of_lists {flag : Bool} {name : String}
    (h : (built dictionary found).Lists flag name) : IsName name := by
  cases flag with
  | true =>
    obtain ⟨i, _, hi, _, rfl⟩ := (lists_built_true name).mp h
    exact hi
  | false =>
    rcases (lists_built_false name).mp h with ⟨i, _, hi, _, rfl⟩ | ⟨_, hname, _⟩
    · exact hi
    · exact hname

def InOrder (h : Holdings) : Prop :=
  ∀ flag, Ordered.AscendingKeys Ordered.textBefore (h.rows flag)

theorem InOrder.put {h : Holdings} (horder : h.InOrder) (name title : String) :
    InOrder { h with active := Ordered.put Ordered.textBefore name title h.active } ∧
      InOrder { h with deprecated := Ordered.put Ordered.textBefore name title h.deprecated } := by
  have hput := fun flag =>
    Ordered.ascendingKeys_put Ordered.textBefore_strict name title (horder flag)
  constructor
  · intro flag
    cases flag with
    | false => exact hput false
    | true => exact horder true
  · intro flag
    cases flag with
    | false => exact horder false
    | true => exact hput true

theorem InOrder.addItem {h : Holdings} (horder : h.InOrder) (i : Item) : (h.addItem i).InOrder := by
  rw [Holdings.addItem]
  split_ifs
  · exact horder
  · exact (horder.put i.name i.title).2
  · exact (horder.put i.name i.title).1

theorem InOrder.addCriterion {h : Holdings} (horder : h.InOrder) (c : String) :
    (h.addCriterion c).InOrder := by
  rw [Holdings.addCriterion]
  split
  · exact horder
  · cases Formatted.read c with
    | error e => exact horder
    | ok n => exact (horder.put c (titleOf n)).1

theorem inOrder_built (dictionary found : List (List UInt8)) :
    (built dictionary found).InOrder := by
  have hempty : InOrder {} := fun flag => by cases flag <;> exact Ordered.ascending_nil
  have hitems : ((items dictionary).foldl Holdings.addItem {}).InOrder :=
    List.foldlRecOn _ _ hempty fun _ h i _ => h.addItem i
  exact List.foldlRecOn _ _ hitems fun _ h c _ => h.addCriterion c

end Holdings

end PlatformCatalog.Dictionary
