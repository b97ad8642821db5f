/-!
# Wildcards at the ends

Both readers of components let wildcards stand at either end, and nowhere
else. They look back and ahead by one unit at each wildcard. The rows of
units that pass are those of a small grammar, whatever the units are.
-/

set_option autoImplicit false

namespace PlatformCatalog

structure Wildcards (β : Type) where
  asterisk : β
  questionMark : β
  differ : asterisk ≠ questionMark

namespace Wildcards

variable {β : Type}

def IsBody (w : Wildcards β) (x : β) : Prop := x ≠ w.asterisk ∧ x ≠ w.questionMark

def QuestionMarkFits (w : Wildcards β) (embedded : Bool) (previous : Option β) (rest : List β) :
    Prop :=
  previous = none ∨ rest = [] ∨ (embedded = false ∧ previous = some w.questionMark) ∨
    (embedded = true ∧ rest.head? = some w.questionMark)

/-- The rule of the readers, unit by unit. `embedded` says that something other than a wildcard
has been read, and `previous` is the unit just read. -/
inductive Passes (w : Wildcards β) : Bool → Option β → List β → Prop
  | nil {embedded : Bool} {previous : Option β} : Passes w embedded previous []
  | asterisk {embedded : Bool} {previous : Option β} {rest : List β} :
      previous = none ∨ rest = [] → Passes w embedded (some w.asterisk) rest →
      Passes w embedded previous (w.asterisk :: rest)
  | questionMark {embedded : Bool} {previous : Option β} {rest : List β} :
      w.QuestionMarkFits embedded previous rest → Passes w embedded (some w.questionMark) rest →
      Passes w embedded previous (w.questionMark :: rest)
  | body {embedded : Bool} {previous : Option β} {rest : List β} {x : β} :
      w.IsBody x → Passes w true (some x) rest → Passes w embedded previous (x :: rest)

/-- What stands at either end of a body. -/
inductive IsEnd (w : Wildcards β) : List β → Prop
  | nothing : IsEnd w []
  | asterisk : IsEnd w [w.asterisk]
  | questionMarks (n : Nat) : IsEnd w (List.replicate (n + 1) w.questionMark)

/-- Wildcards without a body. -/
inductive IsWild (w : Wildcards β) : List β → Prop
  | asterisk : IsWild w [w.asterisk]
  | asterisks : IsWild w [w.asterisk, w.asterisk]
  | asteriskFirst : IsWild w [w.asterisk, w.questionMark]
  | questionMarks (n : Nat) : IsWild w (List.replicate (n + 1) w.questionMark)
  | asteriskLast (n : Nat) : IsWild w (List.replicate (n + 1) w.questionMark ++ [w.asterisk])

/-- A body between two ends, or wildcards alone. -/
inductive IsFramed (w : Wildcards β) : List β → Prop
  | framed {left body right : List β} : w.IsEnd left → body ≠ [] → (∀ x ∈ body, w.IsBody x) →
      w.IsEnd right → IsFramed w (left ++ body ++ right)
  | wild {units : List β} : w.IsWild units → IsFramed w units

variable {w : Wildcards β} {embedded : Bool} {previous : Option β} {rest units : List β}

theorem passes_asterisk :
    w.Passes embedded previous (w.asterisk :: rest) ↔
      (previous = none ∨ rest = []) ∧ w.Passes embedded (some w.asterisk) rest := by
  constructor
  · generalize hunits : w.asterisk :: rest = units
    intro h
    cases h with
    | nil => cases hunits
    | asterisk hends h =>
      cases hunits
      exact ⟨hends, h⟩
    | questionMark => exact absurd (List.cons.inj hunits).1 w.differ
    | body hx => exact absurd (List.cons.inj hunits).1.symm hx.1
  · rintro ⟨hends, h⟩
    exact .asterisk hends h

theorem passes_questionMark :
    w.Passes embedded previous (w.questionMark :: rest) ↔
      w.QuestionMarkFits embedded previous rest ∧ w.Passes embedded (some w.questionMark) rest := by
  constructor
  · generalize hunits : w.questionMark :: rest = units
    intro h
    cases h with
    | nil => cases hunits
    | asterisk => exact absurd (List.cons.inj hunits).1.symm w.differ
    | questionMark hfits h =>
      cases hunits
      exact ⟨hfits, h⟩
    | body hx => exact absurd (List.cons.inj hunits).1.symm hx.2
  · rintro ⟨hfits, h⟩
    exact .questionMark hfits h

theorem passes_body {x : β} (hx : w.IsBody x) :
    w.Passes embedded previous (x :: rest) ↔ w.Passes true (some x) rest := by
  constructor
  · generalize hunits : x :: rest = units
    intro h
    cases h with
    | nil => cases hunits
    | asterisk => exact absurd (List.cons.inj hunits).1 hx.1
    | questionMark => exact absurd (List.cons.inj hunits).1 hx.2
    | body _ h =>
      cases hunits
      exact h
  · exact .body hx

@[elab_as_elim]
theorem unit_induction (w : Wildcards β) {motive : List β → Prop} (nil : motive [])
    (asterisk : ∀ rest, motive rest → motive (w.asterisk :: rest))
    (questionMark : ∀ rest, motive rest → motive (w.questionMark :: rest))
    (body : ∀ x rest, w.IsBody x → motive rest → motive (x :: rest)) (units : List β) :
    motive units := by
  induction units with
  | nil => exact nil
  | cons x rest ih =>
    by_cases hasterisk : x = w.asterisk
    · exact hasterisk ▸ asterisk rest ih
    · by_cases hmark : x = w.questionMark
      · exact hmark ▸ questionMark rest ih
      · exact body x rest ⟨hasterisk, hmark⟩ ih

theorem IsEnd.eq_questionMarks (h : w.IsEnd units) (hhead : units.head? = some w.questionMark) :
    ∃ n, units = List.replicate (n + 1) w.questionMark := by
  cases h with
  | nothing => cases hhead
  | asterisk => exact absurd (Option.some.inj hhead) w.differ
  | questionMarks n => exact ⟨n, rfl⟩

theorem passes_embedded_iff {x : β} :
    w.Passes true (some x) units ↔
      ∃ body right, (∀ y ∈ body, w.IsBody y) ∧ w.IsEnd right ∧ units = body ++ right := by
  constructor
  · intro h
    induction units using w.unit_induction generalizing x with
    | nil => exact ⟨[], [], by simp, .nothing, rfl⟩
    | asterisk rest _ =>
      obtain ⟨hends, _⟩ := passes_asterisk.mp h
      obtain rfl : rest = [] := by simpa using hends
      exact ⟨[], [w.asterisk], by simp, .asterisk, rfl⟩
    | questionMark rest ih =>
      obtain ⟨hfits, hrest⟩ := passes_questionMark.mp h
      obtain ⟨body, right, hbody, hright, rfl⟩ := ih hrest
      have hrun : body ++ right = [] ∨ (body ++ right).head? = some w.questionMark := by
        simpa [QuestionMarkFits] using hfits
      rcases hrun with hnil | hhead
      · exact ⟨[], [w.questionMark], by simp, .questionMarks 0, by rw [hnil]; rfl⟩
      · cases body with
        | nil =>
          obtain ⟨n, rfl⟩ := hright.eq_questionMarks hhead
          exact ⟨[], List.replicate (n + 2) w.questionMark, by simp, .questionMarks (n + 1), rfl⟩
        | cons y body => exact absurd (Option.some.inj hhead) (hbody y (by simp)).2
    | body y rest hy ih =>
      obtain ⟨body, right, hbody, hright, rfl⟩ := ih ((passes_body hy).mp h)
      exact ⟨y :: body, right, List.forall_mem_cons.mpr ⟨hy, hbody⟩, hright, rfl⟩
  · rintro ⟨body, right, hbody, hright, rfl⟩
    induction body generalizing x with
    | nil =>
      cases hright with
      | nothing => exact .nil
      | asterisk => exact passes_asterisk.mpr ⟨Or.inr rfl, .nil⟩
      | questionMarks n =>
        induction n generalizing x with
        | zero => exact passes_questionMark.mpr ⟨Or.inr (Or.inl rfl), .nil⟩
        | succ n ih =>
          exact passes_questionMark.mpr ⟨Or.inr (Or.inr (Or.inr ⟨rfl, rfl⟩)), ih⟩
    | cons y body ih =>
      obtain ⟨hy, hbody⟩ := List.forall_mem_cons.mp hbody
      exact (passes_body hy).mpr (ih hbody)

def IsBodyAndEnd (w : Wildcards β) (units : List β) : Prop :=
  ∃ body right, body ≠ [] ∧ (∀ x ∈ body, w.IsBody x) ∧ w.IsEnd right ∧ units = body ++ right

theorem IsBodyAndEnd.passes (h : w.IsBodyAndEnd units) : w.Passes embedded previous units := by
  obtain ⟨body, right, hne, hbody, hright, rfl⟩ := h
  obtain ⟨x, more, rfl⟩ := List.exists_cons_of_ne_nil hne
  obtain ⟨hx, hmore⟩ := List.forall_mem_cons.mp hbody
  exact (passes_body hx).mpr (passes_embedded_iff.mpr ⟨more, right, hmore, hright, rfl⟩)

theorem isBodyAndEnd_of_passes {x : β} (hx : w.IsBody x)
    (h : w.Passes embedded previous (x :: rest)) : w.IsBodyAndEnd (x :: rest) := by
  obtain ⟨body, right, hbody, hright, rfl⟩ := passes_embedded_iff.mp ((passes_body hx).mp h)
  exact ⟨x :: body, right, by simp, List.forall_mem_cons.mpr ⟨hx, hbody⟩, hright, rfl⟩

theorem IsBodyAndEnd.isFramed {left : List β} (hleft : w.IsEnd left) (h : w.IsBodyAndEnd units) :
    w.IsFramed (left ++ units) := by
  obtain ⟨body, right, hne, hbody, hright, rfl⟩ := h
  rw [← List.append_assoc]
  exact .framed hleft hne hbody hright

theorem passes_after_asterisk_iff :
    w.Passes false (some w.asterisk) units ↔
      units = [] ∨ units = [w.asterisk] ∨ units = [w.questionMark] ∨ w.IsBodyAndEnd units := by
  constructor
  · intro h
    cases units using w.unit_induction with
    | nil => exact Or.inl rfl
    | asterisk rest =>
      obtain ⟨hends, _⟩ := passes_asterisk.mp h
      obtain rfl : rest = [] := by simpa using hends
      exact Or.inr (Or.inl rfl)
    | questionMark rest =>
      obtain ⟨hfits, _⟩ := passes_questionMark.mp h
      obtain rfl : rest = [] := by simpa [QuestionMarkFits, w.differ] using hfits
      exact Or.inr (Or.inr (Or.inl rfl))
    | body x rest hx => exact Or.inr (Or.inr (Or.inr (isBodyAndEnd_of_passes hx h)))
  · rintro (rfl | rfl | rfl | hbody)
    · exact .nil
    · exact passes_asterisk.mpr ⟨Or.inr rfl, .nil⟩
    · exact passes_questionMark.mpr ⟨Or.inr (Or.inl rfl), .nil⟩
    · exact hbody.passes

theorem passes_after_questionMark_iff :
    w.Passes false (some w.questionMark) units ↔
      ∃ n rest, units = List.replicate n w.questionMark ++ rest ∧
        (rest = [] ∨ rest = [w.asterisk] ∨ w.IsBodyAndEnd rest) := by
  constructor
  · intro h
    induction units using w.unit_induction with
    | nil => exact ⟨0, [], rfl, Or.inl rfl⟩
    | asterisk rest _ =>
      obtain ⟨hends, _⟩ := passes_asterisk.mp h
      obtain rfl : rest = [] := by simpa using hends
      exact ⟨0, [w.asterisk], rfl, Or.inr (Or.inl rfl)⟩
    | questionMark rest ih =>
      obtain ⟨n, tail, rfl, htail⟩ := ih (passes_questionMark.mp h).2
      exact ⟨n + 1, tail, rfl, htail⟩
    | body x rest hx _ => exact ⟨0, x :: rest, rfl, Or.inr (Or.inr (isBodyAndEnd_of_passes hx h))⟩
  · rintro ⟨n, rest, rfl, hrest⟩
    induction n with
    | zero =>
      rcases hrest with rfl | rfl | hbody
      · exact .nil
      · exact passes_asterisk.mpr ⟨Or.inr rfl, .nil⟩
      · exact hbody.passes
    | succ n ih => exact passes_questionMark.mpr ⟨Or.inr (Or.inr (Or.inl ⟨rfl, rfl⟩)), ih⟩

theorem isFramed_of_passes (hne : units ≠ []) (h : w.Passes false none units) :
    w.IsFramed units := by
  cases units using w.unit_induction with
  | nil => exact absurd rfl hne
  | asterisk rest =>
    rcases passes_after_asterisk_iff.mp (passes_asterisk.mp h).2 with rfl | rfl | rfl | hbody
    · exact .wild .asterisk
    · exact .wild .asterisks
    · exact .wild .asteriskFirst
    · exact hbody.isFramed .asterisk
  | questionMark rest =>
    obtain ⟨n, tail, rfl, htail⟩ :=
      passes_after_questionMark_iff.mp (passes_questionMark.mp h).2
    have hrun : w.questionMark :: (List.replicate n w.questionMark ++ tail) =
        List.replicate (n + 1) w.questionMark ++ tail := rfl
    rw [hrun]
    rcases htail with rfl | rfl | hbody
    · rw [List.append_nil]
      exact .wild (.questionMarks n)
    · exact .wild (.asteriskLast n)
    · exact hbody.isFramed (.questionMarks n)
  | body x rest hx => exact (isBodyAndEnd_of_passes hx h).isFramed .nothing

theorem passes_questionMarks {n : Nat}
    (h : rest = [] ∨ rest = [w.asterisk] ∨ w.IsBodyAndEnd rest) :
    w.Passes false none (List.replicate (n + 1) w.questionMark ++ rest) :=
  passes_questionMark.mpr ⟨Or.inl rfl, passes_after_questionMark_iff.mpr ⟨n, rest, rfl, h⟩⟩

theorem IsFramed.passes (h : w.IsFramed units) : w.Passes false none units := by
  cases h with
  | @framed left body right hleft hne hbody hright =>
    have hrest : w.IsBodyAndEnd (body ++ right) := ⟨body, right, hne, hbody, hright, rfl⟩
    rw [List.append_assoc]
    cases hleft with
    | nothing => exact hrest.passes
    | asterisk =>
      exact passes_asterisk.mpr
        ⟨Or.inl rfl, passes_after_asterisk_iff.mpr (Or.inr (Or.inr (Or.inr hrest)))⟩
    | questionMarks n => exact passes_questionMarks (Or.inr (Or.inr hrest))
  | wild hwild =>
    cases hwild with
    | asterisk => exact passes_asterisk.mpr ⟨Or.inl rfl, .nil⟩
    | asterisks =>
      exact passes_asterisk.mpr ⟨Or.inl rfl, passes_after_asterisk_iff.mpr (Or.inr (Or.inl rfl))⟩
    | asteriskFirst =>
      exact passes_asterisk.mpr
        ⟨Or.inl rfl, passes_after_asterisk_iff.mpr (Or.inr (Or.inr (Or.inl rfl)))⟩
    | questionMarks n =>
      rw [← List.append_nil (List.replicate (n + 1) w.questionMark)]
      exact passes_questionMarks (Or.inl rfl)
    | asteriskLast n => exact passes_questionMarks (Or.inr (Or.inl rfl))

theorem IsFramed.ne_nil (h : w.IsFramed units) : units ≠ [] := by
  cases h with
  | framed _ hne _ _ => simp [hne]
  | wild hwild => cases hwild <;> simp

/-- The rows of units that pass are those of the grammar, and no others. -/
theorem passes_iff_isFramed : w.Passes false none units ∧ units ≠ [] ↔ w.IsFramed units :=
  ⟨fun ⟨h, hne⟩ => isFramed_of_passes hne h, fun h => ⟨h.passes, h.ne_nil⟩⟩

end Wildcards

end PlatformCatalog
