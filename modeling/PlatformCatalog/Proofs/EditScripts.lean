import PlatformCatalog.Similarity.EditDistance

/-!
# Edit scripts

A script turns one row of characters into another, edit by edit, and an edit
may touch what an earlier one has left. An alignment goes through both rows
once and says what becomes of each character. Every script has an alignment
that costs no more.
-/

set_option autoImplicit false

namespace PlatformCatalog.EditDistance

variable {α : Type}

/-- One edit, at the beginning of a row or further on. Neighbours are swapped only where `swaps`
says so. -/
inductive Edit (swaps : Bool) : List α → List α → Prop
  | insert (x : α) (row : List α) : Edit swaps row (x :: row)
  | delete (x : α) (row : List α) : Edit swaps (x :: row) row
  | substitute (x y : α) (row : List α) : Edit swaps (x :: row) (y :: row)
  | swap (x y : α) (row : List α) : swaps = true → Edit swaps (x :: y :: row) (y :: x :: row)
  | further (x : α) {row row' : List α} : Edit swaps row row' → Edit swaps (x :: row) (x :: row')

/-- A number of edits, one after another. -/
inductive Edits (swaps : Bool) : Nat → List α → List α → Prop
  | none (row : List α) : Edits swaps 0 row row
  | more {n : Nat} {a b c : List α} : Edits swaps n a b → Edit swaps b c → Edits swaps (n + 1) a c

section

variable {swaps : Bool} {a b c : List α} {m n : Nat}

theorem Edit.append_left (h : Edit swaps a b) (before : List α) :
    Edit swaps (before ++ a) (before ++ b) := by
  induction before with
  | nil => exact h
  | cons x before ih => exact .further x ih

theorem Edit.append_right (h : Edit swaps a b) (after : List α) :
    Edit swaps (a ++ after) (b ++ after) := by
  induction h with
  | insert x row => exact .insert x _
  | delete x row => exact .delete x _
  | substitute x y row => exact .substitute x y _
  | swap x y row hswaps => exact .swap x y _ hswaps
  | further x _ ih => exact .further x ih

theorem Edit.reverse (h : Edit swaps a b) : Edit swaps a.reverse b.reverse := by
  induction h with
  | insert x row => simpa using (Edit.insert x []).append_left row.reverse
  | delete x row => simpa using (Edit.delete x []).append_left row.reverse
  | substitute x y row => simpa using (Edit.substitute x y []).append_left row.reverse
  | swap x y row hswaps => simpa using (Edit.swap y x [] hswaps).append_left row.reverse
  | further x _ ih => simpa using ih.append_right [x]

theorem Edits.further (h : Edits swaps n a b) (x : α) : Edits swaps n (x :: a) (x :: b) := by
  induction h with
  | none row => exact .none _
  | more _ hedit ih => exact .more ih (.further x hedit)

theorem Edits.trans (hab : Edits swaps m a b) (hbc : Edits swaps n b c) :
    Edits swaps (m + n) a c := by
  induction hbc with
  | none row => exact hab
  | more _ hedit ih => exact .more (ih hab) hedit

theorem Edits.reverse (h : Edits swaps n a b) : Edits swaps n a.reverse b.reverse := by
  induction h with
  | none row => exact .none _
  | more _ hedit ih => exact .more ih hedit.reverse

theorem Edits.reverse_iff : Edits swaps n a.reverse b.reverse ↔ Edits swaps n a b :=
  ⟨fun h => by simpa using h.reverse, Edits.reverse⟩

theorem edits_delete (u : List α) : Edits swaps u.length (u ++ a) a := by
  induction u with
  | nil => exact .none a
  | cons x u ih =>
    have hfirst : Edits swaps 1 (x :: (u ++ a)) (u ++ a) := .more (.none _) (.delete x _)
    rw [List.length_cons, Nat.add_comm]
    exact hfirst.trans ih

theorem edits_insert (v : List α) : Edits swaps v.length a (v ++ a) := by
  induction v with
  | nil => exact .none a
  | cons x v ih => exact .more ih (.insert x _)

end

variable [DecidableEq α]

theorem cost_self (x : α) : cost x x = 0 := if_pos rfl

theorem cost_of_ne {x y : α} (h : x ≠ y) : cost x y = 1 := if_neg h

theorem cost_le_one (x y : α) : cost x y ≤ 1 := by
  unfold cost
  split <;> omega

/-- The rows are gone through at the given cost or at a lower one. Two characters may change places
around deleted characters `u` and inserted ones `v` where `across u v`. -/
inductive Alignment (across : List α → List α → Prop) : Nat → List α → List α → Prop
  | nil {n : Nat} : Alignment across n [] []
  | delete {n : Nat} {a b : List α} (x : α) :
      Alignment across n a b → Alignment across (n + 1) (x :: a) b
  | insert {n : Nat} {a b : List α} (y : α) :
      Alignment across n a b → Alignment across (n + 1) a (y :: b)
  | pair {n : Nat} {a b : List α} (x y : α) :
      Alignment across n a b → Alignment across (n + cost x y) (x :: a) (y :: b)
  | swap {n : Nat} {a b u v : List α} (x y : α) : across u v → Alignment across n a b →
      Alignment across (n + u.length + v.length + 1) (x :: (u ++ y :: a)) (y :: (v ++ x :: b))

def anywhere (swaps : Bool) : List α → List α → Prop := fun _ _ => swaps = true

omit [DecidableEq α] in
theorem anywhere_true (u v : List α) : anywhere true u v := rfl

def adjacent : List α → List α → Prop := fun u v => u = [] ∧ v = []

namespace Alignment

section

variable {across : List α → List α → Prop} {a b : List α} {m n : Nat}

theorem mono (h : Alignment across m a b) (hmn : m ≤ n) : Alignment across n a b := by
  induction h generalizing n with
  | nil => exact .nil
  | delete x _ ih =>
    obtain ⟨k, rfl⟩ := Nat.exists_eq_add_of_le hmn
    exact Nat.add_right_comm .. ▸ (ih (Nat.le_add_right _ k)).delete x
  | insert y _ ih =>
    obtain ⟨k, rfl⟩ := Nat.exists_eq_add_of_le hmn
    exact Nat.add_right_comm .. ▸ (ih (Nat.le_add_right _ k)).insert y
  | pair x y _ ih =>
    obtain ⟨k, rfl⟩ := Nat.exists_eq_add_of_le hmn
    exact Nat.add_right_comm .. ▸ (ih (Nat.le_add_right _ k)).pair x y
  | @swap n' _ _ u v x y huv _ ih =>
    have h := (ih (Nat.le_add_right _ (n - (n' + u.length + v.length + 1)))).swap x y huv
    have hn : n' + (n - (n' + u.length + v.length + 1)) + u.length + v.length + 1 = n := by omega
    rwa [hn] at h

theorem imp {across' : List α → List α → Prop} (hacross : ∀ u v, across u v → across' u v)
    (h : Alignment across n a b) : Alignment across' n a b := by
  induction h with
  | nil => exact .nil
  | delete x _ ih => exact ih.delete x
  | insert y _ ih => exact ih.insert y
  | pair x y _ ih => exact ih.pair x y
  | swap x y huv _ ih => exact ih.swap x y (hacross _ _ huv)

theorem eq_of_zero (h : Alignment across 0 a b) : a = b := by
  generalize hn : 0 = n at h
  induction h with
  | nil => rfl
  | delete | insert | swap => omega
  | pair x y _ ih =>
    have hxy : x = y := Decidable.byContradiction fun hne => by
      have hcost := cost_of_ne hne
      omega
    rw [hxy, ih (by omega)]

theorem keep (h : Alignment across n a b) (x : α) : Alignment across n (x :: a) (x :: b) := by
  have hpair := h.pair x x
  rwa [cost_self] at hpair

theorem deletes (h : Alignment across n a b) (u : List α) :
    Alignment across (n + u.length) (u ++ a) b := by
  induction u with
  | nil => exact h
  | cons x u ih => exact ih.delete x

theorem inserts (h : Alignment across n a b) (v : List α) :
    Alignment across (n + v.length) a (v ++ b) := by
  induction v with
  | nil => exact h
  | cons y v ih => exact ih.insert y

theorem refl (a : List α) : Alignment across 0 a a := by
  induction a with
  | nil => exact .nil
  | cons x a ih => exact ih.keep x

theorem symm (hacross : ∀ u v, across u v → across v u) (h : Alignment across n a b) :
    Alignment across n b a := by
  induction h with
  | nil => exact .nil
  | delete x _ ih => exact ih.insert x
  | insert y _ ih => exact ih.delete y
  | pair x y _ ih =>
    have hcost : cost x y = cost y x := by simp only [cost, eq_comm]
    rw [hcost]
    exact ih.pair y x
  | swap x y huv _ ih =>
    rw [Nat.add_right_comm _ _ (List.length _)]
    exact ih.swap y x (hacross _ _ huv)

end

theorem swap_kept {across : List α → List α → Prop} (hacross : ∀ u v, across u v) {a b : List α}
    {d : α} {n : Nat} (h : Alignment across n a (d :: b)) (x : α) (u : List α) :
    Alignment across (n + u.length + 1) (x :: (u ++ a)) (d :: x :: b) := by
  generalize hrow : d :: b = row at h
  induction h generalizing u with
  | nil => cases hrow
  | @delete n a _ z _ ih =>
    have hmore := ih (u ++ [z]) hrow
    rw [List.append_assoc] at hmore
    exact hmore.mono (by simp; omega)
  | @insert n a _ y h _ =>
    cases hrow
    exact (((h.deletes u).keep x).insert d).mono (by omega)
  | @pair n a _ z y h _ =>
    cases hrow
    by_cases hz : z = d
    · subst hz
      exact (h.swap (u := u) (v := []) x z (hacross _ _)).mono (by simp)
    · have hcost := cost_of_ne hz
      exact ((((h.delete z).deletes u).keep x).insert d).mono (by omega)
  | @swap n a b' u' v z y _ h _ =>
    cases hrow
    have hkept := ((((h.delete d).deletes u').keep z).inserts v).deletes u
    exact ((hkept.keep x).insert d).mono (by omega)

omit [DecidableEq α] in
/-- An edit of a row changes what stands before a character, or what stands after it, or it takes
the character out of its place. -/
theorem edit_around {swaps : Bool} {v b w : List α} {x : α} (h : Edit swaps (v ++ x :: b) w) :
    (∃ v', v'.length ≤ v.length + 1 ∧ w = v' ++ x :: b) ∨
      (∃ v' b', v'.length ≤ v.length ∧ Edit swaps b b' ∧ w = v' ++ x :: b') ∨
      (∃ b', (b' = b ∨ Edit swaps b b') ∧ w = v ++ b') := by
  induction v generalizing w with
  | nil =>
    cases h with
    | insert z _ => exact Or.inl ⟨[z], by simp, rfl⟩
    | delete _ _ => exact Or.inr (Or.inr ⟨b, Or.inl rfl, rfl⟩)
    | substitute _ z _ => exact Or.inr (Or.inr ⟨z :: b, Or.inr (.insert z b), rfl⟩)
    | swap _ d rest _ =>
      exact Or.inr (Or.inr ⟨d :: x :: rest, Or.inr (.further d (.insert x rest)), rfl⟩)
    | further _ h => exact Or.inr (Or.inl ⟨[], _, by simp, h, rfl⟩)
  | cons z v ih =>
    rw [List.cons_append] at h
    generalize hrest : v ++ x :: b = rest at h
    cases h with
    | insert c _ => exact Or.inl ⟨c :: z :: v, by simp, by simp [← hrest]⟩
    | delete _ _ => exact Or.inl ⟨v, by simp; omega, hrest.symm⟩
    | substitute _ c _ => exact Or.inl ⟨c :: v, by simp, by simp [← hrest]⟩
    | swap _ d rest' _ =>
      cases v with
      | nil =>
        cases hrest
        exact Or.inr (Or.inl ⟨[], z :: b, by simp, .insert z b, rfl⟩)
      | cons e v =>
        cases hrest
        exact Or.inl ⟨d :: z :: v, by simp, rfl⟩
    | further _ h =>
      subst hrest
      rcases ih h with ⟨v', hv, rfl⟩ | ⟨v', b', hv, hb, rfl⟩ | ⟨b', hb, rfl⟩
      · exact Or.inl ⟨z :: v', by simpa using hv, rfl⟩
      · exact Or.inr (Or.inl ⟨z :: v', b', by simpa using hv, hb, rfl⟩)
      · exact Or.inr (Or.inr ⟨b', hb, rfl⟩)

theorem edit {swaps : Bool} {a b c : List α} {n : Nat}
    (h : Alignment (anywhere swaps) n a b) (hedit : Edit swaps b c) :
    Alignment (anywhere swaps) (n + 1) a c := by
  induction h generalizing c with
  | nil =>
    cases hedit with
    | insert z _ => exact Alignment.nil.insert z
  | delete x _ ih => exact (ih hedit).delete x
  | insert y h ih =>
    cases hedit with
    | insert z _ => exact (h.insert y).insert z
    | delete _ _ => exact h.mono (by omega)
    | substitute _ z _ => exact (h.insert z).mono (by omega)
    | swap _ d rest _ => exact (ih (.further d (.insert y rest))).mono (by omega)
    | further _ hedit => exact (ih hedit).insert y
  | pair x y h ih =>
    cases hedit with
    | insert z _ => exact (h.pair x y).insert z
    | delete _ _ => exact (h.delete x).mono (by omega)
    | substitute _ z _ => exact (h.pair x z).mono (by have := cost_le_one x z; omega)
    | swap _ d rest hswaps =>
      by_cases hxy : x = y
      · subst hxy
        exact (swap_kept (fun _ _ => hswaps) h x []).mono (by simp)
      · have hcost := cost_of_ne hxy
        exact ((ih (.further d (.insert y rest))).delete x).mono (by omega)
    | further _ hedit => exact ((ih hedit).pair x y).mono (by omega)
  | @swap n a b u v x y hswaps h ih =>
    have huncrossed : Alignment (anywhere swaps) (n + u.length + v.length + 1)
        (x :: (u ++ y :: a)) (v ++ x :: b) :=
      ((((h.delete y).deletes u).keep x).inserts v).mono (by omega)
    generalize hrest : v ++ x :: b = rest at hedit
    cases hedit with
    | insert z _ =>
      subst hrest
      exact (h.swap x y hswaps).insert z
    | delete _ _ =>
      subst hrest
      exact huncrossed.mono (by omega)
    | substitute _ z _ =>
      subst hrest
      exact huncrossed.insert z
    | swap _ d rest' _ =>
      cases v with
      | nil =>
        cases hrest
        exact (((h.keep y).deletes u).keep x).mono (by simp; omega)
      | cons e v =>
        cases hrest
        exact ((h.swap (v := v) x y hswaps).insert d).mono (by simp)
    | further _ hedit =>
      subst hrest
      rcases edit_around hedit with ⟨v', hv, rfl⟩ | ⟨v', b', hv, hb, rfl⟩ | ⟨b', hb, rfl⟩
      · exact (h.swap (v := v') x y hswaps).mono (by omega)
      · exact ((ih hb).swap (v := v') x y hswaps).mono (by omega)
      · have hb' : Alignment (anywhere swaps) (n + 1) a b' := by
          rcases hb with rfl | hb
          · exact h.mono (by omega)
          · exact ih hb
        exact ((((hb'.inserts v).keep y).deletes u).delete x).mono (by omega)

theorem exists_edits {swaps : Bool} {a b : List α} {n : Nat}
    (h : Alignment (anywhere swaps) n a b) : ∃ m ≤ n, Edits swaps m a b := by
  induction h with
  | nil => exact ⟨0, Nat.zero_le _, .none []⟩
  | @delete n a b x _ ih =>
    obtain ⟨m, hm, hscript⟩ := ih
    exact ⟨m + 1, by omega, .more (hscript.further x) (.delete x b)⟩
  | @insert n a b y _ ih =>
    obtain ⟨m, hm, hscript⟩ := ih
    exact ⟨m + 1, by omega, .more hscript (.insert y b)⟩
  | @pair n a b x y _ ih =>
    obtain ⟨m, hm, hscript⟩ := ih
    by_cases hxy : x = y
    · exact ⟨m, by omega, hxy ▸ hscript.further x⟩
    · have hcost := cost_of_ne hxy
      exact ⟨m + 1, by omega, .more (hscript.further x) (.substitute x y b)⟩
  | @swap n a b u v x y hswaps _ ih =>
    obtain ⟨m, hm, hscript⟩ := ih
    have hdelete : Edits swaps u.length (x :: (u ++ y :: a)) (x :: y :: a) :=
      (edits_delete u).further x
    have hswap := hdelete.more (.swap x y a hswaps)
    have hrest := hswap.trans ((hscript.further x).further y)
    exact ⟨_, by omega, hrest.trans ((edits_insert v).further y)⟩

theorem of_edits {swaps : Bool} {a b : List α} {n : Nat} (h : Edits swaps n a b) :
    Alignment (anywhere swaps) n a b := by
  induction h with
  | none row => exact refl row
  | more _ hedit ih => exact ih.edit hedit

end Alignment

end PlatformCatalog.EditDistance
