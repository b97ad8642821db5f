/-!
# Rows

Rows in strictly ascending order, each at most once. The order is a
comparison that goes with every operation. Long rows of writes are cut into
chunks of a given size, the last of which may be shorter.
-/

set_option autoImplicit false

namespace PlatformCatalog

/-- Chunks hold one element at least. -/
def chunks {α : Type} (size : Nat) : List α → List (List α)
  | [] => []
  | x :: rest => (x :: rest.take (size - 1)) :: chunks size (rest.drop (size - 1))
termination_by xs => xs.length
decreasing_by simp only [List.length_drop, List.length_cons]; omega

theorem flatten_chunks {α : Type} (size : Nat) (xs : List α) : (chunks size xs).flatten = xs := by
  fun_induction chunks size xs with
  | case1 => rfl
  | case2 x rest ih => simp [ih]

end PlatformCatalog

namespace PlatformCatalog.Ordered

variable {α : Type} (before : α → α → Bool)

/-- The comparison is irreflexive and transitive, and only equal elements are not compared. -/
structure Strict : Prop where
  irrefl : ∀ x, before x x = false
  trans : ∀ {x y z}, before x y = true → before y z = true → before x z = true
  eq_of_not_before : ∀ {x y}, before x y = false → before y x = false → x = y

def insert (x : α) : List α → List α
  | [] => [x]
  | y :: rest =>
    if before x y then x :: y :: rest
    else if before y x then y :: insert x rest
    else y :: rest

def erase (x : α) : List α → List α
  | [] => []
  | y :: rest =>
    if before x y then y :: rest
    else if before y x then y :: erase x rest
    else rest

def insertAll (xs : List α) (rows : List α) : List α :=
  xs.foldl (fun rows x => insert before x rows) rows

def eraseAll (xs : List α) (rows : List α) : List α :=
  xs.foldl (fun rows x => erase before x rows) rows

def ofList (xs : List α) : List α := insertAll before xs []

variable {before}

theorem mem_insert (h : Strict before) (x z : α) (rows : List α) :
    z ∈ insert before x rows ↔ z = x ∨ z ∈ rows := by
  induction rows with
  | nil => simp [insert]
  | cons y rest ih =>
    simp only [insert]
    split
    · simp
    · next hxy =>
      split
      · simp [ih, or_left_comm]
      · next hyx =>
        have hx : x = y := h.eq_of_not_before (by simpa using hxy) (by simpa using hyx)
        simp [hx]

def textBefore (s t : String) : Bool := s < t

def pairBefore (a b : String × String) : Bool :=
  a.1 < b.1 || (a.1 == b.1 && a.2 < b.2)

def put {κ υ : Type} (before : κ → κ → Bool) (k : κ) (v : υ) : List (κ × υ) → List (κ × υ)
  | [] => [(k, v)]
  | (l, w) :: rest =>
    if before k l then (k, v) :: (l, w) :: rest
    else if before l k then (l, w) :: put before k v rest
    else (k, v) :: rest

def get? {κ υ : Type} [DecidableEq κ] (k : κ) : List (κ × υ) → Option υ
  | [] => none
  | (l, w) :: rest => if k = l then some w else get? k rest

def remove {κ υ : Type} [DecidableEq κ] (k : κ) (rows : List (κ × υ)) : List (κ × υ) :=
  rows.filter fun row => row.1 ≠ k

end PlatformCatalog.Ordered
