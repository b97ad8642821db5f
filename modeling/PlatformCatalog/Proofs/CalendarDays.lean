import Mathlib.Tactic.ByContra
import PlatformCatalog.Time.Calendar

/-!
# Days and dates

Every count of days has a valid date, and the date counts back to it. The
years of a cycle, and the months of a year, are found by divisions, which
hit the right one because they grow with the day and are exact at its first
and at its last day.
-/

set_option autoImplicit false

namespace PlatformCatalog.Time

theorem isLeapYear_add_cycles (year cycle : Int) :
    isLeapYear (year + cycle * 400) = isLeapYear year := by
  have h4 : (year + cycle * 400) % 4 = year % 4 := by omega
  have h100 : (year + cycle * 400) % 100 = year % 100 := by omega
  have h400 : (year + cycle * 400) % 400 = year % 400 := by omega
  rw [isLeapYear, h4, h100, h400, isLeapYear]

theorem daysInMonth_of_ne {month : Nat} (h : month ≠ 2) (year year' : Int) :
    daysInMonth year month = daysInMonth year' month := by
  rw [daysInMonth, daysInMonth, if_neg h, if_neg h]

namespace Date

def yearOfCycle (d : Int) : Int := (d - d / 1460 + d / 36524 - d / 146096) / 365

def yearStart (y : Int) : Int := 365 * y + y / 4 - y / 100 + y / 400

theorem ediv_succ_le {d n : Int} (hn : 0 < n) : (d + 1) / n ≤ d / n + 1 := by
  have h : (d + 1) / n ≤ (d + n) / n := Int.ediv_le_ediv hn (by omega)
  rwa [Int.add_ediv_of_dvd_right (Int.dvd_refl n), Int.ediv_self (by omega)] at h

theorem ediv_ediv_four (d : Int) : d / 36524 / 4 = d / 146096 :=
  Int.ediv_ediv_of_nonneg (by decide)

theorem yearOfCycle_le_succ (d : Int) : yearOfCycle d ≤ yearOfCycle (d + 1) := by
  have hleap : (d + 1) / 1460 ≤ d / 1460 + 1 := ediv_succ_le (by decide)
  have hcentury : d / 36524 ≤ (d + 1) / 36524 := Int.ediv_le_ediv (by decide) (by omega)
  have hcentury' : (d + 1) / 36524 ≤ d / 36524 + 1 := ediv_succ_le (by decide)
  unfold yearOfCycle
  rw [← ediv_ediv_four d, ← ediv_ediv_four (d + 1)]
  apply Int.ediv_le_ediv (by decide)
  generalize d / 36524 = a at *
  generalize (d + 1) / 36524 = b at *
  omega

theorem yearOfCycle_mono {c d : Int} (h : c ≤ d) : yearOfCycle c ≤ yearOfCycle d := by
  obtain ⟨n, rfl⟩ := Int.le.dest h
  induction n with
  | zero => exact Int.le_of_eq (by rw [Int.natCast_zero, Int.add_zero])
  | succ n ih =>
    rw [Int.natCast_succ, ← Int.add_assoc]
    exact Int.le_trans (ih (by omega)) (yearOfCycle_le_succ _)

theorem yearOfCycle_ends : ∀ y < 400, yearOfCycle (yearStart (y : Nat)) = y ∧
    yearOfCycle (yearStart (y + 1 : Nat) - 1) = y := by
  decide +kernel

theorem yearStart_succ : ∀ y < 400, yearStart (y + 1 : Nat) =
    yearStart (y : Nat) + if isLeapYear (y + 1 : Nat) then 366 else 365 := by
  decide +kernel

theorem yearOfCycle_bounds {d : Int} (h : 0 ≤ d) (h' : d < cycleDays) :
    ∃ y : Nat, y < 400 ∧ yearOfCycle d = y ∧ yearStart y ≤ d ∧ d < yearStart (y + 1 : Nat) := by
  have hfirst : 0 ≤ yearOfCycle d := yearOfCycle_mono h
  have hlast : yearOfCycle d ≤ 399 :=
    yearOfCycle_mono (Int.lt_add_one_iff.mp h' : d ≤ 146096)
  obtain ⟨y, hy⟩ := Int.eq_ofNat_of_zero_le hfirst
  refine ⟨y, by omega, hy, ?_, ?_⟩
  · by_contra hbefore
    cases y with
    | zero => exact hbefore h
    | succ x =>
      have hmono := yearOfCycle_mono (show d ≤ yearStart (x + 1 : Nat) - 1 by omega)
      rw [(yearOfCycle_ends x (by omega)).2] at hmono
      omega
  · by_contra hafter
    by_cases hcycle : y = 399
    · subst hcycle
      exact hafter h'
    · have hmono := yearOfCycle_mono (Int.not_lt.mp hafter)
      rw [(yearOfCycle_ends (y + 1) (by omega)).1] at hmono
      omega

/-- The days of a year before a month. Both are counted from March on. -/
def monthStart (m : Int) : Int := (153 * m + 2) / 5

def ofMarch (y m k : Int) : Date :=
  if m < 10 then ⟨y, (m + 3).toNat, k.toNat⟩ else ⟨y + 1, (m - 9).toNat, k.toNat⟩

theorem monthStart_succ : ∀ m < 11, monthStart (m + 1 : Nat) =
    monthStart (m : Nat) + daysInMonth 0 (ofMarch 0 m 0).month := by
  decide +kernel

/-- The month is one of the year, and the day is one of the month. The last month ends with the
year. -/
structure InMarchYear (y m : Nat) (k : Int) : Prop where
  year : y < 400
  month : m < 12
  first : 1 ≤ k
  last : m < 11 → monthStart m + k ≤ monthStart (m + 1 : Nat)
  leap : yearStart y + monthStart m + k ≤ yearStart (y + 1 : Nat)

theorem ofDays_eq_ofMarch (days : Int) : ∃ (cycle : Int) (y m : Nat) (k : Int),
    InMarchYear y m k ∧ ofDays days = ofMarch (y + cycle * 400) m k ∧
    days + epochOffset = cycle * cycleDays + yearStart y + monthStart m + k - 1 := by
  obtain ⟨cycle, hcycle⟩ : ∃ c, c = (days + epochOffset).fdiv cycleDays := ⟨_, rfl⟩
  obtain ⟨d, hd⟩ : ∃ d, d = days + epochOffset - cycle * cycleDays := ⟨_, rfl⟩
  have hcycle' : cycle = (days + epochOffset) / 146097 := by
    rw [hcycle, Int.fdiv_eq_ediv_of_nonneg _ (by decide)]
    rfl
  have hday : 0 ≤ d ∧ d < cycleDays := by
    simp only [cycleDays] at hd ⊢
    omega
  obtain ⟨y, hy, hyear, hstart, hend⟩ := yearOfCycle_bounds hday.1 hday.2
  obtain ⟨k, hk⟩ : ∃ k, k = d - yearStart y := ⟨_, rfl⟩
  have hdayOfYear : d - (365 * (y : Int) + y / 4 - y / 100) = k := by
    rw [hk, yearStart]
    omega
  have hlength := yearStart_succ y hy
  have hk' : 0 ≤ k ∧ k < 366 := by
    split at hlength <;> omega
  obtain ⟨m, hm⟩ := Int.eq_ofNat_of_zero_le (show 0 ≤ (5 * k + 2) / 153 by omega)
  refine ⟨cycle, y, m, k - monthStart m + 1, ⟨hy, by omega, ?_, ?_, by omega⟩, ?_, by omega⟩
  · rw [monthStart]
    omega
  · intro _
    simp only [monthStart]
    omega
  · simp only [ofDays, ← hcycle, ← hd]
    rw [show (d - d / 1460 + d / 36524 - d / 146096) / 365 = y from hyear, hdayOfYear, hm]
    rfl

theorem toDays_ofMarch {y m : Nat} {k : Int} (h : InMarchYear y m k) (cycle : Int) :
    (ofMarch (y + cycle * 400) m k).toDays =
      cycle * cycleDays + yearStart y + monthStart m + k - 1 - epochOffset := by
  obtain ⟨hy, hm, hk, _, _⟩ := h
  have hcycle : (y + cycle * 400 : Int).fdiv 400 = cycle := by
    rw [Int.fdiv_eq_ediv_of_nonneg _ (by decide)]
    omega
  rw [ofMarch]
  split
  · have hlate : ¬(m + 3 : Int).toNat ≤ 2 := by omega
    have hmonth : ((m + 3 : Int).toNat : Int) - 3 = m := by omega
    simp only [toDays, if_neg hlate, hcycle, hmonth, yearStart, monthStart]
    omega
  · have hearly : (m - 9 : Int).toNat ≤ 2 := by omega
    have hmonth : ((m - 9 : Int).toNat : Int) + 9 = m := by omega
    simp only [toDays, if_pos hearly, Int.add_sub_cancel, hcycle, hmonth, yearStart, monthStart]
    omega

theorem valid_ofMarch {y m : Nat} {k : Int} (h : InMarchYear y m k) (cycle : Int) :
    (ofMarch (y + cycle * 400) m k).Valid := by
  obtain ⟨hy, hm, hk, hmonth, hyear⟩ := h
  by_cases hlast : m = 11
  · -- February takes what the year has left.
    subst hlast
    have hlength := yearStart_succ y hy
    have hstart : monthStart (11 : Nat) = 337 := by decide
    have hleap : isLeapYear (y + cycle * 400 + 1) = isLeapYear (y + 1 : Nat) := by
      rw [Int.add_right_comm]
      exact isLeapYear_add_cycles (y + 1) cycle
    refine ⟨(by decide : 1 ≤ 2), (by decide : 2 ≤ 12), (by omega : 1 ≤ k.toNat), ?_⟩
    change k.toNat ≤ if isLeapYear (y + cycle * 400 + 1) then 29 else 28
    rw [hleap]
    split at hlength <;> split <;> first | contradiction | omega
  · have hlength := monthStart_succ m (by omega)
    have hin := hmonth (by omega)
    have hday (year : Int) : k.toNat ≤ daysInMonth year (ofMarch 0 m 0).month := by
      have hne : (ofMarch 0 m 0).month ≠ 2 := by
        rw [ofMarch]
        split <;> simp only <;> omega
      rw [daysInMonth_of_ne hne year 0]
      omega
    rw [ofMarch] at hday ⊢
    by_cases hlate : (m : Int) < 10
    · rw [if_pos hlate] at hday ⊢
      refine ⟨?_, ?_, ?_, hday _⟩ <;> simp only <;> omega
    · rw [if_neg hlate] at hday ⊢
      refine ⟨?_, ?_, ?_, hday _⟩ <;> simp only <;> omega

theorem toDays_ofDays (days : Int) : (ofDays days).toDays = days := by
  obtain ⟨cycle, y, m, k, h, hof, hdays⟩ := ofDays_eq_ofMarch days
  rw [hof, toDays_ofMarch h, ← hdays, Int.add_sub_cancel]

theorem valid_ofDays (days : Int) : (ofDays days).Valid := by
  obtain ⟨cycle, y, m, k, h, hof, _⟩ := ofDays_eq_ofMarch days
  rw [hof]
  exact valid_ofMarch h cycle

end Date

end PlatformCatalog.Time
