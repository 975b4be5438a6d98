import Mathlib.Logic.Function.Iterate
import Mathlib.Data.Nat.Init

/-! The Gregorian calendar as the days that follow 1970-01-01.
A date is what so many days lead to, one after the other. Every date of a year is found at its
place in the year, and every date that some year has falls on every weekday. -/
namespace Calendar

structure Date where
  year : Nat
  month : Nat
  day : Nat
deriving DecidableEq

def leap (year : Nat) : Bool := year % 4 = 0 && (year % 100 ≠ 0 || year % 400 = 0)

/-- The days of a month, in a leap year or another. -/
def monthLength (leap : Bool) (month : Nat) : Nat :=
  if month = 2 then if leap then 29 else 28
  else if month = 4 ∨ month = 6 ∨ month = 9 ∨ month = 11 then 30
  else 31

/-- The day after a date. -/
def next (date : Date) : Date :=
  if date.day < monthLength (leap date.year) date.month then {date with day := date.day + 1}
  else if date.month < 12 then ⟨date.year,date.month + 1,1⟩
  else ⟨date.year + 1,1,1⟩

/-- The date that is so many days after 1970-01-01. -/
def dateOf (n : Nat) : Date := next^[n] ⟨1970,1,1⟩

/-- The weekday of a date by the same count, from Sunday on; 1970-01-01 was a Thursday. -/
def weekday (n : Nat) : Nat := (n + 4) % 7

/-- A month and a day of it that a year has. -/
structure Valid (date : Date) : Prop where
  month : 1 ≤ date.month ∧ date.month ≤ 12
  day : 1 ≤ date.day ∧ date.day ≤ monthLength (leap date.year) date.month

section length
variable {isLeap : Bool} {month : Nat}

theorem monthLength_pos : 1 ≤ monthLength isLeap month := by
  unfold monthLength
  split
  · split <;> omega
  · split <;> omega

/-- No month is longer than in a leap year. -/
theorem monthLength_le : monthLength isLeap month ≤ monthLength true month := by
  unfold monthLength
  split
  · cases isLeap <;> simp
  · exact Nat.le_refl _

end length

theorem valid_next {date : Date} (valid : Valid date) : Valid (next date) := by
  unfold next
  split
  · rename_i inside
    exact ⟨valid.month,Nat.le_add_left 1 _,inside⟩
  · split
    · rename_i before
      exact ⟨⟨Nat.le_add_left 1 _,before⟩,Nat.le_refl 1,monthLength_pos⟩
    · exact ⟨⟨Nat.le_refl 1,Nat.le_of_ble_eq_true rfl⟩,Nat.le_refl 1,monthLength_pos⟩

theorem valid_dateOf (n : Nat) : Valid (dateOf n) := by
  induction n with
  | zero => exact ⟨⟨by decide,by decide⟩,⟨by decide,by decide⟩⟩
  | succ n ih =>
    unfold dateOf
    rw [Function.iterate_succ_apply']
    exact valid_next ih

section place
variable {year month day k : Nat}

/-- Days later in the month. -/
theorem later_day (inside : day + k ≤ monthLength (leap year) month) : next^[k] ⟨year,month,day⟩ = ⟨year,month,day + k⟩ := by
  induction k with
  | zero => rfl
  | succ k ih =>
    rw [Function.iterate_succ_apply',ih (by omega)]
    unfold next
    rw [if_pos (by simp only; omega)]
    rfl

theorem next_month (before : month < 12) : next^[monthLength (leap year) month] ⟨year,month,1⟩ = ⟨year,month + 1,1⟩ := by
  have long : 1 ≤ monthLength (leap year) month := monthLength_pos
  obtain ⟨rest,same⟩ := Nat.exists_eq_add_of_le' long
  rw [same,Function.iterate_succ_apply',later_day (by omega)]
  unfold next
  rw [if_neg (by simp only; omega),if_pos before]

/-- The days of a year before a month. -/
def monthStart (isLeap : Bool) : Nat → Nat
  | 0 => 0
  | 1 => 0
  | month+2 => monthStart isLeap (month+1) + monthLength isLeap (month+1)

theorem first_of_month (bound : month < 12) : next^[monthStart (leap year) (month+1)] ⟨year,1,1⟩ = ⟨year,month+1,1⟩ := by
  induction month with
  | zero => rfl
  | succ month ih =>
    change next^[monthStart (leap year) (month+1) + monthLength (leap year) (month+1)] _ = _
    rw [Nat.add_comm,Function.iterate_add_apply,ih (by omega),next_month bound]

def yearLength (isLeap : Bool) : Nat := if isLeap then 366 else 365

theorem next_year : next^[yearLength (leap year)] ⟨year,1,1⟩ = ⟨year + 1,1,1⟩ := by
  have whole : yearLength (leap year) = 30 + monthStart (leap year) 12 + 1 := by
    cases leap year <;> decide
  rw [whole,Function.iterate_succ_apply',Function.iterate_add_apply,first_of_month (by decide)]
  have december : monthLength (leap year) 12 = 31 := by
    cases leap year <;> decide
  rw [later_day (by change 1 + 30 ≤ monthLength (leap year) 12; omega)]
  unfold next
  rw [if_neg (by change ¬1 + 30 < monthLength (leap year) 12; omega),if_neg (by change ¬12 < 12; omega)]

/-- The days from 1970-01-01 to the first day of the year after so many years. -/
def yearStart : Nat → Nat
  | 0 => 0
  | k+1 => yearStart k + yearLength (leap (1970 + k))

theorem first_of_year (k : Nat) : dateOf (yearStart k) = ⟨1970 + k,1,1⟩ := by
  induction k with
  | zero => rfl
  | succ k ih =>
    unfold dateOf at ih ⊢
    unfold yearStart
    rw [Nat.add_comm,Function.iterate_add_apply,ih,next_year]
    rfl

/-- Every date is at its place in its year. -/
theorem dateOf_place {k : Nat} (months : month < 12) (days : day < monthLength (leap (1970 + k)) (month+1)) :
    dateOf (day + monthStart (leap (1970 + k)) (month+1) + yearStart k) = ⟨1970 + k,month+1,day+1⟩ := by
  have start := first_of_year k
  unfold dateOf at start ⊢
  rw [Function.iterate_add_apply,start,Function.iterate_add_apply,first_of_month months,later_day (by omega),Nat.add_comm 1]

end place

/-- The leap years from 1972 to 1996 begin on seven different weekdays. -/
theorem yearStart_leap : ∀ k < 7, yearStart (2 + 4*k) = 730 + 1461*k ∧ leap (1970 + (2 + 4*k)) = true := by
  decide

theorem weekday_shift : ∀ start < 7, ∀ day < 7, ∃ k < 7, (start + 1461*k) % 7 = day := by
  decide

/-- Every month and day that a leap year has falls on every weekday. -/
theorem every_weekday {month day weekdays : Nat} (months : month < 12) (days : day < monthLength true (month+1))
    (week : weekdays < 7) : ∃ n, 0 < n ∧ (dateOf n).month = month+1 ∧ (dateOf n).day = day+1 ∧ weekday n = weekdays := by
  obtain ⟨k,bound,falls⟩ := weekday_shift ((day + monthStart true (month+1) + 734) % 7) (Nat.mod_lt _ (by decide)) weekdays week
  obtain ⟨start,isLeap⟩ := yearStart_leap k bound
  have place := dateOf_place (k := 2 + 4*k) months (by rw [isLeap]; exact days)
  rw [isLeap,start] at place
  refine ⟨day + monthStart true (month+1) + (730 + 1461*k),by omega,?_,?_,?_⟩
  · rw [place]
  · rw [place]
  · unfold weekday
    omega

end Calendar
