import Mathlib.Data.Nat.Find
import FinmarsWorkflow.Calendar

/-! The next run of a schedule, as it is shown and as it happens.
The API asks croniter for the next time of the crontab line, and beat asks the crontab of
Celery. Where both day fields are restricted, croniter takes the days of either and Celery
those of both. -/
namespace FinmarsWorkflow.Scheduling
open Calendar

/-- A field of a crontab: a star, or a list of numbers. -/
inductive Field where
  | star
  | values (numbers : List Nat)
deriving DecidableEq

namespace Field

def accepts : Field → Nat → Bool
  | .star,_ => true
  | .values numbers,number => numbers.contains number

def restricted : Field → Bool
  | .star => false
  | .values _ => true

/-- The numbers of a list, of which there are some, lie between two bounds. -/
def Within (low high : Nat) : Field → Prop
  | .star => True
  | .values numbers => numbers ≠ [] ∧ ∀ number ∈ numbers, low ≤ number ∧ number ≤ high

theorem within_accepts {field : Field} {low high : Nat} (within : field.Within low high) (ordered : low ≤ high) :
    ∃ number, low ≤ number ∧ number ≤ high ∧ field.accepts number = true := by
  cases field with
  | star => exact ⟨low,Nat.le_refl low,ordered,rfl⟩
  | values numbers =>
    obtain ⟨number,among⟩ := List.exists_mem_of_ne_nil numbers within.1
    exact ⟨number,(within.2 number among).1,(within.2 number among).2,by simpa [accepts] using among⟩

end Field

/-- A crontab row whose fields both libraries read. -/
structure Crontab where
  minute : Field
  hour : Field
  dayOfMonth : Field
  monthOfYear : Field
  dayOfWeek : Field
  minutes : minute.Within 0 59
  hours : hour.Within 0 23
  days : dayOfMonth.Within 1 31
  months : monthOfYear.Within 1 12
  weekdays : dayOfWeek.Within 0 6

/-- `Schedule.crontab_line`, by its words. -/
def Crontab.crontabLine (crontab : Crontab) : List Field :=
  [crontab.minute,crontab.hour,crontab.dayOfMonth,crontab.monthOfYear,crontab.dayOfWeek]

/-- The minutes since 1970-01-01 that a crontab of Celery takes. -/
def celeryAccepts (crontab : Crontab) (m : Nat) : Bool :=
  crontab.minute.accepts (m % 60) && crontab.hour.accepts (m / 60 % 24) &&
    crontab.monthOfYear.accepts (dateOf (m / 1440)).month &&
    (crontab.dayOfMonth.accepts (dateOf (m / 1440)).day && crontab.dayOfWeek.accepts (weekday (m / 1440)))

/-- The minutes that croniter takes for a line of five words. -/
def croniterAccepts : List Field → Nat → Bool
  | [minute,hour,day,month,dayOfWeek],m =>
    minute.accepts (m % 60) && hour.accepts (m / 60 % 24) && month.accepts (dateOf (m / 1440)).month &&
      if day.restricted && dayOfWeek.restricted then
        day.accepts (dateOf (m / 1440)).day || dayOfWeek.accepts (weekday (m / 1440))
      else day.accepts (dateOf (m / 1440)).day && dayOfWeek.accepts (weekday (m / 1440))
  | _,_ => false

/-- An instant, in microseconds, is before the beginning of a minute. -/
def Before (now m : Nat) : Prop := now < m * 60000000

instance (now m : Nat) : Decidable (Before now m) := inferInstanceAs (Decidable (_ < _))

/-- The earliest later minute that is taken, if there is one. -/
def IsNext (accepts : Nat → Bool) (now : Nat) : Option Nat → Prop
  | some m => Before now m ∧ accepts m = true ∧ ∀ other, Before now other → accepts other = true → m ≤ other
  | none => ∀ m, Before now m → accepts m = false

/-- `Schedule.get_next_run_at`, with croniter as a parameter: none where it raises. -/
def Crontab.getNextRunAt (croniter : List Field → Nat → Option Nat) (crontab : Crontab) (now : Nat) : Option Nat :=
  croniter crontab.crontabLine now

/-- The days on which the two libraries agree: one of the day fields is a star, or they take every weekday and every
day that the months of the crontab have. -/
def Crontab.Agrees (crontab : Crontab) : Prop :=
  crontab.dayOfMonth = .star ∨ crontab.dayOfWeek = .star ∨
    (∀ day < 7, crontab.dayOfWeek.accepts day = true) ∧
    ∀ month day, 1 ≤ month → month ≤ 12 → crontab.monthOfYear.accepts month = true → 1 ≤ day →
      day ≤ monthLength true month → crontab.dayOfMonth.accepts day = true

section agreement
variable {crontab : Crontab}

theorem agrees_same (agrees : crontab.Agrees) (m : Nat) : croniterAccepts crontab.crontabLine m = celeryAccepts crontab m := by
  unfold croniterAccepts celeryAccepts Crontab.crontabLine
  simp only
  rcases agrees with star | star | ⟨week,days⟩
  · rw [star]
    rfl
  · rw [star]
    simp [Field.restricted]
  · cases listed : crontab.monthOfYear.accepts (dateOf (m / 1440)).month with
    | false => simp
    | true =>
      have valid := valid_dateOf (m / 1440)
      have day := days _ _ valid.month.1 valid.month.2 listed valid.day.1 (Nat.le_trans valid.day.2 monthLength_le)
      have weekday' := week (weekday (m / 1440)) (Nat.mod_lt _ (by decide))
      rw [day,weekday']
      simp

/-- The minute of a day, at an hour and a minute. -/
theorem minute_parts {n hour minute : Nat} (hours : hour ≤ 23) (minutes : minute ≤ 59) :
    (n*1440 + hour*60 + minute) % 60 = minute ∧ (n*1440 + hour*60 + minute) / 60 % 24 = hour ∧
      (n*1440 + hour*60 + minute) / 1440 = n := by
  omega

/-- A day of a listed month that is taken by exactly one of two restricted day fields. -/
theorem apart_minute (both : crontab.dayOfMonth.restricted = true ∧ crontab.dayOfWeek.restricted = true) {n : Nat} (later : 0 < n)
    (listed : crontab.monthOfYear.accepts (dateOf n).month = true)
    (apart : crontab.dayOfMonth.accepts (dateOf n).day ≠ crontab.dayOfWeek.accepts (weekday n)) :
    ∃ m, 0 < m ∧ croniterAccepts crontab.crontabLine m = true ∧ celeryAccepts crontab m = false := by
  obtain ⟨hour,_,hours,hourTaken⟩ := Field.within_accepts crontab.hours (by decide)
  obtain ⟨minute,_,minutes,minuteTaken⟩ := Field.within_accepts crontab.minutes (by decide)
  obtain ⟨minuteOf,hourOf,dayOf⟩ := minute_parts (n := n) hours minutes
  refine ⟨n*1440 + hour*60 + minute,by omega,?_,?_⟩
  · unfold croniterAccepts Crontab.crontabLine
    simp only [minuteOf,hourOf,dayOf,minuteTaken,hourTaken,listed,both.1,both.2,Bool.and_self,Bool.true_and,if_true]
    cases day : crontab.dayOfMonth.accepts (dateOf n).day <;> cases week : crontab.dayOfWeek.accepts (weekday n)
    · exact absurd (day.trans week.symm) apart
    · rfl
    · rfl
    · rfl
  · unfold celeryAccepts
    simp only [minuteOf,hourOf,dayOf,minuteTaken,hourTaken,listed,Bool.and_self,Bool.true_and]
    cases day : crontab.dayOfMonth.accepts (dateOf n).day <;> cases week : crontab.dayOfWeek.accepts (weekday n)
    · rfl
    · rfl
    · rfl
    · exact absurd (day.trans week.symm) apart

/-- Where the two libraries disagree about days, some minute is taken by croniter alone. -/
theorem disagrees_minute (disagrees : ¬crontab.Agrees) :
    ∃ m, 0 < m ∧ croniterAccepts crontab.crontabLine m = true ∧ celeryAccepts crontab m = false := by
  unfold Crontab.Agrees at disagrees
  simp only [not_or] at disagrees
  obtain ⟨days,weeks,some⟩ := disagrees
  have restricted : ∀ field : Field, field ≠ .star → field.restricted = true := by
    intro field set
    cases field with
    | star => exact absurd rfl set
    | values numbers => rfl
  have both := And.intro (restricted _ days) (restricted _ weeks)
  obtain ⟨day',_,opens,openTaken⟩ := Field.within_accepts crontab.weekdays (by decide)
  -- a day of a listed month that the days of the month leave out, on a weekday that is taken
  have leftOut : ∀ month day, 1 ≤ month → month ≤ 12 → crontab.monthOfYear.accepts month = true → 1 ≤ day →
      day ≤ monthLength true month → crontab.dayOfMonth.accepts day = false →
      ∃ m, 0 < m ∧ croniterAccepts crontab.crontabLine m = true ∧ celeryAccepts crontab m = false := by
    intro month day first last listed start inside out
    obtain ⟨month,rfl⟩ := Nat.exists_eq_add_of_le' first
    obtain ⟨day,rfl⟩ := Nat.exists_eq_add_of_le' start
    obtain ⟨n,later,monthOf,dayOf,weekdayOf⟩ := @every_weekday month day _ (by omega) inside
      (Nat.lt_succ_of_le opens)
    apply apart_minute both later
    · rw [monthOf]
      exact listed
    · rw [dayOf,weekdayOf,out,openTaken]
      exact Bool.false_ne_true
  by_cases week : ∀ day < 7, crontab.dayOfWeek.accepts day = true
  · by_contra none
    refine some ⟨week,fun month day first last listed start inside => ?_⟩
    by_contra out
    exact none (leftOut month day first last listed start inside (Bool.eq_false_iff.mpr out))
  · simp only [not_forall] at week
    obtain ⟨closed,bound,closedOut⟩ := week
    obtain ⟨month,first,last,listed⟩ := Field.within_accepts crontab.months (by decide)
    -- a day that the days of the month take, on a weekday that is left out, unless the month has no such day
    by_cases taken : ∃ day, 1 ≤ day ∧ day ≤ monthLength true month ∧ crontab.dayOfMonth.accepts day = true
    · obtain ⟨day,start,inside,dayTaken⟩ := taken
      obtain ⟨month,rfl⟩ := Nat.exists_eq_add_of_le' first
      obtain ⟨day,rfl⟩ := Nat.exists_eq_add_of_le' start
      obtain ⟨n,later,monthOf,dayOf,weekdayOf⟩ := @every_weekday month day _ (by omega) inside bound
      apply apart_minute both later
      · rw [monthOf]
        exact listed
      · rw [dayOf,weekdayOf,dayTaken]
        exact fun same => closedOut same.symm
    · refine leftOut month 1 first last listed (Nat.le_refl 1) monthLength_pos (Bool.eq_false_iff.mpr fun dayTaken => ?_)
      exact taken ⟨1,Nat.le_refl 1,monthLength_pos,dayTaken⟩

end agreement

/-- A minute that croniter takes is shown if it is the first minute at all. -/
theorem shown_first {croniter : List Field → Nat → Option Nat} {line : List Field} {now m : Nat}
    (documented : IsNext (croniterAccepts line) now (croniter line now)) (before : Before now m)
    (first : ∀ other, Before now other → m ≤ other) (taken : croniterAccepts line m = true) : croniter line now = some m := by
  cases found : croniter line now with
  | none =>
    rw [found] at documented
    rw [documented m before] at taken
    cases taken
  | some shown =>
    rw [found] at documented
    exact congrArg some (Nat.le_antisymm (documented.2.2 m before taken) (first shown documented.1))

/-- The shown next run is the real one at every instant exactly when the two libraries agree about the days. -/
theorem next_run_shown_iff (croniter : List Field → Nat → Option Nat)
    (documented : ∀ line now, IsNext (croniterAccepts line) now (croniter line now)) (crontab : Crontab) :
    (∀ now, IsNext (celeryAccepts crontab) now (crontab.getNextRunAt croniter now)) ↔ crontab.Agrees := by
  constructor
  · intro shown
    by_contra disagrees
    obtain ⟨m,later,taken,refused⟩ := disagrees_minute disagrees
    have real := shown (m * 60000000 - 1)
    unfold Crontab.getNextRunAt at real
    rw [shown_first (documented _ _) (by unfold Before; omega) (fun other past => by unfold Before at past; omega) taken] at real
    have accepted := real.2.1
    rw [refused] at accepted
    cases accepted
  · intro agrees now
    have accepts : croniterAccepts crontab.crontabLine = celeryAccepts crontab := funext (agrees_same agrees)
    rw [← accepts]
    exact documented crontab.crontabLine now

section instances

/-- The first taken minute after an instant, found by search. -/
noncomputable def firstTaken (line : List Field) (now : Nat) : Option Nat :=
  open Classical in
  if taken : ∃ m, Before now m ∧ croniterAccepts line m = true then some (Nat.find taken) else none

theorem firstTaken_next (line : List Field) (now : Nat) : IsNext (croniterAccepts line) now (firstTaken line now) := by
  unfold firstTaken
  split
  · rename_i taken
    exact ⟨(Nat.find_spec taken).1,(Nat.find_spec taken).2,fun other later accepted => Nat.find_min' taken ⟨later,accepted⟩⟩
  · rename_i none
    intro m later
    exact Bool.eq_false_iff.mpr fun accepted => none ⟨m,later,accepted⟩

/-- Every Thursday at midnight. -/
def thursdays : Crontab where
  minute := .values [0]
  hour := .values [0]
  dayOfMonth := .star
  monthOfYear := .star
  dayOfWeek := .values [4]
  minutes := ⟨by decide,by decide⟩
  hours := ⟨by decide,by decide⟩
  days := trivial
  months := trivial
  weekdays := ⟨by decide,by decide⟩

theorem thursdays_shown : IsNext (celeryAccepts thursdays) 0 (thursdays.getNextRunAt firstTaken 0) :=
  (next_run_shown_iff firstTaken firstTaken_next thursdays).mpr (.inl rfl) 0

/-- Midnight of the third of the month, if it is a Thursday. -/
def thirdThursdays : Crontab := {thursdays with dayOfMonth := .values [3],days := ⟨by decide,by decide⟩}

/-- The second of January 2025, which is a Thursday. -/
theorem second_of_january : dateOf 20090 = ⟨2025,1,2⟩ := by
  have start : yearStart 55 = 20089 := by decide
  have place := @dateOf_place 0 1 55 (by decide) (by decide)
  rw [start] at place
  exact place

/-- Half a minute before that day, the API shows its midnight, and nothing runs then. -/
theorem thursday_shown : ¬IsNext (celeryAccepts thirdThursdays) (20090*1440*60000000 - 30000000)
    (thirdThursdays.getNextRunAt firstTaken (20090*1440*60000000 - 30000000)) := by
  intro real
  have taken : croniterAccepts thirdThursdays.crontabLine (20090*1440) = true := by
    unfold croniterAccepts Crontab.crontabLine
    simp only [Nat.mul_div_cancel 20090 (show 0 < 1440 by decide),second_of_january]
    decide
  have refused : celeryAccepts thirdThursdays (20090*1440) = false := by
    unfold celeryAccepts
    simp only [Nat.mul_div_cancel 20090 (show 0 < 1440 by decide),second_of_january]
    decide
  unfold Crontab.getNextRunAt at real
  rw [shown_first (firstTaken_next _ _) (by unfold Before; omega) (fun other past => by unfold Before at past; omega) taken] at real
  have accepted := real.2.1
  rw [refused] at accepted
  cases accepted

end instances

end FinmarsWorkflow.Scheduling
