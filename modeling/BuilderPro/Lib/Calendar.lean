import Mathlib.Algebra.Group.End
import Mathlib.Algebra.Group.Int.Defs
import Mathlib.Algebra.Order.Group.Basic
import Mathlib.Data.Int.ConditionallyCompleteOrder
import Mathlib.Data.Int.SuccPred
import Mathlib.Data.Prod.Lex
import Mathlib.Order.SuccPred.Basic
import Mathlib.Tactic.Common
import Mathlib.Tactic.NormNum
import BuilderPro.Lib.Digits

/-!
# The Gregorian calendar

Dates by the lengths of the months and the leap rule, each followed by the next day, and the date so
many days from the epoch.  Days are counted from the first of March of the year 0
(`dayNumber_date`), where the number of a date is a closed formula, and the formula the other way,
`fromDays`, finds the date (`fromDays_dayNumber`).
-/

namespace Calendar

/-- A year with a 29th of February. -/
def IsLeap (year : ℤ) : Prop := year % 4 = 0 ∧ (year % 100 ≠ 0 ∨ year % 400 = 0)

instance (year : ℤ) : Decidable (IsLeap year) := inferInstanceAs (Decidable (_ ∧ _))

def daysIn (year month : ℤ) : ℤ :=
  if month = 2 then if IsLeap year then 29 else 28
  else if month = 4 ∨ month = 6 ∨ month = 9 ∨ month = 11 then 30
  else 31

/-- A date of the proleptic Gregorian calendar. -/
@[ext] structure Date where
  year : ℤ
  month : ℤ
  day : ℤ
  month_mem : 1 ≤ month ∧ month ≤ 12
  day_mem : 1 ≤ day ∧ day ≤ daysIn year month
  deriving DecidableEq

theorem daysIn_mem (year month : ℤ) : 28 ≤ daysIn year month ∧ daysIn year month ≤ 31 := by
  unfold daysIn
  split_ifs <;> omega

namespace Date

def tomorrow (d : Date) : Date :=
  if h : d.day < daysIn d.year d.month then
    ⟨d.year, d.month, d.day + 1, d.month_mem, by have := d.day_mem; omega⟩
  else if hmonth : d.month < 12 then
    ⟨d.year, d.month + 1, 1, by have := d.month_mem; omega,
      by have := daysIn_mem d.year (d.month + 1); omega⟩
  else ⟨d.year + 1, 1, 1, by omega, by have := daysIn_mem (d.year + 1) 1; omega⟩

def yesterday (d : Date) : Date :=
  if h : 1 < d.day then
    ⟨d.year, d.month, d.day - 1, d.month_mem, by have := d.day_mem; omega⟩
  else if hmonth : 1 < d.month then
    ⟨d.year, d.month - 1, daysIn d.year (d.month - 1), by have := d.month_mem; omega,
      by have := daysIn_mem d.year (d.month - 1); omega⟩
  else ⟨d.year - 1, 12, 31, by omega, by simp [daysIn]⟩

theorem yesterday_tomorrow (d : Date) : d.tomorrow.yesterday = d := by
  have hday := d.day_mem
  have hmonth := d.month_mem
  unfold tomorrow
  split_ifs with h hmon
  · rw [yesterday, dif_pos (by simp only; omega)]
    ext <;> simp
  · rw [yesterday, dif_neg (by simp), dif_pos (by simp only; omega)]
    ext <;> simp only [add_sub_cancel_right]
    omega
  · rw [yesterday, dif_neg (by simp), dif_neg (by simp)]
    have hdec : d.month = 12 := by omega
    have h31 : daysIn d.year d.month = 31 := by simp [daysIn, hdec]
    ext <;> simp only [add_sub_cancel_right] <;> omega

theorem tomorrow_yesterday (d : Date) : d.yesterday.tomorrow = d := by
  have hday := d.day_mem
  have hmonth := d.month_mem
  unfold yesterday
  split_ifs with h hmon
  · rw [tomorrow, dif_pos (by simp only; omega)]
    ext <;> simp
  · rw [tomorrow, dif_neg (by simp), dif_pos (by simp only; omega)]
    ext <;> simp only [sub_add_cancel]
    omega
  · rw [tomorrow, dif_neg (by simp [daysIn]), dif_neg (by simp)]
    ext <;> simp only [sub_add_cancel] <;> omega

def nextDay : Equiv.Perm Date := ⟨tomorrow, yesterday, yesterday_tomorrow, tomorrow_yesterday⟩

def epoch : Date := ⟨1970, 1, 1, by omega, by simp [daysIn]⟩

/-- The date so many days after the epoch. -/
def after (n : ℤ) : Date := (nextDay ^ n) epoch

theorem after_zero : after 0 = epoch := by
  rw [after, zpow_zero, Equiv.Perm.one_apply]

theorem after_succ (n : ℤ) : after (n + 1) = (after n).tomorrow := by
  rw [after, add_comm, zpow_one_add, Equiv.Perm.mul_apply]
  rfl

/-- What holds of the epoch, and of a date exactly if of its next day, holds of every date. -/
theorem after_induction {P : ℤ → Date → Prop} (hzero : P 0 epoch)
    (hnext : ∀ n d, P n d ↔ P (n + 1) d.tomorrow) (n : ℤ) : P n (after n) := by
  induction n with
  | zero => rwa [after_zero]
  | succ n ih =>
    rw [after_succ]
    exact (hnext _ _).1 ih
  | pred n ih =>
    rw [hnext, ← after_succ, sub_add_cancel]
    exact ih

/-! ### The order of dates -/

def key (d : Date) : ℤ ×ₗ ℤ ×ₗ ℤ := toLex (d.year, toLex (d.month, d.day))

theorem key_tomorrow (d : Date) : d.key < d.tomorrow.key := by
  unfold tomorrow key
  split_ifs <;> simp [Prod.Lex.toLex_lt_toLex]

theorem strictMono_key_after : StrictMono fun n => (after n).key := by
  refine strictMono_int_of_lt_succ fun n => ?_
  rw [after_succ]
  exact key_tomorrow _

theorem year_after_le {m n : ℤ} (h : m ≤ n) : (after m).year ≤ (after n).year := by
  have hkey := strictMono_key_after.monotone h
  simp only [key, Prod.Lex.toLex_le_toLex] at hkey
  rcases hkey with hlt | ⟨heq, -⟩
  · exact hlt.le
  · exact heq.le

/-! ### Days by number -/

/-- A month by its place in the year that begins in March. -/
def marchMonth (d : Date) : ℤ := if d.month ≤ 2 then d.month + 9 else d.month - 3

def marchYear (d : Date) : ℤ := if d.month ≤ 2 then d.year - 1 else d.year

/-- The days of the year that began in March before a date. -/
def marchDay (d : Date) : ℤ := (153 * d.marchMonth + 2) / 5 + d.day - 1

/-- The days before a date since the first of March of the year 0, by the years of 400. -/
def dayNumber (d : Date) : ℤ :=
  146097 * (d.marchYear / 400)
    + (365 * (d.marchYear % 400) + d.marchYear % 400 / 4 - d.marchYear % 400 / 100) + d.marchDay

/-- A day later in the month. -/
theorem dayNumber_of_lt {d : Date} (h : d.day < daysIn d.year d.month) :
    d.tomorrow.dayNumber = d.dayNumber + 1 := by
  rw [tomorrow, dif_pos h]
  simp only [dayNumber, marchDay, marchMonth, marchYear]
  omega

/-- The last of February, of a year of 365 days that began in March or of one of 366. -/
theorem dayNumber_february {d : Date} (h : ¬d.day < daysIn d.year d.month) (hfeb : d.month = 2) :
    d.tomorrow.dayNumber = d.dayNumber + 1 := by
  have hday := d.day_mem
  rw [tomorrow, dif_neg h, dif_pos (by omega)]
  simp only [daysIn, if_pos hfeb] at hday h
  have hleap : d.day = 29 ∧ IsLeap d.year ∨ d.day = 28 ∧ ¬IsLeap d.year := by
    split_ifs at hday h with hl
    · exact .inl ⟨by omega, hl⟩
    · exact .inr ⟨by omega, hl⟩
  unfold IsLeap at hleap
  simp only [dayNumber, marchDay, marchMonth, marchYear, hfeb, Int.reduceAdd,
    Int.reduceLE, if_true, if_false]
  rcases hleap with ⟨hk, hl⟩ | ⟨hk, hl⟩
  · omega
  · omega

/-- The last of another month. -/
theorem dayNumber_of_last {d : Date} (h : ¬d.day < daysIn d.year d.month) (hfeb : d.month ≠ 2) :
    d.tomorrow.dayNumber = d.dayNumber + 1 := by
  have hday := d.day_mem
  have hmonth := d.month_mem
  have hlast : d.day = daysIn d.year d.month := by omega
  rw [daysIn, if_neg hfeb] at hlast
  have hmonths : d.month = 1 ∨ d.month = 3 ∨ d.month = 4 ∨ d.month = 5 ∨ d.month = 6 ∨ d.month = 7 ∨
      d.month = 8 ∨ d.month = 9 ∨ d.month = 10 ∨ d.month = 11 ∨ d.month = 12 := by
    omega
  rw [tomorrow, dif_neg h]
  rcases hmonths with hm | hm | hm | hm | hm | hm | hm | hm | hm | hm | hm
  all_goals
    simp only [hm, Int.reduceEq, or_self, or_true, true_or, if_true, if_false] at hlast
    simp only [dayNumber, marchDay, marchMonth, marchYear, hm, hlast, Int.reduceAdd, Int.reduceLE,
      Int.reduceLT, if_true, if_false, dite_true, dite_false]
    omega

theorem dayNumber_tomorrow (d : Date) : d.tomorrow.dayNumber = d.dayNumber + 1 := by
  by_cases h : d.day < daysIn d.year d.month
  · exact dayNumber_of_lt h
  · by_cases hfeb : d.month = 2
    · exact dayNumber_february h hfeb
    · exact dayNumber_of_last h hfeb

/-- What day `n` of the epoch is numbered. -/
theorem dayNumber_after (n : ℤ) : (after n).dayNumber = n + 719468 := by
  refine after_induction (P := fun n d => d.dayNumber = n + 719468) (by decide) (fun n d => ?_) n
  rw [dayNumber_tomorrow]
  omega

end Date

/-! ### Dates by number -/

/-- The year, the month and the day of a number. -/
def fromDays (z : ℤ) : ℤ × ℤ × ℤ :=
  let era := z / 146097
  let doe := z % 146097
  let yoe := (doe - doe / 1460 + doe / 36524 - doe / 146096) / 365
  let y := yoe + era * 400
  let doy := doe - (365 * yoe + yoe / 4 - yoe / 100)
  let mp := (5 * doy + 2) / 153
  let d := doy - (153 * mp + 2) / 5 + 1
  let m := if mp < 10 then mp + 3 else mp - 9
  (if m ≤ 2 then y + 1 else y, m, d)

/-- The year of a day in 400 years, by its century, its four years and its year in them. -/
theorem yearOfEra {c p r k doe : ℤ} (hc : 0 ≤ c ∧ c ≤ 3) (hp : 0 ≤ p ∧ p ≤ 24)
    (hr : 0 ≤ r ∧ r ≤ 3) (hk : 0 ≤ k ∧ k ≤ 365) (hleap : k = 365 → r = 3 ∧ (p ≠ 24 ∨ c = 3))
    (hdoe : doe = 36524 * c + 1461 * p + 365 * r + k) :
    (doe - doe / 1460 + doe / 36524 - doe / 146096) / 365 = 100 * c + 4 * p + r := by
  by_cases hlast : doe = 146096
  · have hend : c = 3 ∧ p = 24 ∧ r = 3 := by omega
    omega
  · have h1 : doe / 36524 = c := by omega
    have h2 : doe / 146096 = 0 := by omega
    have h3 : doe / 1460 = 25 * c + p + (24 * c + p + 365 * r + k) / 1460 := by omega
    omega

theorem yearOfEra_eq {Y k : ℤ} (hY : 0 ≤ Y ∧ Y < 400) (hk : 0 ≤ k ∧ k ≤ 365)
    (hleap : k = 365 → (Y + 1) % 4 = 0 ∧ ((Y + 1) % 100 ≠ 0 ∨ Y = 399)) {doe : ℤ}
    (hdoe : doe = 365 * Y + Y / 4 - Y / 100 + k) :
    (doe - doe / 1460 + doe / 36524 - doe / 146096) / 365 = Y := by
  have hsplit : Y = 100 * (Y / 100) + 4 * (Y % 100 / 4) + Y % 4 := by omega
  have hquarters : Y / 4 = 25 * (Y / 100) + Y % 100 / 4 := by omega
  have hlast : k = 365 → Y % 4 = 3 ∧ (Y % 100 / 4 ≠ 24 ∨ Y / 100 = 3) := by
    intro h
    obtain ⟨h4, h100⟩ := hleap h
    omega
  obtain ⟨c, hc⟩ : ∃ c, c = Y / 100 := ⟨_, rfl⟩
  obtain ⟨p, hp⟩ : ∃ p, p = Y % 100 / 4 := ⟨_, rfl⟩
  obtain ⟨r, hr⟩ : ∃ r, r = Y % 4 := ⟨_, rfl⟩
  have hc' : 0 ≤ c ∧ c ≤ 3 := by omega
  have hp' : 0 ≤ p ∧ p ≤ 24 := by omega
  have hr' : 0 ≤ r ∧ r ≤ 3 := by omega
  rw [← hc, ← hp, ← hr] at hsplit
  rw [← hc, ← hp] at hquarters
  rw [← hc, ← hp, ← hr] at hlast
  rw [hquarters, ← hc] at hdoe
  clear hleap hc hp hr hquarters
  rw [yearOfEra hc' hp' hr' hk hlast (by omega)]
  exact hsplit.symm

theorem dayOfEra_mem {Y k : ℤ} (hY : 0 ≤ Y ∧ Y < 400) (hk : 0 ≤ k ∧ k ≤ 365) :
    0 ≤ 365 * Y + Y / 4 - Y / 100 + k ∧ 365 * Y + Y / 4 - Y / 100 + k < 146097 := by
  by_cases hlast : Y = 399
  · omega
  · omega

theorem monthOfDay {mp k : ℤ} (hlow : (153 * mp + 2) / 5 ≤ k)
    (hhigh : k < (153 * (mp + 1) + 2) / 5) : (5 * k + 2) / 153 = mp := by
  omega

/-- Five months take 153 days. -/
theorem Date.marchDay_mem (d : Date) :
    0 ≤ d.marchMonth ∧ d.marchMonth ≤ 11 ∧ (153 * d.marchMonth + 2) / 5 ≤ d.marchDay ∧
      (d.marchMonth < 11 → d.marchDay < (153 * (d.marchMonth + 1) + 2) / 5) ∧
      (d.marchMonth = 11 → d.marchDay ≤ 365 ∧ (d.marchDay = 365 → IsLeap (d.marchYear + 1))) := by
  have hday := d.day_mem
  have hmonth := d.month_mem
  unfold marchDay marchMonth marchYear
  have hmonths : d.month = 1 ∨ d.month = 2 ∨ d.month = 3 ∨ d.month = 4 ∨ d.month = 5 ∨ d.month = 6 ∨
      d.month = 7 ∨ d.month = 8 ∨ d.month = 9 ∨ d.month = 10 ∨ d.month = 11 ∨ d.month = 12 := by
    omega
  rcases hmonths with hm | hm | hm | hm | hm | hm | hm | hm | hm | hm | hm | hm
  case inr.inl =>
    simp only [daysIn, hm, if_true] at hday
    simp only [hm, Int.reduceAdd, Int.reduceLE, if_true]
    split_ifs at hday with hleap
    · refine ⟨by norm_num, by norm_num, by omega, by omega, fun _ => ⟨by omega, fun _ => ?_⟩⟩
      rwa [sub_add_cancel]
    · exact ⟨by norm_num, by norm_num, by omega, by omega, fun _ => ⟨by omega, fun _ => by omega⟩⟩
  all_goals
    simp only [daysIn, hm, Int.reduceEq, or_self, or_true, true_or, if_true, if_false] at hday
    simp only [hm, Int.reduceAdd, Int.reduceSub, Int.reduceLE, if_true, if_false]
    exact ⟨by norm_num, by norm_num, by omega, by omega, fun _ => by omega⟩

theorem fromDays_dayNumber (d : Date) : fromDays d.dayNumber = (d.year, d.month, d.day) := by
  obtain ⟨hmp, hmp', hlow, hhigh, hfeb⟩ := d.marchDay_mem
  have hmonth := d.month_mem
  have hbound : d.marchDay ≤ 365 := by omega
  have hmonthOf : (5 * d.marchDay + 2) / 153 = d.marchMonth :=
    monthOfDay hlow (by omega)
  have hmonthBack : (if d.marchMonth < 10 then d.marchMonth + 3 else d.marchMonth - 9) =
      d.month := by
    unfold Date.marchMonth
    split_ifs <;> omega
  have hnumber : d.dayNumber = 146097 * (d.marchYear / 400) +
      (365 * (d.marchYear % 400) + d.marchYear % 400 / 4 - d.marchYear % 400 / 100) + d.marchDay :=
    rfl
  obtain ⟨Y, hY⟩ : ∃ Y, Y = d.marchYear % 400 := ⟨_, rfl⟩
  have hY' : 0 ≤ Y ∧ Y < 400 := by omega
  have hleap : d.marchDay = 365 → (Y + 1) % 4 = 0 ∧ ((Y + 1) % 100 ≠ 0 ∨ Y = 399) := by
    intro h
    have hlast := (hfeb (by omega)).2 h
    unfold IsLeap at hlast
    omega
  rw [← hY] at hnumber
  obtain ⟨doe, hdoe⟩ : ∃ doe, doe = 365 * Y + Y / 4 - Y / 100 + d.marchDay := ⟨_, rfl⟩
  have hday : 0 ≤ d.marchDay ∧ d.marchDay ≤ 365 := ⟨by omega, hbound⟩
  have hmem := dayOfEra_mem hY' hday
  rw [← hdoe] at hmem
  have hyoe := yearOfEra_eq hY' hday hleap hdoe
  have hsum : d.dayNumber = 146097 * (d.marchYear / 400) + doe := by
    rw [hnumber, hdoe]
    omega
  have hera : d.dayNumber / 146097 = d.marchYear / 400 := by omega
  have hrem : d.dayNumber % 146097 = doe := by omega
  have hdoy : doe - (365 * Y + Y / 4 - Y / 100) = d.marchDay := by omega
  have hyearBack : (if d.month ≤ 2 then Y + d.marchYear / 400 * 400 + 1
      else Y + d.marchYear / 400 * 400) = d.year := by
    rw [hY]
    unfold Date.marchYear
    split_ifs <;> omega
  have hdayBack : d.marchDay - (153 * d.marchMonth + 2) / 5 + 1 = d.day := by
    unfold Date.marchDay
    omega
  simp only [fromDays, hrem, hera, hyoe, hdoy, hmonthOf, hmonthBack, hyearBack, hdayBack]

/-- The formula finds the date so many days from the epoch. -/
theorem fromDays_after (n : ℤ) :
    fromDays (n + 719468) = ((Date.after n).year, (Date.after n).month, (Date.after n).day) := by
  rw [← Date.dayNumber_after, fromDays_dayNumber]

/-! ### Dates as text -/

/-- `YYYY-MM-DD`. -/
def Date.iso (d : Date) : String :=
  String.ofList (Digits.fixed 4 d.year.toNat ++ '-' :: Digits.fixed 2 d.month.toNat
    ++ '-' :: Digits.fixed 2 d.day.toNat)

/-- Of the years with four digits, later dates come later as texts. -/
theorem Date.iso_lt {d e : Date} (hd : 0 ≤ d.year) (he : e.year ≤ 9999) (h : d.key < e.key) :
    d.iso.toList < e.iso.toList := by
  have hmonth := e.month_mem
  have hday := e.day_mem
  have hdays := daysIn_mem e.year e.month
  have hdash : ∀ {x y : List Char}, x < y → '-' :: x < '-' :: y := fun h => List.Lex.cons h
  simp only [key, Prod.Lex.toLex_lt_toLex] at h
  simp only [iso, String.toList_ofList, List.append_assoc, List.cons_append]
  rcases h with hyear | ⟨hyear, hmon | ⟨hmon, hday⟩⟩
  · exact Digits.append_lt_append (by simp) (Digits.fixed_lt (by omega) (by omega))
  · rw [hyear]
    refine List.append_left_lt (hdash ?_)
    exact Digits.append_lt_append (by simp) (Digits.fixed_lt (by omega) (by omega))
  · rw [hyear, hmon]
    refine List.append_left_lt (hdash (List.append_left_lt (hdash ?_)))
    exact Digits.fixed_lt (by omega) (by omega)

end Calendar
