import BuilderPro.App.UsageStats
import BuilderPro.Lib.Calendar

/-!
# The days of the usage

`day_from_unix` of `stats.rs`: the date of a time, in the years that have four digits, and so texts
that come in the order of the times.
-/

namespace BuilderPro

open Calendar

theorem toList_padZeros {width n : ℕ} (hwidth : 0 < width) (h : n < 10 ^ width) :
    (padZeros width n).toList = Digits.fixed width n := by
  rw [← Digits.replicate_append_toDigits hwidth h, padZeros, String.toList_append,
    String.toList_ofList, Nat.toString_eq_repr, Nat.toList_repr, String.length_toList.symm,
    Nat.toList_repr]

theorem toList_padInt {width : ℕ} {n : ℤ} (hwidth : 0 < width) (hn : 0 ≤ n)
    (h : n.toNat < 10 ^ width) : (padInt width n).toList = Digits.fixed width n.toNat := by
  have habs : n.natAbs = n.toNat := by omega
  rw [padInt, if_neg (by omega), habs, toList_padZeros hwidth h]

theorem dayFromUnix_eq (secs : ℤ) : dayFromUnix secs =
    padInt 4 (fromDays (secs / 86400 + 719468)).1 ++ "-"
      ++ padInt 2 (fromDays (secs / 86400 + 719468)).2.1 ++ "-"
      ++ padInt 2 (fromDays (secs / 86400 + 719468)).2.2 := rfl

theorem dayFromUnix_iso (secs : ℤ) (hlow : 0 ≤ (Date.after (secs / 86400)).year)
    (hhigh : (Date.after (secs / 86400)).year ≤ 9999) :
    dayFromUnix secs = (Date.after (secs / 86400)).iso := by
  have hmonth := (Date.after (secs / 86400)).month_mem
  have hday := (Date.after (secs / 86400)).day_mem
  have hdays := daysIn_mem (Date.after (secs / 86400)).year (Date.after (secs / 86400)).month
  rw [← String.toList_inj, dayFromUnix_eq, fromDays_after]
  simp only [String.toList_append]
  rw [toList_padInt (by omega) hlow (by omega), toList_padInt (by omega) (by omega) (by omega),
    toList_padInt (by omega) (by omega) (by omega), Date.iso, String.toList_ofList]
  simp

/-- The day of a time is the date so many days after the epoch, and a later time has no earlier
day. -/
theorem dayFromUnix_gregorian :
    (∀ n r : ℤ, 0 ≤ r → r < 86400 → 0 ≤ (Date.after n).year → (Date.after n).year ≤ 9999 →
      dayFromUnix (86400 * n + r) = (Date.after n).iso) ∧
    ∀ s t : ℤ, s ≤ t → 0 ≤ (Date.after (s / 86400)).year →
      (Date.after (t / 86400)).year ≤ 9999 → dayFromUnix s ≤ dayFromUnix t := by
  constructor
  · intro n r hr hr' hlow hhigh
    have hn : (86400 * n + r) / 86400 = n := by omega
    have hiso := dayFromUnix_iso (86400 * n + r)
    rw [hn] at hiso
    exact hiso hlow hhigh
  · intro s t hst hlow hhigh
    have hdays : s / 86400 ≤ t / 86400 := by omega
    have hyear := Date.year_after_le hdays
    rw [dayFromUnix_iso s hlow (hyear.trans hhigh), dayFromUnix_iso t (hlow.trans hyear) hhigh,
      String.le_iff_toList_le]
    rcases hdays.eq_or_lt with heq | hlt
    · rw [heq]
    · exact (Date.iso_lt hlow hhigh (Date.strictMono_key_after hlt)).le

/-- The day after a leap day, and the leap day before it. -/
theorem dayFromUnix_gregorian_march : dayFromUnix (86400 * 19783 + 86399) = "2024-03-01" ∧
    dayFromUnix (86400 * 19782 + 86399) ≤ dayFromUnix (86400 * 19783) := by
  have hmarch : ((Date.after 19783).year, (Date.after 19783).month, (Date.after 19783).day)
      = (2024, 3, 1) := (fromDays_after 19783).symm.trans (by decide)
  have hleap : ((Date.after 19782).year, (Date.after 19782).month, (Date.after 19782).day)
      = (2024, 2, 29) := (fromDays_after 19782).symm.trans (by decide)
  simp only [Prod.mk.injEq] at hmarch hleap
  obtain ⟨hyear, hmonth, hday⟩ := hmarch
  constructor
  · rw [dayFromUnix_gregorian.1 19783 86399 (by omega) (by omega) (by omega) (by omega), Date.iso,
      hyear, hmonth, hday]
    decide
  · refine dayFromUnix_gregorian.2 _ _ (by omega) ?_ ?_
    · rw [show (86400 * 19782 + 86399 : ℤ) / 86400 = 19782 by norm_num, hleap.1]
      norm_num
    · rw [show (86400 * 19783 : ℤ) / 86400 = 19783 by norm_num, hyear]
      norm_num

end BuilderPro
