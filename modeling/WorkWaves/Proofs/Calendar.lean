import WorkWaves.Timestamp

/-!
# Days by number are days of the calendar

The days of an era of 400 years are split into centuries, spans of four years and years (`exists_split`); only the
last year of a span has one day more, and not that at the end of a century but the last. With the year found
(`yearOfEra_eq`), every number of a day gives a day that its month has (`ofDayNumber_exists`).
-/

namespace WorkWaves.Timestamp

/-- A day of an era: its century, the span of four years in it, the year in that, and the day in the year, which
begins with March. -/
structure Split (e c q j r : Int) : Prop where
  century : 0 ≤ c ∧ c ≤ 3
  span : 0 ≤ q ∧ q ≤ 24
  year : 0 ≤ j ∧ j ≤ 3
  day : 0 ≤ r
  last : r ≤ 364 ∨ r = 365 ∧ j = 3 ∧ (q ≤ 23 ∨ c = 3)
  number : e = 36524 * c + 1461 * q + 365 * j + r

variable {e c q j r : Int}

theorem exists_split (h : 0 ≤ e) (h' : e ≤ 146096) : ∃ c q j r, Split e c q j r := by
  obtain ⟨c, k, hc, hk, hk', he⟩ : ∃ c k : Int, (0 ≤ c ∧ c ≤ 3) ∧ 0 ≤ k ∧ (k ≤ 36523 ∨ k = 36524 ∧ c = 3) ∧
      e = 36524 * c + k := by
    by_cases hlast : e = 146096
    · exact ⟨3, 36524, by omega, by omega, by omega, by omega⟩
    · exact ⟨e / 36524, e % 36524, by omega, by omega, by omega, by omega⟩
  obtain ⟨q, m, hq, hm, hk₁⟩ : ∃ q m : Int, (0 ≤ q ∧ q ≤ 24) ∧ (0 ≤ m ∧ m ≤ 1460) ∧ k = 1461 * q + m :=
    ⟨k / 1461, k % 1461, by omega, by omega, by omega⟩
  by_cases hlast : m = 1460
  · exact ⟨c, q, 3, 365, hc, hq, by omega, by omega, by omega, by omega⟩
  · exact ⟨c, q, m / 365, m % 365, hc, hq, by omega, by omega, by omega, by omega⟩

theorem yearOfEra_eq (h : Split e c q j r) :
    (e - e / 1460 + e / 36524 - e / 146096) / 365 = 100 * c + 4 * q + j := by
  obtain ⟨hc, hq, hj, hr, hlast, he⟩ := h
  have h₁ : e / 36524 = c ∨ e / 36524 = c + 1 ∧ e = 146096 := by omega
  have h₂ : e / 146096 = 0 ∨ e / 146096 = 1 ∧ e = 146096 := by omega
  have h₃ : e / 1460 = 25 * c + q ∨ e / 1460 = 25 * c + q + 1 ∧ 1460 ≤ 24 * c + q + 365 * j + r := by omega
  omega

theorem dayOfYear_eq (h : Split e c q j r) :
    e - (365 * (100 * c + 4 * q + j) + (100 * c + 4 * q + j) / 4 - (100 * c + 4 * q + j) / 100) = r := by
  obtain ⟨hc, hq, hj, -, -, he⟩ := h
  have h₁ : (100 * c + 4 * q + j) / 4 = 25 * c + q := by omega
  have h₂ : (100 * c + 4 * q + j) / 100 = c := by omega
  rw [h₁, h₂, he]
  omega

theorem isLeapYear_iff {y : Int} : isLeapYear y = true ↔ y % 4 = 0 ∧ y % 100 ≠ 0 ∨ y % 400 = 0 := by
  simp [isLeapYear]

/-- The year after which a long one ends is a leap year. -/
theorem isLeapYear_of_split (h : Split e c q j 365) (era : Int) :
    isLeapYear (100 * c + 4 * q + j + 400 * era + 1) = true := by
  obtain ⟨hc, hq, -, -, hlast, -⟩ := h
  obtain ⟨-, rfl, hlast⟩ := hlast.resolve_left (by decide)
  rw [isLeapYear_iff]
  omega

/-- The month of a day of a year that begins with March, and the day in the month. -/
theorem daysInMonth_of_dayOfYear {y k : Int} (hr : 0 ≤ r) (hr' : r ≤ 365)
    (hleap : r = 365 → isLeapYear (y + 1) = true) (hk : (5 * r + 2) / 153 = k) :
    1 ≤ (if k < 10 then k + 3 else k - 9).toNat ∧ (if k < 10 then k + 3 else k - 9).toNat ≤ 12 ∧
      1 ≤ (r - (153 * k + 2) / 5 + 1).toNat ∧ (r - (153 * k + 2) / 5 + 1).toNat ≤
        daysInMonth (y + if (if k < 10 then k + 3 else k - 9) ≤ 2 then 1 else 0) (if k < 10 then k + 3 else k - 9).toNat := by
  have hcases : k = 0 ∨ k = 1 ∨ k = 2 ∨ k = 3 ∨ k = 4 ∨ k = 5 ∨ k = 6 ∨ k = 7 ∨ k = 8 ∨ k = 9 ∨ k = 10 ∨ k = 11 := by
    omega
  rcases hcases with rfl | rfl | rfl | rfl | rfl | rfl | rfl | rfl | rfl | rfl | rfl | rfl
  case inr.inr.inr.inr.inr.inr.inr.inr.inr.inr.inr =>
    -- February is the last month of these years, and has its last day in the leap years only.
    simp [daysInMonth]
    split
    · omega
    · next hn => simp only [hn, Bool.false_eq_true, imp_false] at hleap; omega
  all_goals
    simp [daysInMonth]
    omega

/-- The day with a number is one that its month has. -/
theorem ofDayNumber_exists (n : Int) : 1 ≤ (ofDayNumber n).2.1 ∧ (ofDayNumber n).2.1 ≤ 12 ∧
    1 ≤ (ofDayNumber n).2.2 ∧ (ofDayNumber n).2.2 ≤ daysInMonth (ofDayNumber n).1 (ofDayNumber n).2.1 := by
  obtain ⟨c, q, j, r, h⟩ := @exists_split (n % 146097) (by omega) (by omega)
  simp only [ofDayNumber, yearOfEra_eq h, dayOfYear_eq h]
  refine daysInMonth_of_dayOfYear h.day ?_ (fun hr => ?_) rfl
  · have := h.last
    omega
  · exact isLeapYear_of_split (hr ▸ h) (n / 146097)

end WorkWaves.Timestamp
