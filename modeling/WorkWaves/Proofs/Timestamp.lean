import Mathlib.Algebra.GroupWithZero.Nat
import WorkWaves.Proofs.Calendar

/-!
# Points in time are read back

Every number in the text of a point in time has a fixed width, so it is found again by its width
(`number?_padded`), and a fraction is filled up with the zeros that were left out (`fraction?_fractionText`). A year
of more digits has a sign, and ends where its digits do. So a point in time that exists is what its text is read as
(`ofText?_text`).
-/

namespace WorkWaves.Timestamp

/-- A point in time that exists. -/
structure Valid (t : Timestamp) : Prop where
  year : yearInRange t.year = true
  month_pos : 1 ≤ t.month
  month_le : t.month ≤ 12
  day_pos : 1 ≤ t.day
  day_le : t.day ≤ daysInMonth t.year t.month
  hour_le : t.hour ≤ 23
  minute_le : t.minute ≤ 59
  second_le : t.second ≤ 60
  nanos_lt : t.nanos < 1000000000

variable {width n : Nat} {rest : List Char}

theorem daysInMonth_le (y : Int) (m : Nat) : daysInMonth y m ≤ 31 := by
  unfold daysInMonth
  split
  · split <;> omega
  · split <;> omega

/-! ### Digits -/

theorem length_padded (hwidth : 0 < width) (h : n < 10 ^ width) : (padded width n).length = width := by
  have hle : (Nat.toDigits 10 n).length ≤ width := (Nat.length_toDigits_le_iff (by decide) hwidth).mpr h
  simp only [padded, List.length_append, List.length_replicate]
  omega

theorem isDigit_of_mem_padded {c : Char} (h : c ∈ padded width n) : c.isDigit = true := by
  rcases List.mem_append.mp h with h | h
  · rw [(List.mem_replicate.mp h).2]
    rfl
  · exact Nat.isDigit_of_mem_toDigits (by decide) (by decide) h

theorem foldl_eq_ofDigitChars (cs : List Char) (k : Nat) :
    cs.foldl (fun n c => 10 * n + (c.toNat - 48)) k = Nat.ofDigitChars 10 cs k := by
  rw [Nat.ofDigitChars_eq_foldl]
  rfl

theorem ofDigitChars_padded (width n : Nat) : Nat.ofDigitChars 10 (padded width n) 0 = n := by
  rw [padded, Nat.ofDigitChars_append, Nat.ofDigitChars_replicate_zero]
  exact Nat.ofDigitChars_toDigits (by decide) (by decide)

theorem exists_padded_eq_cons (width n : Nat) : ∃ c r, padded width n = c :: r ∧ c.isDigit = true := by
  obtain ⟨c, r, h⟩ := List.exists_cons_of_ne_nil (l := padded width n) (by simp [padded, Nat.toDigits_ne_nil])
  exact ⟨c, r, h, @isDigit_of_mem_padded width n c (by simp [h])⟩

theorem skipBlanks_padded : skipBlanks (padded width n ++ rest) = padded width n ++ rest := by
  obtain ⟨c, r, h, hc⟩ := exists_padded_eq_cons width n
  rw [h, List.cons_append, skipBlanks, List.dropWhile_cons_of_neg (by simp [Text.isBlank_of_isDigit hc])]

theorem number?_padded (hwidth : 0 < width) (h : n < 10 ^ width) :
    number? width (padded width n ++ rest) = some (n, rest) := by
  have hlen := length_padded hwidth h
  have htake : (padded width n ++ rest).take width = padded width n := List.take_left' hlen
  have hdigits : (padded width n).takeWhile Char.isDigit = padded width n := by
    simpa using @List.takeWhile_append_of_pos _ Char.isDigit (padded width n) [] fun c hc => isDigit_of_mem_padded hc
  have hne : (padded width n).isEmpty = false := by
    obtain ⟨c, r, he, -⟩ := exists_padded_eq_cons width n
    rw [he]
    rfl
  simp only [number?, skipBlanks_padded, htake, hdigits, hne, Bool.false_eq_true, if_false, foldl_eq_ofDigitChars,
    ofDigitChars_padded, List.drop_left]

theorem bounded?_padded {low high : Nat} (hlow : low ≤ n) (hhigh : n ≤ high) (hwidth : 0 < width)
    (h : n < 10 ^ width) : bounded? low high width (padded width n ++ rest) = some (n, rest) := by
  rw [bounded?, number?_padded hwidth h, Option.bind_some, if_pos ⟨hlow, hhigh⟩]

/-- Without a bound for its digits, a number ends where they end. -/
theorem number?_padded_dash : number? (padded width n ++ '-' :: rest).length (padded width n ++ '-' :: rest) =
    some (n, '-' :: rest) := by
  have hdigits : (padded width n ++ '-' :: rest).takeWhile Char.isDigit = padded width n := by
    rw [List.takeWhile_append_of_pos fun c hc => isDigit_of_mem_padded hc, List.takeWhile_cons_of_neg (by decide),
      List.append_nil]
  have hne : (padded width n).isEmpty = false := by
    obtain ⟨c, r, he, -⟩ := exists_padded_eq_cons width n
    rw [he]
    rfl
  simp only [number?, skipBlanks_padded, List.take_length, hdigits, hne, Bool.false_eq_true, if_false,
    foldl_eq_ofDigitChars, ofDigitChars_padded, List.drop_left]

theorem year?_yearText (y : Int) : year? (yearText y ++ '-' :: rest) = some (y, '-' :: rest) := by
  by_cases h : 0 ≤ y ∧ y ≤ 9999
  · have hread := @number?_padded 4 _ ('-' :: rest) (by decide) (show y.toNat < 10 ^ 4 by omega)
    obtain ⟨c, r, hcons, hc⟩ := exists_padded_eq_cons 4 y.toNat
    rw [yearText, if_pos h, year?]
    simp only [skipBlanks_padded]
    rw [hcons, List.cons_append] at hread ⊢
    split
    · next he => rw [(List.cons.inj he).1] at hc; exact absurd hc (by decide)
    · next he => rw [(List.cons.inj he).1] at hc; exact absurd hc (by decide)
    · rw [hread, Option.map_some, Int.toNat_of_nonneg h.1]
  · have hread := @number?_padded_dash 4 y.natAbs rest
    have hhead : ((padded 4 y.natAbs ++ '-' :: rest).head?.map Char.isDigit).getD false = true := by
      obtain ⟨c, r, hcons, hc⟩ := exists_padded_eq_cons 4 y.natAbs
      rw [hcons]
      exact hc
    rw [yearText, if_neg h]
    split
    · next hneg =>
      simp only [List.cons_append, year?, skipBlanks, List.dropWhile_cons_of_neg (show ¬Text.isBlank '-' = true by decide),
        hhead, if_true, hread, Option.map_some]
      rw [show -(y.natAbs : Int) = y by omega]
    · next hneg =>
      simp only [List.cons_append, year?, skipBlanks, List.dropWhile_cons_of_neg (show ¬Text.isBlank '+' = true by decide),
        hhead, if_true, hread, Option.map_some]
      simp only [Bool.false_eq_true, if_false]
      rw [show (y.natAbs : Int) = y by omega]

/-! ### Fractions -/

/-- A fraction of a few digits, with the zeros that are left out behind it. -/
theorem fraction?_padded {width k : Nat} (hwidth : 0 < width) (hle : width ≤ 9) (hk : k < 10 ^ width) :
    fraction? ('.' :: (padded width k ++ 'Z' :: rest)) = some (10 ^ (9 - width) * k, 'Z' :: rest) := by
  have hlen := length_padded hwidth hk
  have hdigits : (padded width k ++ 'Z' :: rest).takeWhile Char.isDigit = padded width k := by
    rw [List.takeWhile_append_of_pos fun c hc => isDigit_of_mem_padded hc,
      List.takeWhile_cons_of_neg (by decide), List.append_nil]
  have hne : (padded width k).isEmpty = false := by
    obtain ⟨c, r, he, -⟩ := exists_padded_eq_cons width k
    rw [he]
    rfl
  have hfill : (padded width k ++ List.replicate 9 '0').take 9 = padded width k ++ List.replicate (9 - width) '0' := by
    rw [List.take_append, List.take_of_length_le (by omega), hlen, List.take_replicate, Nat.min_eq_left (by omega)]
  simp only [fraction?, hdigits, hne, Bool.false_eq_true, if_false, hfill, foldl_eq_ofDigitChars,
    Nat.ofDigitChars_append, ofDigitChars_padded, Nat.ofDigitChars_replicate_zero, List.drop_left]

theorem fraction?_fractionText {nanos : Nat} (h : nanos < 1000000000) :
    fraction? (fractionText nanos ++ 'Z' :: rest) = some (nanos, 'Z' :: rest) := by
  unfold fractionText
  split
  · next h0 => rw [h0]; rfl
  split
  · rw [List.cons_append, fraction?_padded (by decide) (by decide) (by omega)]
    simp only [Option.some.injEq, Prod.mk.injEq, and_true]
    omega
  split
  · rw [List.cons_append, fraction?_padded (by decide) (by decide) (by omega)]
    simp only [Option.some.injEq, Prod.mk.injEq, and_true]
    omega
  · rw [List.cons_append, fraction?_padded (by decide) (by decide) (by omega)]
    simp

theorem mark?_cons {c : Char} (hc : Text.isBlank c = false) : mark? c (c :: rest) = some rest := by
  rw [mark?, skipBlanks, List.dropWhile_cons_of_neg (by simp [hc])]
  simp

/-- A point in time is read back from its text. -/
theorem ofText?_text {t : Timestamp} (h : t.Valid) : ofText? t.text = some t := by
  have hday := Nat.le_trans h.day_le (daysInMonth_le t.year t.month)
  have hchars : t.text.toList = yearText t.year ++ '-' :: (padded 2 t.month ++ '-' :: (padded 2 t.day ++ 'T' ::
      (padded 2 t.hour ++ ':' :: (padded 2 t.minute ++ ':' :: (padded 2 t.second ++
        (fractionText t.nanos ++ 'Z' :: [])))))) := by
    simp [text, chars]
  have hmonth := h.month_le
  have hhour := h.hour_le
  have hminute := h.minute_le
  have hsecond := h.second_le
  simp only [ofText?, hchars, year?_yearText, mark?_cons (show Text.isBlank '-' = false by decide),
    mark?_cons (show Text.isBlank ':' = false by decide), bind, Option.bind_some,
    bounded?_padded h.month_pos h.month_le (by decide) (show t.month < 10 ^ 2 by omega),
    bounded?_padded h.day_pos hday (by decide) (show t.day < 10 ^ 2 by omega),
    bounded?_padded (Nat.zero_le _) h.hour_le (by decide) (show t.hour < 10 ^ 2 by omega),
    bounded?_padded (Nat.zero_le _) h.minute_le (by decide) (show t.minute < 10 ^ 2 by omega),
    bounded?_padded (Nat.zero_le _) h.second_le (by decide) (show t.second < 10 ^ 2 by omega),
    fraction?_fractionText h.nanos_lt, show offset? (skipBlanks ['Z']) = some (0, []) from rfl]
  simp [h.year, h.day_le, ofLocal?, skipBlanks]

/-! ### What is read exists -/

theorem bounded?_eq_some {low high : Nat} {cs : List Char} (h : bounded? low high width cs = some (n, rest)) :
    low ≤ n ∧ n ≤ high := by
  obtain ⟨⟨m, r⟩, -, hm⟩ := Option.bind_eq_some_iff.mp h
  split at hm
  · next hle => cases hm; exact hle
  · cases hm

theorem foldl_digits_lt {cs : List Char} (h : ∀ c ∈ cs, c.isDigit = true) (k : Nat) :
    cs.foldl (fun n c => 10 * n + (c.toNat - 48)) k < (k + 1) * 10 ^ cs.length := by
  induction cs generalizing k with
  | nil => simp
  | cons c cs ih =>
    obtain ⟨hc, hcs⟩ := List.forall_mem_cons.mp h
    have hbounds := Char.isDigit_iff_toNat.mp hc
    simp only [show '0'.toNat = 48 from rfl, show '9'.toNat = 57 from rfl] at hbounds
    rw [List.foldl_cons, List.length_cons, Nat.pow_succ', ← Nat.mul_assoc]
    refine Nat.lt_of_lt_of_le (ih hcs _) (Nat.mul_le_mul_right _ ?_)
    omega

theorem fraction?_lt {cs : List Char} (h : fraction? cs = some (n, rest)) : n < 1000000000 := by
  unfold fraction? at h
  split at h
  · next r =>
    dsimp only at h
    split at h
    · cases h
    · cases h
      have hdigits : ∀ c ∈ (r.takeWhile Char.isDigit ++ List.replicate 9 '0').take 9, c.isDigit = true := by
        intro c hc
        rcases List.mem_append.mp (List.mem_of_mem_take hc) with hc | hc
        · exact List.all_eq_true.mp List.all_takeWhile c hc
        · rw [(List.mem_replicate.mp hc).2]
          rfl
      have hlt := foldl_digits_lt hdigits 0
      have hlen := List.length_take_le 9 (r.takeWhile Char.isDigit ++ List.replicate 9 '0')
      rw [Nat.zero_add, Nat.one_mul] at hlt
      exact Nat.lt_of_lt_of_le hlt (Nat.pow_le_pow_right (show 0 < 10 by decide) hlen)
  · cases h
    decide

theorem ofLocal?_valid {t t' : Timestamp} {ahead : Int} (h : t.Valid) (ho : ofLocal? t ahead = some t') : t'.Valid := by
  unfold ofLocal? at ho
  split at ho
  · cases ho
    exact h
  · dsimp only at ho
    split at ho
    · next hyear =>
      cases ho
      obtain ⟨h₁, h₂, h₃, h₄⟩ := ofDayNumber_exists
        ((dayNumber t.year t.month t.day * 1440 + t.hour * 60 + t.minute - ahead) / 1440)
      exact ⟨hyear, h₁, h₂, h₃, h₄, by dsimp only; omega, by dsimp only; omega, h.second_le, h.nanos_lt⟩
    · cases ho

/-- A point in time that was read exists. -/
theorem ofText?_valid {text : String} {t : Timestamp} (h : ofText? text = some t) : t.Valid := by
  unfold ofText? at h
  obtain ⟨⟨year, _⟩, -, h⟩ := Option.bind_eq_some_iff.mp h
  obtain ⟨_, -, h⟩ := Option.bind_eq_some_iff.mp h
  obtain ⟨⟨month, _⟩, hmonth, h⟩ := Option.bind_eq_some_iff.mp h
  obtain ⟨_, -, h⟩ := Option.bind_eq_some_iff.mp h
  obtain ⟨⟨day, _⟩, hday, h⟩ := Option.bind_eq_some_iff.mp h
  have hmonth := bounded?_eq_some hmonth
  -- The same is read behind each of the three marks of a time.
  dsimp only at h
  split at h
  case h_4 => cases h
  all_goals
    obtain ⟨_, -, h⟩ := Option.bind_eq_some_iff.mp h
    obtain ⟨⟨hour, _⟩, hhour, h⟩ := Option.bind_eq_some_iff.mp h
    obtain ⟨_, -, h⟩ := Option.bind_eq_some_iff.mp h
    obtain ⟨⟨minute, _⟩, hminute, h⟩ := Option.bind_eq_some_iff.mp h
    obtain ⟨_, -, h⟩ := Option.bind_eq_some_iff.mp h
    obtain ⟨⟨second, _⟩, hsecond, h⟩ := Option.bind_eq_some_iff.mp h
    obtain ⟨⟨nanos, _⟩, hnanos, h⟩ := Option.bind_eq_some_iff.mp h
    obtain ⟨⟨ahead, _⟩, -, h⟩ := Option.bind_eq_some_iff.mp h
    dsimp only at h
    split at h
    · next hok =>
      simp only [Bool.and_eq_true, decide_eq_true_eq] at hok
      obtain ⟨⟨hyear, hdays⟩, -⟩ := hok
      exact ofLocal?_valid ⟨hyear, hmonth.1, hmonth.2, (bounded?_eq_some hday).1, hdays, (bounded?_eq_some hhour).2,
        (bounded?_eq_some hminute).2, (bounded?_eq_some hsecond).2, fraction?_lt hnanos⟩ h
    · cases h

end WorkWaves.Timestamp
