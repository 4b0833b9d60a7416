import WorkWaves.Json.Numeral
import WorkWaves.Json.Value

/-!
# Integers are read back

An integer is written as its decimal digits, of which the first is no zero unless it is the only one, with a sign in
front if it is negative. What follows a number in a text never goes on with it (`EndsNumber`), so the digits are read
as the numeral of just that integer (`readNumeral_digits`), and its amount is the integer (`amount?_numeralOf`).
-/

namespace WorkWaves.Json

/-- The value of a decimal digit. -/
def digitValue (c : Char) : Nat := c.toNat - 48

/-- The numeral as which an integer is read. -/
def numeralOf (n : Int) : Numeral := ⟨decide (n < 0), (Nat.toDigits 10 n.natAbs).map digitValue, none⟩

/-- A text that does not go on with a number that stands before it. -/
def EndsNumber (rest : List Char) : Prop :=
  ∀ c ∈ rest.head?, c.isDigit = false ∧ c ≠ '.' ∧ c ≠ 'e' ∧ c ≠ 'E'

theorem EndsNumber.cons {c : Char} {rest : List Char} (h : c.isDigit = false ∧ c ≠ '.' ∧ c ≠ 'e' ∧ c ≠ 'E') :
    EndsNumber (c :: rest) := by
  simpa [EndsNumber] using h

variable {ds rest : List Char}

theorem isDigit_of_mem_toDigits {n : Nat} {c : Char} (h : c ∈ Nat.toDigits 10 n) : c.isDigit = true :=
  Nat.isDigit_of_mem_toDigits (by decide) (by decide) h

theorem ofDigits_toDigits (n : Nat) : ofDigits ((Nat.toDigits 10 n).map digitValue) = n := by
  have h := Nat.ofDigitChars_toDigits (b := 10) (n := n) (by decide) (by decide)
  rw [Nat.ofDigitChars_eq_foldl] at h
  rw [ofDigits, List.foldl_map]
  exact h

theorem digitsOf_append (hds : ∀ c ∈ ds, c.isDigit = true) (hrest : ∀ c ∈ rest.head?, c.isDigit = false) :
    digitsOf (ds ++ rest) = (ds.map digitValue, rest) := by
  rw [digitsOf, List.takeWhile_append_of_pos hds, List.dropWhile_append_of_pos hds]
  cases rest with
  | nil => simp [digitValue]
  | cons c rest =>
    have hc : c.isDigit = false := hrest c rfl
    rw [List.takeWhile_cons_of_neg (by simp [hc]), List.dropWhile_cons_of_neg (by simp [hc]), List.append_nil]
    rfl

/-- The first digit of a number is no zero unless the number is. -/
theorem exists_toDigits_eq_cons {n : Nat} (hn : n ≠ 0) :
    ∃ c r, Nat.toDigits 10 n = c :: r ∧ digitValue c ≠ 0 := by
  induction n using Nat.strongRecOn with
  | ind n ih =>
    by_cases hlt : n < 10
    · have hdigit : ∀ n < 10, n ≠ 0 → digitValue n.digitChar ≠ 0 := by decide
      exact ⟨_, [], Nat.toDigits_of_lt_base hlt, hdigit n hlt hn⟩
    · obtain ⟨c, r, he, hc⟩ := ih (n / 10) (by omega) (by omega)
      exact ⟨c, r ++ [(n % 10).digitChar], by rw [Nat.toDigits_of_base_le (by decide) (by omega), he]; rfl, hc⟩

theorem readExponent_of_endsNumber (h : EndsNumber rest) : readExponent rest = some (none, rest) := by
  cases rest with
  | nil => rfl
  | cons c rest =>
    obtain ⟨-, -, he, hE⟩ := h c rfl
    unfold readExponent
    exact if_neg (by simp [he, hE])

theorem readUnsigned_toDigits (negative : Bool) (n : Nat) (h : EndsNumber rest) :
    readUnsigned negative (Nat.toDigits 10 n ++ rest) =
      some (⟨negative, (Nat.toDigits 10 n).map digitValue, none⟩, rest) := by
  have hread := readExponent_of_endsNumber h
  unfold readUnsigned
  rw [digitsOf_append (fun c => isDigit_of_mem_toDigits) fun c hc => (h c hc).1]
  split
  · next hnil => simp [Nat.toDigits_ne_nil] at hnil
  · next d e r _ hzero =>
    simp only [Prod.mk.injEq] at hzero
    by_cases hn : n = 0
    · simp [hn, Nat.toDigits_zero] at hzero
    · obtain ⟨c, r, he, hc⟩ := exists_toDigits_eq_cons hn
      rw [he, List.map_cons, List.cons.injEq] at hzero
      exact absurd hzero.1.1 hc
  · next hpoint =>
    simp only [Prod.mk.injEq] at hpoint
    exact absurd rfl (h '.' (by simp [hpoint.2])).2.1
  · next hwhole =>
    cases hwhole
    rw [hread]
    rfl

theorem digits_natCast (n : Nat) : digits n = Nat.toDigits 10 n := by
  show (toString n).toList = _
  rw [Nat.toString_eq_ofList_toDigits, String.toList_ofList]

theorem digits_negSucc (n : Nat) : digits (Int.negSucc n) = '-' :: Nat.toDigits 10 (n + 1) := by
  show ("-" ++ toString (n + 1)).toList = _
  rw [Nat.toString_eq_ofList_toDigits, String.toList_append, String.toList_ofList, String.toList_ofList]
  rfl

theorem readNumeral_digits (n : Int) (h : EndsNumber rest) :
    readNumeral (digits n ++ rest) = some (numeralOf n, rest) := by
  cases n with
  | ofNat n =>
    rw [show digits (Int.ofNat n) = _ from digits_natCast n]
    unfold readNumeral
    split
    · next r he =>
      obtain ⟨c, l, hcl⟩ := List.exists_cons_of_ne_nil (Nat.toDigits_ne_nil (n := n) (b := 10))
      have hc : c.isDigit = true := isDigit_of_mem_toDigits (n := n) (by simp [hcl])
      rw [hcl, List.cons_append, List.cons.injEq] at he
      rw [he.1] at hc
      exact absurd hc (by decide)
    · exact readUnsigned_toDigits false n h
  | negSucc n =>
    have hn : numeralOf (Int.negSucc n) = ⟨true, (Nat.toDigits 10 (n + 1)).map digitValue, none⟩ := by
      simp [numeralOf, Int.negSucc_lt_zero]
    rw [digits_negSucc, List.cons_append, readNumeral, hn]
    exact readUnsigned_toDigits true (n + 1) h

theorem amount?_numeralOf {n : Nat} (h : n < Nat.pow 2 64) : (numeralOf n).amount? = some (.integer n) := by
  have hwhole : ofDigits (numeralOf n).whole = n := ofDigits_toDigits n
  have hsign : (numeralOf n).negative = false := by simp [numeralOf]
  simp only [Numeral.amount?, show (numeralOf n).rest = none from rfl, hwhole, hsign, Bool.not_false, Bool.true_and,
    decide_eq_true h, if_true]

/-- The first character of a written integer. -/
theorem digits_head (n : Int) : ∃ c r, digits n = c :: r ∧ (c = '-' ∨ c.isDigit = true) := by
  cases n with
  | ofNat n =>
    obtain ⟨c, l, hcl⟩ := List.exists_cons_of_ne_nil (Nat.toDigits_ne_nil (n := n) (b := 10))
    exact ⟨c, l, (digits_natCast n).trans hcl, .inr (isDigit_of_mem_toDigits (n := n) (by simp [hcl]))⟩
  | negSucc n => exact ⟨'-', _, digits_negSucc n, .inl rfl⟩

end WorkWaves.Json
