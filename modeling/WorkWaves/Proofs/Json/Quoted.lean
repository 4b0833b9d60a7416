import WorkWaves.Json.Document
import WorkWaves.Json.Value

/-!
# Quoted strings are read back

Each character of a string is written as one unit, escaped or not (`stringUnits_escapeChar`), and the units stand for
the characters again (`charsOfUnits_map_unitOf`), so a quoted string is read as the string that it is of.
-/

namespace WorkWaves.Json

/-- The unit as which a character stands in a quoted string. -/
def unitOf (c : Char) : Unit16 :=
  if c ∈ ['\x08', '\t', '\n', '\x0c', '\r'] ∨ 32 ≤ c.toNat then .char c else .code c.toNat

theorem hexValue_hexDigit {n : Nat} (h : n < 16) : hexValue (hexDigit n) = some n := by
  have hall : ∀ n < 16, hexValue (hexDigit n) = some n := by decide
  exact hall n h

theorem hex4_of_lt {n : Nat} (h : n < 32) : hex4 '0' '0' (hexDigit (n / 16)) (hexDigit (n % 16)) = some n := by
  have h0 : hexValue '0' = some 0 := by decide
  rw [hex4, h0, hexValue_hexDigit (by omega), hexValue_hexDigit (by omega)]
  simp only [Option.some.injEq]
  omega

theorem stringUnits_escapeChar (c : Char) (rest : List Char) :
    stringUnits (escapeChar c ++ rest) = (stringUnits rest).map fun p => (unitOf c :: p.1, p.2) := by
  unfold escapeChar
  by_cases hc : c ∈ ['"', '\\', '\x08', '\t', '\n', '\x0c', '\r']
  · simp only [List.mem_cons, List.not_mem_nil, or_false] at hc
    rcases hc with rfl | rfl | rfl | rfl | rfl | rfl | rfl <;> rfl
  · simp only [List.mem_cons, List.not_mem_nil, or_false, not_or] at hc
    obtain ⟨hquote, hslash, h8, h9, h10, h12, h13⟩ := hc
    simp only [hquote, hslash, h8, h9, h10, h12, h13, if_false]
    split
    · next hlt =>
      have hunit : unitOf c = .code c.toNat := by simp [unitOf, h8, h9, h10, h12, h13]; omega
      show stringUnits ('\\' :: 'u' :: '0' :: '0' :: hexDigit (c.toNat / 16) :: hexDigit (c.toNat % 16) :: rest) = _
      rw [stringUnits, hex4_of_lt hlt, hunit]
    · next hge =>
      have hunit : unitOf c = .char c := by simp [unitOf]; omega
      rw [List.singleton_append, stringUnits.eq_def, hunit]
      split
      case h_5 heq =>
        obtain ⟨rfl, rfl⟩ := List.cons.inj heq
        simp [hslash, hge]
      all_goals simp_all

theorem stringUnits_quote (s rest : List Char) :
    stringUnits (s.flatMap escapeChar ++ '"' :: rest) = some (s.map unitOf, rest) := by
  induction s with
  | nil => simp [stringUnits]
  | cons c s ih => rw [List.flatMap_cons, List.append_assoc, stringUnits_escapeChar, ih]; rfl

theorem charsOfUnits_code {n : Nat} (h : n < 32) (r : List Unit16) :
    charsOfUnits (.code n :: r) = (charsOfUnits r).map (Char.ofNat n :: ·) := by
  have hhigh : ¬ (0xD800 ≤ n ∧ n ≤ 0xDBFF) := by omega
  have hlow : ¬ (0xDC00 ≤ n ∧ n ≤ 0xDFFF) := by omega
  have hany : ¬ (0xD800 ≤ n ∧ n ≤ 0xDFFF) := by omega
  match r with
  | [] => simp [charsOfUnits, hany]
  | .char c :: r => simp [charsOfUnits, hany]
  | .code m :: r => rw [charsOfUnits, if_neg hhigh, if_neg hlow]

theorem charsOfUnits_map_unitOf (s : List Char) : charsOfUnits (s.map unitOf) = some s := by
  induction s with
  | nil => rfl
  | cons c s ih =>
    rw [List.map_cons]
    by_cases hc : c ∈ ['\x08', '\t', '\n', '\x0c', '\r'] ∨ 32 ≤ c.toNat
    · rw [unitOf, if_pos hc, charsOfUnits, ih]
      rfl
    · have hlt : c.toNat < 32 := by omega
      rw [unitOf, if_neg hc, charsOfUnits_code hlt, ih, Char.ofNat_toNat]
      rfl

theorem readQuoted_quote (s : String) (rest : List Char) :
    readQuoted (s.toList.flatMap escapeChar ++ '"' :: rest) = some (some s, rest) := by
  rw [readQuoted, stringUnits_quote]
  simp [charsOfUnits_map_unitOf]

end WorkWaves.Json
