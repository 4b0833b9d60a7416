import WorkWaves.Hints.Patterns
import Mathlib.Data.List.Basic

/-!
# Code spans and bare words of lines

A line feed ends code spans and bare words, so that two texts with a line feed between them name in these ways what each
of them names (`codeSpans_lines`, `bareWords_lines`). What is found at a place of the first text ends in it and does not
depend on what follows the line feed; `occurrences_append_of_local` draws the conclusion for the whole text.
-/

namespace WorkWaves

namespace Text

variable {α : Type} {find : Option Char → List Char → Option (α × Nat)} {before before' : Option Char} {c : Char}
  {l x y z : List Char} {a : α} {k n : Nat}

theorem getLast?_cons_or (c : Char) (l : List Char) (before : Option Char) :
    (c :: l).getLast?.or before = l.getLast?.or (some c) := by
  rw [List.getLast?_cons]
  cases l.getLast? <;> rfl

theorem occurrences_succ (before : Option Char) (k : Nat) (c : Char) (l : List Char) :
    occurrences find before (k + 1) (c :: l) = occurrences find (some c) k l := rfl

theorem occurrences_zero (before : Option Char) (c : Char) (l : List Char) : occurrences find before 0 (c :: l) =
    match find before (c :: l) with
    | some (a, taken) => a :: occurrences find (some c) (taken - 1) l
    | none => occurrences find (some c) 0 l := rfl

theorem occurrences_of_none (h : find before (c :: l) = none) :
    occurrences find before 0 (c :: l) = occurrences find (some c) 0 l := by
  rw [occurrences_zero, h]

theorem occurrences_of_some (h : find before (c :: l) = some (a, n)) :
    occurrences find before 0 (c :: l) = a :: occurrences find (some c) (n - 1) l := by
  rw [occurrences_zero, h]

theorem occurrences_append (before : Option Char) (x y : List Char) :
    occurrences find before x.length (x ++ y) = occurrences find (x.getLast?.or before) 0 y := by
  induction x generalizing before with
  | nil => rfl
  | cons c x ih =>
    rw [List.cons_append, List.length_cons, occurrences_succ, ih, getLast?_cons_or]

theorem occurrences_of_find (h : find before (x ++ y) = some (a, x.length)) (hx : x ≠ []) :
    occurrences find before 0 (x ++ y) = a :: occurrences find x.getLast? 0 y := by
  obtain ⟨c, x, rfl⟩ := List.exists_cons_of_ne_nil hx
  rw [List.cons_append] at h ⊢
  rw [occurrences_of_some h, List.length_cons, Nat.add_sub_cancel, occurrences_append, ← getLast?_cons_or c x none,
    Option.or_none]

theorem occurrences_congr (h : find before l = find before' l) :
    occurrences find before 0 l = occurrences find before' 0 l := by
  cases l with
  | nil => rfl
  | cons c l => rw [occurrences_zero, occurrences_zero, h]

theorem exists_of_mem_occurrences (h : a ∈ occurrences find before k l) :
    ∃ x y before' n, l = x ++ y ∧ find before' y = some (a, n) := by
  induction l generalizing before k with
  | nil => cases h
  | cons c l ih =>
    have hrest : ∀ {before k}, a ∈ occurrences find before k l →
        ∃ x y before' n, c :: l = x ++ y ∧ find before' y = some (a, n) := by
      intro before k hmem
      obtain ⟨x, y, before', n, rfl, hfound⟩ := ih hmem
      exact ⟨c :: x, y, before', n, rfl, hfound⟩
    cases k with
    | succ k => exact hrest h
    | zero =>
      rw [occurrences_zero] at h
      split at h
      · next found n hfound =>
        rcases List.mem_cons.mp h with rfl | h
        · exact ⟨[], c :: l, before, n, rfl, hfound⟩
        · exact hrest h
      · exact hrest h

/-- Where all that is found in a text ends in it, and is found whatever follows the text, what follows adds what is
found there. -/
theorem occurrences_append_of_local (hsame : ∀ before c l, find before (c :: l ++ z) = find before (c :: l))
    (hwithin : ∀ {before l a n}, find before l = some (a, n) → n ≤ l.length) (hk : k ≤ l.length) :
    occurrences find before k (l ++ z) = occurrences find before k l ++ occurrences find (l.getLast?.or before) 0 z := by
  induction l generalizing before k with
  | nil =>
    obtain rfl := Nat.le_zero.mp hk
    rfl
  | cons c l ih =>
    rw [getLast?_cons_or]
    cases k with
    | succ k => exact ih (Nat.le_of_succ_le_succ hk)
    | zero =>
      have hcl := hsame before c l
      rw [List.cons_append] at hcl ⊢
      cases hfound : find before (c :: l) with
      | none =>
        rw [occurrences_of_none hfound, occurrences_of_none (hcl.trans hfound)]
        exact ih (Nat.zero_le _)
      | some p =>
        have hle : p.2 - 1 ≤ l.length := by
          have := hwithin hfound
          rw [List.length_cons] at this
          omega
        rw [occurrences_of_some hfound, occurrences_of_some (hcl.trans hfound), ih hle, List.cons_append]

end Text

namespace Hints

open WorkWaves.Text

variable {before : Option Char} {l name path r raw w : List Char} {c : Char} {n : Nat}

theorem length_of_drop_eq_cons (h : l.drop n = c :: r) : l.length = n + 1 + r.length := by
  have hlen := congrArg List.length h
  rw [List.length_drop, List.length_cons] at hlen
  omega

theorem takeWhile_append_cons {f : Char → Bool} (hc : f c = false) (l r : List Char) :
    (l ++ c :: r).takeWhile f = l.takeWhile f := by
  induction l with
  | nil => rw [List.nil_append, List.takeWhile_cons, hc]; rfl
  | cons d l ih => simp only [List.cons_append, List.takeWhile_cons, ih]

theorem drop_append_of_takeWhile {f : Char → Bool} (h : l.takeWhile f = w) (r : List Char) :
    (l ++ r).drop w.length = l.drop w.length ++ r := by
  have hprefix : w <+: l := h ▸ List.takeWhile_prefix _
  exact List.drop_append_of_le_length hprefix.length_le

/-! ### Code spans -/

theorem codeSpan_append_newline (before : Option Char) (c : Char) (l u : List Char) :
    codeSpan before (c :: l ++ '\n' :: u) = codeSpan before (c :: l) := by
  by_cases hc : c = '\x60'
  · subst hc
    have htake : (l ++ '\n' :: u).takeWhile (fun c => c != '\x60' && !isBlank c) =
        l.takeWhile fun c => c != '\x60' && !isBlank c := takeWhile_append_cons rfl l u
    simp only [List.cons_append, codeSpan, htake]
    cases hword : l.takeWhile fun c => c != '\x60' && !isBlank c with
    | nil => rfl
    | cons d w =>
      rw [drop_append_of_takeWhile hword]
      cases l.drop (d :: w).length with
      | nil => rfl
      | cons e s =>
        by_cases he : e = '\x60'
        · subst he
          rfl
        · simp [he]
  · simp [codeSpan, hc]

theorem codeSpan_le_length (h : codeSpan before l = some (raw, n)) : n ≤ l.length := by
  unfold codeSpan at h
  split at h
  · next r =>
    dsimp only at h
    split at h
    · next hdrop =>
      cases h
      have hlen := length_of_drop_eq_cons hdrop
      rw [List.length_cons]
      omega
    · cases h
  · cases h

theorem codeSpans_lines (t u : List Char) : codeSpans (t ++ '\n' :: u) = codeSpans t ++ codeSpans u := by
  have hline : occurrences codeSpan (t.getLast?.or none) 0 ('\n' :: u) = codeSpans u := by
    rw [occurrences_of_none rfl]
    exact occurrences_congr rfl
  calc codeSpans (t ++ '\n' :: u)
      = codeSpans t ++ occurrences codeSpan (t.getLast?.or none) 0 ('\n' :: u) :=
        occurrences_append_of_local (fun before c l => codeSpan_append_newline before c l u) codeSpan_le_length
          (Nat.zero_le _)
    _ = codeSpans t ++ codeSpans u := by rw [hline]

/-! ### Bare words -/

theorem parts_append_newline {m : Nat} (hm : l.length < m) (hn : l.length < n) (u : List Char) :
    parts m (l ++ '\n' :: u) = parts n l := by
  induction m generalizing n l with
  | zero => exact absurd hm (Nat.not_lt_zero _)
  | succ m ih =>
    obtain ⟨n, rfl⟩ := Nat.exists_eq_succ_of_ne_zero (Nat.ne_zero_of_lt hn)
    have htake : (l ++ '\n' :: u).takeWhile isNameChar = l.takeWhile isNameChar := takeWhile_append_cons rfl l u
    simp only [parts, htake]
    cases hname : l.takeWhile isNameChar with
    | nil => rfl
    | cons d w =>
      rw [drop_append_of_takeWhile hname]
      cases hdrop : l.drop (d :: w).length with
      | nil => rfl
      | cons e s =>
        by_cases he : e = '/'
        · subst he
          have hlen := length_of_drop_eq_cons hdrop
          have hs : parts m (s ++ '\n' :: u) = parts n s := ih (by omega) (by omega)
          simp only [List.cons_append, hs]
        · simp [he]

theorem fileName?_le_length (h : fileName? name = some n) : n ≤ name.length := by
  obtain ⟨i, hi, rfl⟩ := Option.map_eq_some_iff.mp h
  have hmem := List.mem_filter.mp (List.mem_of_getLast? hi)
  have hlt : i < name.length := List.mem_range.mp hmem.1
  have hext : (((name.drop (i + 1)).takeWhile isExtensionChar).take 10).length ≤ name.length - (i + 1) := by
    calc (((name.drop (i + 1)).takeWhile isExtensionChar).take 10).length
        ≤ ((name.drop (i + 1)).takeWhile isExtensionChar).length := (List.take_prefix _ _).length_le
      _ ≤ (name.drop (i + 1)).length := (List.takeWhile_prefix _).length_le
      _ = name.length - (i + 1) := List.length_drop
  omega

theorem bestPath_cons {passed : Nat} {rest : List (List Char)} (h : bestPath passed (name :: rest) = some n) :
    bestPath (passed + name.length + 1) rest = some n ∨
      0 < passed ∧ passed ≤ n ∧ n ≤ passed + name.length := by
  rw [bestPath] at h
  split at h
  · next m hm => exact .inl (h ▸ hm)
  · split at h
    · cases h
    · next hpassed =>
      obtain ⟨i, hi, rfl⟩ := Option.map_eq_some_iff.mp h
      have := fileName?_le_length hi
      exact .inr ⟨Nat.pos_of_ne_zero hpassed, by omega, by omega⟩

theorem bestPath_pos {passed : Nat} {names : List (List Char)} (h : bestPath passed names = some n) : 0 < n := by
  induction names generalizing passed with
  | nil => cases h
  | cons name rest ih =>
    rcases bestPath_cons h with h | ⟨hpos, hle, -⟩
    · exact ih h
    · omega

theorem bestPath_parts_le {passed fuel : Nat} (h : bestPath passed (parts fuel l) = some n) : n ≤ passed + l.length := by
  induction fuel generalizing passed l with
  | zero => cases h
  | succ fuel ih =>
    have hname : (l.takeWhile isNameChar).length ≤ l.length := (List.takeWhile_prefix _).length_le
    rw [parts] at h
    split at h
    · cases h
    · next r hdrop _ =>
      have hlen := length_of_drop_eq_cons hdrop
      rcases bestPath_cons h with h | ⟨-, -, hle⟩
      · have := ih h
        omega
      · omega
    · rcases bestPath_cons h with h | ⟨-, -, hle⟩
      · cases h
      · omega

/-- A bare path is not empty and stands at the front of the text. -/
theorem barePath_eq_some (h : barePath l = some path) : path ≠ [] ∧ ∃ r, l = path ++ r := by
  obtain ⟨n, hn, rfl⟩ := Option.map_eq_some_iff.mp h
  have hpos := bestPath_pos hn
  have hle := bestPath_parts_le hn
  refine ⟨?_, l.drop n, (List.take_append_drop n l).symm⟩
  rw [Nat.zero_add] at hle
  intro hnil
  have := congrArg List.length hnil
  rw [List.length_take, List.length_nil] at this
  omega

theorem barePath_append_newline (l u : List Char) : barePath (l ++ '\n' :: u) = barePath l := by
  unfold barePath
  have hlt : l.length < (l ++ '\n' :: u).length + 1 := by
    rw [List.length_append]
    omega
  rw [parts_append_newline hlt (Nat.lt_succ_self _)]
  cases hn : bestPath 0 (parts (l.length + 1) l) with
  | none => rfl
  | some n =>
    have hle := bestPath_parts_le hn
    rw [Nat.zero_add] at hle
    exact congrArg some (List.take_append_of_le_length hle)

theorem bareWord_append_newline (before : Option Char) (c : Char) (l u : List Char) :
    bareWord before (c :: l ++ '\n' :: u) = bareWord before (c :: l) := by
  unfold bareWord
  rw [barePath_append_newline]
  simp only [List.cons_append, barePath_append_newline]

theorem bareWord_le_length (h : bareWord before l = some (raw, n)) : n ≤ l.length := by
  have hle : ∀ {l path}, barePath l = some path → path.length ≤ l.length := by
    intro l path hpath
    obtain ⟨-, r, rfl⟩ := barePath_eq_some hpath
    rw [List.length_append]
    exact Nat.le_add_right ..
  unfold bareWord at h
  dsimp only at h
  split at h
  · next path hfirst =>
    cases h
    split at hfirst
    · exact hle hfirst
    · cases hfirst
  · split at h
    · split at h
      · obtain ⟨path, hpath, he⟩ := Option.map_eq_some_iff.mp h
        cases he
        exact Nat.succ_le_succ (hle hpath)
      · cases h
    · cases h

/-- A line feed opens a word as the start of a text does. -/
theorem occurrences_bareWord_newline (before : Option Char) (u : List Char) :
    occurrences bareWord before 0 ('\n' :: u) = bareWords u := by
  have hnewline : bareWord before ('\n' :: u) = (barePath u).map fun path => (path, path.length + 1) := by
    have hnone : barePath ('\n' :: u) = none := rfl
    simp only [bareWord, hnone, ite_self]
    rfl
  cases hpath : barePath u with
  | none =>
    rw [occurrences_of_none (by rw [hnewline, hpath]; rfl)]
    refine occurrences_congr ?_
    simp only [bareWord, hpath, ite_self]
  | some path =>
    obtain ⟨hne, r, rfl⟩ := barePath_eq_some hpath
    have hfirst : bareWord none (path ++ r) = some (path, path.length) := by
      simp only [bareWord, hpath, if_true]
    rw [hpath, Option.map_some] at hnewline
    rw [bareWords, occurrences_of_find hfirst hne, occurrences_of_some hnewline, Nat.add_sub_cancel, occurrences_append,
      Option.or_of_isSome (List.getLast?_isSome.mpr hne)]

theorem bareWords_lines (t u : List Char) : bareWords (t ++ '\n' :: u) = bareWords t ++ bareWords u := by
  calc bareWords (t ++ '\n' :: u)
      = bareWords t ++ occurrences bareWord (t.getLast?.or none) 0 ('\n' :: u) :=
        occurrences_append_of_local (fun before c l => bareWord_append_newline before c l u) bareWord_le_length
          (Nat.zero_le _)
    _ = bareWords t ++ bareWords u := by rw [occurrences_bareWord_newline]

end Hints

end WorkWaves
