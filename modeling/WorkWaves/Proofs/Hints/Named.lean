import Mathlib
import WorkWaves.Hints.Extract
import WorkWaves.Proofs.Paths

/-!
# A file in a code span is found

A code span that stands at the start of a text or behind a blank is found whatever backticks stand before it: a span
found earlier holds no blank, so it ends before that one (`mem_occurrences_codeSpan`). When the word of the span is a
file in a directory (`FilePath`), perhaps with `./` before it and with a line reference behind it, its normal form is
the path of the file (`normalize_word`), and the file is among the hints of the text (`mem_files_of_names`).
-/

namespace WorkWaves

open WorkWaves.Text

namespace Hints

variable {word pre after s : List Char} {c : Char}

/-- The plain characters of names: letters and digits of ASCII, the underscore and the hyphen. -/
def isPlain (c : Char) : Bool := c.isAlphanum || c == '_' || c == '-'

/-- A file in a directory, with plain names and an extension. -/
structure FilePath where
  directories : List (List Char)
  name : List Char
  extension : List Char
  directories_ne_nil : directories ≠ []
  directories_plain : ∀ d ∈ directories, ∀ c ∈ d, isPlain c = true
  name_plain : ∀ c ∈ name, isPlain c = true
  extension_ne_nil : extension ≠ []
  extension_alphanum : ∀ c ∈ extension, c.isAlphanum = true

/-- The characters of a path, with slashes between its components. -/
def FilePath.chars (p : FilePath) : List Char :=
  p.directories.flatMap (· ++ ['/']) ++ p.name ++ '.' :: p.extension

def FilePath.path (p : FilePath) : String := String.ofList p.chars

/-- What may stand behind a path: nothing, or a reference to one line, to a line and a column or to some lines. -/
inductive LineSuffix : List Char → Prop
  | none : LineSuffix []
  | line {n : List Char} (hn : isDigits n = true) : LineSuffix (':' :: n)
  | column {n m : List Char} (hn : isDigits n = true) (hm : isDigits m = true) : LineSuffix (':' :: n ++ ':' :: m)
  | lines {n m : List Char} (hn : isDigits n = true) (hm : isDigits m = true) : LineSuffix (':' :: n ++ '-' :: m)
  | anchor {n : List Char} (hn : isDigits n = true) : LineSuffix ('#' :: 'L' :: n)
  | anchors {n m : List Char} (hn : isDigits n = true) (hm : isDigits m = true) :
    LineSuffix ('#' :: 'L' :: n ++ '-' :: m)
  | bothAnchors {n m : List Char} (hn : isDigits n = true) (hm : isDigits m = true) :
    LineSuffix ('#' :: 'L' :: n ++ '-' :: 'L' :: m)

/-- Any number of `./`. -/
def hereSteps (k : Nat) : List Char := (List.replicate k ['.', '/']).flatten

/-- A text names a file: at its start or behind a blank there is a code span with the path of the file, which `./` may
precede and a line reference may follow. -/
def Names (text : String) (p : FilePath) : Prop :=
  ∃ before k suffix after, text.toList = before ++ '\x60' :: (hereSteps k ++ p.chars ++ suffix) ++ '\x60' :: after ∧
    LineSuffix suffix ∧ ∀ c ∈ before.getLast?, isBlank c = true

/-! ### The span -/

/-- A character of a code span. -/
def inSpan (c : Char) : Bool := c != '\x60' && !isBlank c

theorem length_takeWhile_lt {f : Char → Bool} {l r : List Char} (hc : c ∈ l) (hf : f c = false) :
    ((l ++ r).takeWhile f).length < l.length := by
  induction l with
  | nil => cases hc
  | cons d l ih =>
    rw [List.cons_append, List.takeWhile_cons]
    split
    · next hd =>
      have hcl : c ∈ l := (List.mem_cons.mp hc).resolve_left fun he => by simp [← he, hf] at hd
      exact Nat.succ_lt_succ (ih hcl)
    · exact Nat.succ_pos _

theorem codeSpan_word (hne : word ≠ []) (hword : ∀ c ∈ word, inSpan c = true) (b : Option Char) (after : List Char) :
    codeSpan b ('\x60' :: (word ++ '\x60' :: after)) = some (word, word.length + 2) := by
  have htake : (word ++ '\x60' :: after).takeWhile (fun c => c != '\x60' && !isBlank c) = word := by
    rw [List.takeWhile_append_of_pos (by exact hword)]
    simp
  obtain ⟨c, r, rfl⟩ := List.exists_cons_of_ne_nil hne
  simp only [codeSpan, htake, List.drop_left]

/-- A span that begins in a text whose end is blank ends in it. -/
theorem codeSpan_taken {b : Option Char} {taken : Nat} (hc : c ∈ pre) (hblank : isBlank c = true)
    (h : codeSpan b ('\x60' :: (pre ++ s)) = some (word, taken)) : taken - 1 ≤ pre.length := by
  have hlt : ((pre ++ s).takeWhile fun c => c != '\x60' && !isBlank c).length < pre.length :=
    length_takeWhile_lt hc (by simp [hblank])
  simp only [codeSpan] at h
  split at h
  · cases h
    exact Nat.succ_le_of_lt hlt
  · cases h

theorem mem_occurrences_codeSpan (hne : word ≠ []) (hword : ∀ c ∈ word, inSpan c = true) {b : Option Char} {skip : Nat}
    (hskip : skip ≤ pre.length) (hpre : ∀ c ∈ pre.getLast?, isBlank c = true) :
    word ∈ occurrences codeSpan b skip (pre ++ '\x60' :: (word ++ '\x60' :: after)) := by
  induction pre generalizing b skip with
  | nil =>
    obtain rfl : skip = 0 := Nat.le_zero.mp hskip
    simp only [List.nil_append, occurrences, codeSpan_word hne hword]
    exact List.mem_cons_self ..
  | cons c pre ih =>
    have hrest : ∀ d ∈ pre.getLast?, isBlank d = true := fun d hd => by
      obtain ⟨e, r, rfl⟩ := List.exists_cons_of_ne_nil (l := pre) (by rintro rfl; cases hd)
      exact hpre d (by simpa [List.getLast?_cons_cons] using hd)
    rw [List.cons_append]
    cases skip with
    | succ skip => exact ih (Nat.le_of_succ_le_succ hskip) hrest
    | zero =>
      rw [occurrences]
      split
      · next found taken hfound =>
        refine List.mem_cons_of_mem _ (ih ?_ hrest)
        obtain ⟨d, hd⟩ := Option.isSome_iff_exists.mp (List.getLast?_isSome.mpr (List.cons_ne_nil c pre))
        have hblank := hpre d hd
        have hc : c = '\x60' := by
          unfold codeSpan at hfound
          split at hfound
          · next he => exact (List.cons.inj he).1
          · cases hfound
        subst hc
        -- The blank at the end is not the backtick that begins the span.
        have hmem : d ∈ pre := (List.mem_cons.mp (List.mem_of_getLast? hd)).resolve_left fun he => by
          subst he; simp [isBlank] at hblank
        exact codeSpan_taken hmem hblank hfound
      · exact ih (Nat.zero_le _) hrest

/-! ### The characters -/

/-- The code points of blanks. -/
def blankPoints : List Nat :=
  [9, 10, 11, 12, 13, 0x20, 0x85, 0xA0, 0x1680, 0x2000, 0x2001, 0x2002, 0x2003, 0x2004, 0x2005, 0x2006, 0x2007, 0x2008,
    0x2009, 0x200A, 0x2028, 0x2029, 0x202F, 0x205F, 0x3000]

theorem not_isBlank {f : Char → Bool} (hf : ∀ n ∈ blankPoints, f (Char.ofNat n) = false) (hc : f c = true) :
    isBlank c = false := by
  refine Bool.eq_false_iff.mpr fun hb => ?_
  have hmem : c.toNat ∈ blankPoints := by
    simp only [isBlank, Bool.or_eq_true, Bool.and_eq_true, decide_eq_true_eq, beq_iff_eq] at hb
    simp only [blankPoints, List.mem_cons, List.not_mem_nil, or_false]
    omega
  simpa [Char.ofNat_toNat, hc] using hf c.toNat hmem

/-- A character is not one for which a test fails. -/
theorem ne_of_test {f : Char → Bool} {d : Char} (hc : f c = true) (hd : f d = false) : c ≠ d := by
  rintro rfl
  exact absurd hc (by simp [hd])

theorem not_endsPhrase {f : Char → Bool} (hf : ".,;)]\x7d\"'".toList.all (!f ·) = true) (hc : f c = true) :
    endsPhrase c = false := by
  refine Bool.eq_false_iff.mpr fun he => ?_
  have hno := List.all_eq_true.mp hf c (List.contains_iff_mem.mp he)
  exact absurd hc (by simpa using hno)

theorem not_startsPhrase {f : Char → Bool} (hf : "([\x7b\"'".toList.all (!f ·) = true) (hc : f c = true) :
    startsPhrase c = false := by
  refine Bool.eq_false_iff.mpr fun hs => ?_
  have hno := List.all_eq_true.mp hf c (List.contains_iff_mem.mp hs)
  exact absurd hc (by simpa using hno)

/-- A character of a path before its line reference: a plain one, a slash or a point. -/
def inPath (c : Char) : Bool := isPlain c || c == '/' || c == '.'

/-- A character of a line reference. -/
def inSuffix (c : Char) : Bool := isDecimalDigit c || c == ':' || c == '#' || c == 'L' || c == '-'

theorem inSpan_of_inPath (h : inPath c = true) : inSpan c = true := by
  have hb : isBlank c = false := not_isBlank (by decide) h
  simp [inSpan, hb, ne_of_test h (d := '\x60') (by decide)]

theorem inSpan_of_inSuffix (h : inSuffix c = true) : inSpan c = true := by
  have hb : isBlank c = false := not_isBlank (by decide) h
  simp [inSpan, hb, ne_of_test h (d := '\x60') (by decide)]

theorem isPathChar_of_inPath (h : inPath c = true) : isPathChar c = true := by
  have hascii : c.isAlphanum = true → c.toNat < 128 := by
    simp only [Char.isAlphanum, Char.isAlpha, Char.isUpper, Char.isLower, Char.isDigit, Bool.or_eq_true,
      Bool.and_eq_true, decide_eq_true_eq, UInt32.le_iff_toNat_le]
    show _ → c.val.toNat < 128
    intro h
    rcases h with (⟨-, h⟩ | ⟨-, h⟩) | ⟨-, h⟩ <;> exact Nat.lt_of_le_of_lt h (by decide)
  have hword : c.isAlphanum = true → isWordChar c = true := fun hc => by
    rw [isWordChar, if_pos (hascii hc), hc, Bool.true_or]
  simp only [inPath, isPlain, Bool.or_eq_true, beq_iff_eq] at h
  rcases h with (((h | rfl) | rfl) | rfl) | rfl
  · simp [isPathChar, isNameChar, hword h]
  all_goals rfl

/-! ### The normal form -/

theorem splitLast_append {f : Char → Bool} {l r : List Char} (hc : f c = true) (hr : ∀ d ∈ r, f d = false) :
    splitLast f (l ++ c :: r) = some (l, r) := by
  have hrev : ∀ d ∈ r.reverse, (!f d) = true := fun d hd => by simp [hr d (List.mem_reverse.mp hd)]
  have he : (l ++ c :: r).reverse = r.reverse ++ c :: l.reverse := by simp
  simp only [splitLast]
  rw [he, List.takeWhile_append_of_pos hrev, List.dropWhile_append_of_pos hrev]
  simp [hc]

theorem isDigits_iff {n : List Char} : isDigits n = true ↔ n ≠ [] ∧ ∀ c ∈ n, isDecimalDigit c = true := by
  simp [isDigits]

/-- Digits hold none of the characters at which line references are split. -/
theorem splitAt_digits {f : Char → Bool} {n : List Char} (hn : isDigits n = true)
    (hf : ∀ c, isDecimalDigit c = true → f c = false) : Text.splitAt f n = [n] := by
  rw [splitAt_eq_splitOnP]
  exact List.splitOnP_eq_singleton fun c hc => hf c ((isDigits_iff.mp hn).2 c hc)

theorem splitAt_digits_append {f : Char → Bool} {n m : List Char} (hn : isDigits n = true)
    (hf : ∀ c, isDecimalDigit c = true → f c = false) (hc : f c = true) :
    Text.splitAt f (n ++ c :: m) = n :: Text.splitAt f m := by
  rw [splitAt_eq_splitOnP, splitAt_eq_splitOnP, List.splitOnP_append_cons _ _ hc, ← splitAt_eq_splitOnP f n,
    splitAt_digits hn hf]
  rfl

namespace LineSuffix

theorem inSuffix (h : LineSuffix s) : ∀ c ∈ s, Hints.inSuffix c = true := by
  have hdigits : ∀ {n : List Char}, isDigits n = true → ∀ c ∈ n, Hints.inSuffix c = true := fun hn c hc => by
    simp [Hints.inSuffix, (isDigits_iff.mp hn).2 c hc]
  have hcons : ∀ {c : Char} {l : List Char}, Hints.inSuffix c = true → (∀ d ∈ l, Hints.inSuffix d = true) →
      ∀ d ∈ c :: l, Hints.inSuffix d = true := fun hc hl => List.forall_mem_cons.mpr ⟨hc, hl⟩
  cases h with
  | none => simp
  | line hn => exact hcons rfl (hdigits hn)
  | column hn hm | lines hn hm =>
    exact hcons rfl (List.forall_mem_append.mpr ⟨hdigits hn, hcons rfl (hdigits hm)⟩)
  | anchor hn => exact hcons rfl (hcons rfl (hdigits hn))
  | anchors hn hm =>
    exact hcons rfl (hcons rfl (List.forall_mem_append.mpr ⟨hdigits hn, hcons rfl (hdigits hm)⟩))
  | bothAnchors hn hm =>
    exact hcons rfl (hcons rfl (List.forall_mem_append.mpr ⟨hdigits hn, hcons rfl (hcons rfl (hdigits hm))⟩))

/-- A line reference ends in a digit. -/
theorem getLast? (h : LineSuffix s) : ∀ c ∈ s.getLast?, isDecimalDigit c = true := by
  have hdigits : ∀ (l : List Char) {n : List Char}, isDigits n = true → ∀ c ∈ (l ++ n).getLast?,
      isDecimalDigit c = true := fun l n hn c hc => by
    obtain ⟨hne, hall⟩ := isDigits_iff.mp hn
    rw [List.getLast?_append, Option.or_of_isSome (List.getLast?_isSome.mpr hne)] at hc
    exact hall c (List.mem_of_getLast? hc)
  cases h with
  | none => simp
  | line hn => exact hdigits [':'] hn
  | @column n m hn hm => simpa using hdigits (':' :: n ++ [':']) hm
  | @lines n m hn hm => simpa using hdigits (':' :: n ++ ['-']) hm
  | anchor hn => exact hdigits ['#', 'L'] hn
  | @anchors n m hn hm => simpa using hdigits ('#' :: 'L' :: n ++ ['-']) hm
  | @bothAnchors n m hn hm => simpa using hdigits ('#' :: 'L' :: n ++ ['-', 'L']) hm

theorem isLineReference (h : LineSuffix s) : s = [] ∨ isLineReference s = true := by
  have hcolon : ∀ c, isDecimalDigit c = true → (c == ':' || c == '-') = false := fun c hc => by
    simp [ne_of_test hc (d := ':') (by decide), ne_of_test hc (d := '-') (by decide)]
  have hdash : ∀ c, isDecimalDigit c = true → (c == '-') = false := fun c hc => by
    simp [ne_of_test hc (d := '-') (by decide)]
  cases h with
  | none => exact .inl rfl
  | line hn => exact .inr (by simp [Hints.isLineReference, splitAt_digits hn hcolon, hn])
  | column hn hm | lines hn hm =>
    refine .inr ?_
    rw [List.cons_append, Hints.isLineReference, splitAt_digits_append hn hcolon rfl, splitAt_digits hm hcolon]
    simp [hn, hm]
  | anchor hn => exact .inr (by simp [Hints.isLineReference, splitAt_digits hn hdash, hn])
  | @anchors n m hn hm =>
    refine .inr ?_
    obtain ⟨c, m, rfl⟩ := List.exists_cons_of_ne_nil (isDigits_iff.mp hm).1
    have hc : c ≠ 'L' := ne_of_test ((isDigits_iff.mp hm).2 c (List.mem_cons_self ..)) (by decide)
    rw [List.cons_append, List.cons_append, Hints.isLineReference, splitAt_digits_append hn hdash rfl,
      splitAt_digits hm hdash]
    simp [hn, hm, hc]
  | @bothAnchors n m hn hm =>
    refine .inr ?_
    have hL : Text.splitAt (· == '-') ('L' :: m) = ['L' :: m] := by
      simp [Text.splitAt, splitAt_digits hm hdash]
    rw [List.cons_append, List.cons_append, Hints.isLineReference, splitAt_digits_append hn hdash rfl, hL]
    simp [hn, hm]

end LineSuffix

theorem dropLineReference_append (hword : ∀ c ∈ word, inPath c = true) (hs : s = [] ∨ isLineReference s = true) :
    dropLineReference (word ++ s) = word := by
  induction word with
  | nil =>
    rcases hs with rfl | hs
    · rfl
    · cases s with
      | nil => rfl
      | cons c s => exact if_pos hs
  | cons c word ih =>
    obtain ⟨hc, hrest⟩ := List.forall_mem_cons.mp hword
    have hcolon : c ≠ ':' := ne_of_test hc (by decide)
    have hhash : c ≠ '#' := ne_of_test hc (by decide)
    have hline : isLineReference (c :: (word ++ s)) = false := by simp [isLineReference, hcolon, hhash]
    rw [List.cons_append, dropLineReference, if_neg (by simp [hline]), ih hrest]

theorem hasScheme_eq_false (hword : ∀ c ∈ word, inPath c = true) (hs : ∀ c ∈ s, inSuffix c = true) :
    hasScheme (word ++ s) = false := by
  induction word with
  | nil =>
    -- No slash follows the colon of a line reference.
    induction s with
    | nil => rfl
    | cons c s ih =>
      obtain ⟨-, hrest⟩ := List.forall_mem_cons.mp hs
      have hslash : [':', '/', '/'].isPrefixOf (c :: s) = false := by
        cases s with
        | nil => simp [List.isPrefixOf]
        | cons d s =>
          have hd : d ≠ '/' := ne_of_test (hrest d (List.mem_cons_self ..)) (by decide)
          simp [List.isPrefixOf, hd.symm]
      rw [List.nil_append, hasScheme, hslash, Bool.false_or]
      exact ih hrest
  | cons c word ih =>
    obtain ⟨hc, hrest⟩ := List.forall_mem_cons.mp hword
    have hcolon : c ≠ ':' := ne_of_test hc (by decide)
    rw [List.cons_append, hasScheme, ih hrest]
    simp [List.isPrefixOf, hcolon.symm]

theorem dropHere_hereSteps (k : Nat) (l : List Char) : dropHere (hereSteps k ++ l) = dropHere l := by
  induction k with
  | zero => rfl
  | succ k ih => exact ih

namespace FilePath

variable (p : FilePath)

theorem inPath_chars : ∀ c ∈ p.chars, inPath c = true := by
  have hplain : ∀ {c : Char}, isPlain c = true → inPath c = true := fun h => by simp [inPath, h]
  have halphanum : ∀ {c : Char}, c.isAlphanum = true → inPath c = true := fun h => by simp [inPath, isPlain, h]
  refine List.forall_mem_append.mpr ⟨List.forall_mem_append.mpr ⟨fun c hc => ?_, fun c hc => hplain (p.name_plain c hc)⟩,
    List.forall_mem_cons.mpr ⟨rfl, fun c hc => halphanum (p.extension_alphanum c hc)⟩⟩
  obtain ⟨d, hd, hc⟩ := List.mem_flatMap.mp hc
  rcases List.mem_append.mp hc with hc | hc
  · exact hplain (p.directories_plain d hd c hc)
  · rw [List.mem_singleton.mp hc]
    rfl

/-- A path ends in its extension. -/
theorem getLast?_chars : ∃ c, p.chars.getLast? = some c ∧ c.isAlphanum = true := by
  obtain ⟨r, c, he⟩ := (List.eq_nil_or_concat p.extension).resolve_left p.extension_ne_nil
  have hchars : p.chars = p.directories.flatMap (· ++ ['/']) ++ p.name ++ '.' :: r ++ [c] := by simp [chars, he]
  exact ⟨c, by rw [hchars, List.getLast?_concat], p.extension_alphanum c (by simp [he])⟩

/-- A path starts with a directory, which may have no name. -/
theorem exists_chars_eq_cons : ∃ c r, p.chars = c :: r ∧ (isPlain c || c == '/') = true := by
  obtain ⟨d, ds, hd⟩ := List.exists_cons_of_ne_nil p.directories_ne_nil
  cases d with
  | nil => exact ⟨'/', _, by rw [chars, hd]; rfl, rfl⟩
  | cons c d =>
    have hc : isPlain c = true := p.directories_plain (c :: d) (hd ▸ List.mem_cons_self ..) c (List.mem_cons_self ..)
    exact ⟨c, _, by rw [chars, hd]; rfl, by simp [hc]⟩

theorem dropHere_chars : dropHere p.chars = p.chars := by
  obtain ⟨c, r, hp, hc⟩ := p.exists_chars_eq_cons
  have hpoint : c ≠ '.' := ne_of_test (f := fun c => isPlain c || c == '/') hc (by decide)
  rw [hp]
  unfold dropHere
  split
  · next he => exact absurd (List.cons.inj he).1 hpoint
  · rfl

/-- The name of the file stands behind the last slash. -/
theorem splitLast_chars : ∃ front, splitLast (· == '/') p.chars = some (front, p.name ++ '.' :: p.extension) := by
  obtain ⟨ds, d, hd⟩ := (List.eq_nil_or_concat p.directories).resolve_left p.directories_ne_nil
  refine ⟨ds.flatMap (· ++ ['/']) ++ d, ?_⟩
  have he : p.chars = (ds.flatMap (· ++ ['/']) ++ d) ++ '/' :: (p.name ++ '.' :: p.extension) := by
    simp [chars, hd]
  rw [he]
  refine splitLast_append rfl (List.forall_mem_append.mpr ⟨fun c hc => ?_, List.forall_mem_cons.mpr ⟨rfl, fun c hc => ?_⟩⟩)
  · exact beq_false_of_ne (ne_of_test (p.name_plain c hc) (by decide))
  · exact beq_false_of_ne (ne_of_test (p.extension_alphanum c hc) (by decide))

theorem extension?_name : extension? (p.name ++ '.' :: p.extension) = some p.extension := by
  have hsplit : splitLast (· == '.') (p.name ++ '.' :: p.extension) = some (p.name, p.extension) :=
    splitLast_append rfl fun c hc => beq_false_of_ne (ne_of_test (p.extension_alphanum c hc) (by decide))
  have hall : (!p.extension.isEmpty && p.extension.all isExtensionChar) = true := by
    have hne : p.extension.isEmpty = false := by simpa using p.extension_ne_nil
    rw [hne, Bool.not_false, Bool.true_and]
    exact List.all_eq_true.mpr p.extension_alphanum
  simp only [extension?, hsplit]
  exact if_pos hall

end FilePath

/-- The word of a span that names a file. -/
def spanWord (k : Nat) (p : FilePath) (s : List Char) : List Char := hereSteps k ++ p.chars ++ s

section SpanWord

variable (k : Nat) (p : FilePath)

theorem inPath_hereSteps : ∀ c ∈ hereSteps k ++ p.chars, inPath c = true := by
  refine List.forall_mem_append.mpr ⟨fun c hc => ?_, p.inPath_chars⟩
  obtain ⟨l, hl, hc⟩ := List.mem_flatten.mp hc
  rw [(List.mem_replicate.mp hl).2] at hc
  simp only [List.mem_cons, List.not_mem_nil, or_false] at hc
  rcases hc with rfl | rfl <;> rfl

theorem inSpan_spanWord (hs : LineSuffix s) : ∀ c ∈ spanWord k p s, inSpan c = true :=
  List.forall_mem_append.mpr ⟨fun c hc => inSpan_of_inPath (inPath_hereSteps k p c hc),
    fun c hc => inSpan_of_inSuffix (hs.inSuffix c hc)⟩

theorem dropEnd_spanWord (hs : LineSuffix s) : dropEnd endsPhrase (spanWord k p s) = spanWord k p s := by
  obtain ⟨c, hc, halphanum⟩ := p.getLast?_chars
  refine dropEnd_eq_self fun d hd => ?_
  rw [spanWord, List.getLast?_append, List.getLast?_append, hc] at hd
  cases hlast : s.getLast? with
  | none =>
    rw [hlast] at hd
    cases hd
    exact not_endsPhrase (by decide) halphanum
  | some e =>
    rw [hlast] at hd
    cases hd
    exact not_endsPhrase (by decide) (hs.getLast? _ hlast)

theorem dropWhile_spanWord : (spanWord k p s).dropWhile startsPhrase = spanWord k p s := by
  refine dropWhile_eq_self fun d hd => ?_
  obtain ⟨c, r, hp, -⟩ := p.exists_chars_eq_cons
  have hhead : (spanWord k p s).head? = (hereSteps k ++ p.chars).head? := by
    have hne : hereSteps k ++ p.chars ≠ [] := by simp [hp]
    rw [spanWord, List.head?_append, Option.or_of_isSome (List.isSome_head?.mpr hne)]
  have hmem : d ∈ hereSteps k ++ p.chars := List.mem_of_mem_head? (hhead ▸ hd)
  exact not_startsPhrase (by decide) (inPath_hereSteps k p d hmem)

/-- The normal form of a word that names a file is the path of the file. -/
theorem normalize_spanWord (hs : LineSuffix s) : normalize (spanWord k p s) = some p.chars := by
  obtain ⟨c, hc, halphanum⟩ := p.getLast?_chars
  have hmem : c ∈ p.chars := List.mem_of_getLast? hc
  have hline : dropLineReference (spanWord k p s) = hereSteps k ++ p.chars :=
    dropLineReference_append (inPath_hereSteps k p) hs.isLineReference
  have hscheme : hasScheme (spanWord k p s) = false := hasScheme_eq_false (inPath_hereSteps k p) hs.inSuffix
  have hempty : (hereSteps k ++ p.chars).isEmpty = false := by
    simp [List.ne_nil_of_mem hmem]
  have hall : (hereSteps k ++ p.chars).all isPathChar = true :=
    List.all_eq_true.mpr fun d hd => isPathChar_of_inPath (inPath_hereSteps k p d hd)
  have hname : (p.chars.all fun d => d == '.' || d == '/') = false := by
    refine List.all_eq_false.mpr ⟨c, hmem, ?_⟩
    simp [ne_of_test halphanum (d := '.') (by decide), ne_of_test halphanum (d := '/') (by decide)]
  simp only [normalize, dropEnd_spanWord k p hs, dropWhile_spanWord, hline, hscheme, hempty, hall, dropHere_hereSteps,
    p.dropHere_chars, hname]
  rfl

end SpanWord

/-! ### The hints -/

section Files

variable {h : Hints} {b : Bool} {f : String} {raw path : List Char}

/-- Every path that a text names adds to the hints, and takes nothing away. -/
theorem mem_files_addPath (hf : f ∈ h.files) : f ∈ (h.addPath b path).files := by
  unfold addPath
  split
  · dsimp only
    split
    · exact hf
    · exact hf
  · split
    split
    · split
      · exact StringSet.mem_insert.mpr (.inr hf)
      · exact hf
    · split
      · exact hf
      · exact hf

theorem mem_files_addNamed (hf : f ∈ h.files) : f ∈ (h.addNamed b raw).files := by
  unfold addNamed
  split
  · exact mem_files_addPath hf
  · exact hf

theorem mem_files_foldl (l : List (List Char)) (hf : f ∈ h.files) : f ∈ (l.foldl (addNamed b) h).files := by
  induction l generalizing h with
  | nil => exact hf
  | cons raw l ih => exact ih (mem_files_addNamed hf)

theorem mem_files_addNamed_spanWord (k : Nat) (p : FilePath) (hs : LineSuffix s) :
    p.path ∈ (h.addNamed b (spanWord k p s)).files := by
  obtain ⟨front, hfront⟩ := p.splitLast_chars
  obtain ⟨c, hc, halphanum⟩ := p.getLast?_chars
  have hadd : h.addPath b p.chars = h.addFile p.path := by
    simp only [addPath, hc, hfront, p.extension?_name]
    split
    · next he => exact absurd halphanum (by rw [Option.some.inj he]; decide)
    · rfl
  simp only [addNamed, normalize_spanWord k p hs, hadd]
  exact StringSet.mem_insert.mpr (.inl rfl)

/-- A file that a text names in a code span is among its hints, whatever else the text says. -/
theorem mem_files_of_names {text : String} {p : FilePath} (h : Names text p) : p.path ∈ (ofText text).files := by
  obtain ⟨before, k, s, after, htext, hs, hbefore⟩ := h
  have hne : spanWord k p s ≠ [] := by
    obtain ⟨c, r, hp, -⟩ := p.exists_chars_eq_cons
    simp [spanWord, hp]
  have hspan : spanWord k p s ∈ codeSpans text.toList := by
    rw [codeSpans, htext, List.append_assoc, List.cons_append]
    exact mem_occurrences_codeSpan hne (inSpan_spanWord k p hs) (Nat.zero_le _) hbefore
  obtain ⟨l, r, hlr⟩ := List.append_of_mem hspan
  refine mem_files_foldl _ (mem_files_foldl _ ?_)
  rw [hlr, List.foldl_append, List.foldl_cons]
  exact mem_files_foldl _ (mem_files_addNamed_spanWord k p hs)

end Files

end Hints
end WorkWaves
