import WorkWaves.Git.Porcelain
import WorkWaves.Proofs.Paths

/-!
# Reading a listing back

A listing writes the code of each file, a blank and its path, and behind a renamed or copied file its source, which may
look like a record itself (`listing`). Read back, it tells of the tracked files in their order, each with what its code
says (`files_of_listing`).
-/

namespace WorkWaves.Git.Porcelain

/-- An ASCII character that can be printed, the blank among them. -/
def isPrintable (c : Char) : Bool := ' ' ≤ c && c ≤ '~'

/-- A text that can stand in a listing. -/
def IsField (s : String) : Prop := s ≠ "" ∧ '\x00' ∉ s.toList

/-- What is to be told of a file. A source belongs to the codes of renamed and copied files. -/
structure Entry where
  first : Char
  second : Char
  path : String
  source : Option String
  first_printable : isPrintable first = true
  second_printable : isPrintable second = true
  path_isField : IsField path
  source_isField : ∀ s ∈ source, IsField s
  source_isSome : source.isSome = true ↔ 'R' ∈ [first, second] ∨ 'C' ∈ [first, second]

namespace Entry

def code (e : Entry) : List Char := [e.first, e.second]

def text (e : Entry) : String :=
  String.ofList e.code ++ " " ++ e.path ++ "\x00" ++ e.source.elim "" (· ++ "\x00")

/-- What happened to the file. -/
def change (e : Entry) : Change :=
  if 'R' ∈ e.code then .renamed (e.source.getD "")
  else if 'C' ∈ e.code then .added
  else if 'D' ∈ e.code then .deleted
  else if e.first = 'A' then .added
  else .modified

/-- The file, if it is tracked. -/
def file? (e : Entry) : Option DirtyFile :=
  if e.code = ['?', '?'] ∨ e.code = ['!', '!'] then none else some ⟨e.path, e.change⟩

end Entry

def listing (es : List Entry) : String := String.join (es.map Entry.text)

/-! ### The records of a listing -/

/-- The records of a file, without the characters that end them. -/
def Entry.records (e : Entry) : List (List Char) :=
  (e.code ++ ' ' :: e.path.toList) :: (e.source.map String.toList).toList

theorem utf8Size_of_isPrintable {c : Char} (h : isPrintable c = true) : c.utf8Size = 1 := by
  simp only [isPrintable, Bool.and_eq_true, decide_eq_true_eq] at h
  rw [Char.utf8Size_eq_one_iff]
  exact UInt32.le_trans h.2 (by decide)

theorem ne_nul_of_isPrintable {c : Char} (h : isPrintable c = true) : c ≠ '\x00' := by
  rintro rfl
  exact absurd h (by decide)

variable {e : Entry}

theorem Entry.toList_text : e.text.toList = e.records.flatMap (· ++ ['\x00']) := by
  unfold Entry.text Entry.records
  cases e.source <;> simp

theorem Entry.mem_records {l : List Char} (h : l ∈ e.records) : l ≠ [] ∧ '\x00' ∉ l := by
  unfold Entry.records at h
  rcases List.mem_cons.mp h with rfl | h
  · refine ⟨by simp [Entry.code], ?_⟩
    have h₁ := ne_nul_of_isPrintable e.first_printable
    have h₂ := ne_nul_of_isPrintable e.second_printable
    simpa [Entry.code, h₁.symm, h₂.symm] using e.path_isField.2
  · obtain ⟨s, hs, rfl⟩ : ∃ s, e.source = some s ∧ s.toList = l := by simpa using h
    obtain ⟨hne, hnul⟩ := e.source_isField s hs
    exact ⟨by simpa using hne, hnul⟩

/-- Splitting at the ends of the records gives the records back, none of which is empty. -/
theorem filter_splitAt_flatMap {fs : List (List Char)} (h : ∀ f ∈ fs, f ≠ [] ∧ '\x00' ∉ f) :
    (Text.splitAt (· == '\x00') (fs.flatMap (· ++ ['\x00']))).filter (fun r => !r.isEmpty) = fs := by
  induction fs with
  | nil => rfl
  | cons f fs ih =>
    obtain ⟨⟨hne, hnul⟩, hfs⟩ := List.forall_mem_cons.mp h
    have hf : f.splitOnP (· == '\x00') = [f] := by
      refine List.splitOnP_eq_singleton fun c hc => ?_
      rw [beq_eq_false_iff_ne]
      rintro rfl
      exact hnul hc
    rw [List.flatMap_cons, List.append_assoc, List.singleton_append, Text.splitAt_eq_splitOnP,
      List.splitOnP_append_cons _ _ rfl, hf, List.singleton_append, ← Text.splitAt_eq_splitOnP,
      List.filter_cons_of_pos (by simpa using hne), ih hfs]

/-! ### Reading the records -/

theorem codeAndPath?_record (e : Entry) :
    codeAndPath? (e.code ++ ' ' :: e.path.toList) = some (e.code, e.path.toList) := by
  have h₁ := utf8Size_of_isPrintable e.first_printable
  have h₂ := utf8Size_of_isPrintable e.second_printable
  have hblank : (' ' : Char).utf8Size = 1 := rfl
  have hstop : ∀ l, splitBytes 0 l = some ([], l) := fun l => by cases l <;> rfl
  simp [codeAndPath?, Entry.code, splitBytes, h₁, h₂, hblank, hstop]

theorem hasSource_iff : hasSource e.code = true ↔ e.source.isSome = true := by
  rw [e.source_isSome]
  simp [hasSource, Entry.code]

theorem change_eq : Porcelain.change e.code (e.source.getD "") = e.change := by
  simp [Porcelain.change, Entry.change, Entry.code]

/-- No source follows a file that is not tracked. -/
theorem source_of_isUntracked (h : isUntracked e.code = true) : e.source = none := by
  rw [← Option.not_isSome_iff_eq_none, ← hasSource_iff]
  rcases Bool.or_eq_true_iff.mp h with h | h
  · rw [eq_of_beq h]
    decide
  · rw [eq_of_beq h]
    decide

theorem isUntracked_iff : isUntracked e.code = true ↔ e.code = ['?', '?'] ∨ e.code = ['!', '!'] := by
  simp [isUntracked]

/-- The records of one file are read, and no more. -/
theorem ofRecords_append (e : Entry) (rest : List (List Char)) :
    ofRecords (e.records ++ rest) = e.file?.toList ++ ofRecords rest := by
  rw [Entry.records, List.cons_append, ofRecords, codeAndPath?_record]
  by_cases hu : isUntracked e.code = true
  · have hfile : e.file? = none := if_pos (isUntracked_iff.mp hu)
    rw [source_of_isUntracked hu, hfile]
    simp [hu]
  · have hfile : e.file? = some ⟨e.path, e.change⟩ := if_neg (mt isUntracked_iff.mpr hu)
    rw [hfile, ← change_eq]
    cases hs : e.source with
    | none =>
      have hno : hasSource e.code = false := by
        rw [Bool.eq_false_iff, ne_eq, hasSource_iff, hs]
        decide
      simp [hu, hno]
    | some s =>
      have hhas : hasSource e.code = true := by rw [hasSource_iff, hs]; rfl
      simp [hu, hhas]

theorem ofRecords_flatMap (es : List Entry) : ofRecords (es.flatMap Entry.records) = es.filterMap Entry.file? := by
  induction es with
  | nil => rfl
  | cons e es ih =>
    rw [List.flatMap_cons, ofRecords_append, ih, List.filterMap_cons]
    cases e.file? <;> rfl

/-- A listing is read back, whatever stands in its paths. -/
theorem files_of_listing (es : List Entry) : files (listing es) = es.filterMap Entry.file? := by
  have htext : (listing es).toList = (es.flatMap Entry.records).flatMap (· ++ ['\x00']) := by
    rw [listing, String.toList_join, List.flatMap_map, List.flatMap_assoc]
    exact congrArg (fun f => es.flatMap f) (funext fun e => e.toList_text)
  have hfields : ∀ f ∈ es.flatMap Entry.records, f ≠ [] ∧ '\x00' ∉ f := by
    intro f hf
    obtain ⟨e, -, hf⟩ := List.mem_flatMap.mp hf
    exact e.mem_records hf
  rw [files, htext, filter_splitAt_flatMap hfields, ofRecords_flatMap]

/-- A source that looks like a record. -/
def disguised : Entry where
  first := 'R'
  second := 'M'
  path := " new"
  source := some "D  old"
  first_printable := by decide
  second_printable := by decide
  path_isField := by unfold IsField; decide
  source_isField := by unfold IsField; decide
  source_isSome := by decide

example : files (listing [disguised, disguised]) = [⟨" new", .renamed "D  old"⟩, ⟨" new", .renamed "D  old"⟩] := by
  decide +kernel

end WorkWaves.Git.Porcelain
