import WorkWaves.Hints.Basic

/-!
# Overlap and the paths it is about

`overlaps_iff` and `mem_sharedPaths` say without reference to lists when two items overlap and which paths they
share. Both treat the two sides alike, and there is an overlap exactly when there is a shared path, which is a path of
one side that the other is about as well (`report_of_overlap`).
-/

namespace WorkWaves

theorem StringSet.isEmpty_iff {s : StringSet} : s.isEmpty = true ↔ ∀ x, ¬ x ∈ s := by
  simp only [isEmpty, List.isEmpty_iff, List.eq_nil_iff_forall_not_mem, mem_def]

theorem StringSet.isEmpty_eq_false_iff {s : StringSet} : s.isEmpty = false ↔ ∃ x, x ∈ s :=
  List.isEmpty_eq_false_iff_exists_mem

theorem StringSet.any_iff {s : StringSet} {p : String → Bool} : s.any p = true ↔ ∃ x ∈ s, p x = true := by
  simp only [any, List.any_eq_true, mem_def]

/-- Of two paths that lie in one another neither lies deeper. -/
theorem Path.isWithin_antisymm {a b : String} (h : isWithin a b = true) (h' : isWithin b a = true) : a = b := by
  unfold isWithin at h h'
  rw [Bool.or_eq_true, beq_iff_eq, List.isPrefixOf_iff_prefix] at h h'
  rcases h with h | h
  · exact h
  · rcases h' with h' | h'
    · exact h'.symm
    · have hab := h.length_le
      have hba := h'.length_le
      rw [List.length_append, List.length_singleton] at hab hba
      omega

namespace Hints

open WorkWaves.Path

variable {a b : Hints} {dirs files : StringSet} {d e p : String}

theorem directoriesHit_iff : directoriesHit dirs b = true ↔
    (∃ d ∈ dirs, ∃ f ∈ b.files, isWithin f d = true) ∨
      ∃ d ∈ dirs, ∃ e ∈ b.directories, isWithin e d = true ∨ isWithin d e = true := by
  simp only [directoriesHit, StringSet.any_iff, Bool.or_eq_true, and_or_left, exists_or]

/-- Two items overlap over a file that both name, over a file of one in a directory of the other, or over nested
directories. -/
theorem overlaps_iff : a.overlaps b = true ↔
    (∃ f, f ∈ a.files ∧ f ∈ b.files) ∨
    (∃ d ∈ a.directories, ∃ e ∈ b.directories, isWithin d e = true ∨ isWithin e d = true) ∨
    (∃ f ∈ a.files, ∃ d ∈ b.directories, isWithin f d = true) ∨
    ∃ f ∈ b.files, ∃ d ∈ a.directories, isWithin f d = true := by
  have hfiles : (!(a.files ∩ b.files).isEmpty) = true ↔ ∃ f, f ∈ a.files ∧ f ∈ b.files := by
    simp only [Bool.not_eq_true', StringSet.isEmpty_eq_false_iff, StringSet.mem_inter]
  rw [overlaps, Bool.or_eq_true, Bool.or_eq_true, hfiles, directoriesHit_iff, directoriesHit_iff]
  constructor
  · rintro ((h | ⟨d, hd, f, hf, hw⟩ | ⟨d, hd, e, he, hw⟩) | ⟨d, hd, f, hf, hw⟩ | ⟨d, hd, e, he, hw⟩)
    · exact .inl h
    · exact .inr (.inr (.inr ⟨f, hf, d, hd, hw⟩))
    · exact .inr (.inl ⟨d, hd, e, he, hw.symm⟩)
    · exact .inr (.inr (.inl ⟨f, hf, d, hd, hw⟩))
    · exact .inr (.inl ⟨e, he, d, hd, hw⟩)
  · rintro (h | ⟨d, hd, e, he, hw⟩ | ⟨f, hf, d, hd, hw⟩ | ⟨f, hf, d, hd, hw⟩)
    · exact .inl (.inl h)
    · exact .inl (.inr (.inr ⟨d, hd, e, he, hw.symm⟩))
    · exact .inr (.inl ⟨d, hd, f, hf, hw⟩)
    · exact .inl (.inr (.inl ⟨d, hd, f, hf, hw⟩))

theorem overlaps_comm (a b : Hints) : a.overlaps b = b.overlaps a := by
  have swap {a b : Hints} (h : a.overlaps b = true) : b.overlaps a = true := by
    rw [overlaps_iff] at h ⊢
    rcases h with ⟨f, hf, hf'⟩ | ⟨d, hd, e, he, hw⟩ | h | h
    · exact .inl ⟨f, hf', hf⟩
    · exact .inr (.inl ⟨e, he, d, hd, hw.symm⟩)
    · exact .inr (.inr (.inr h))
    · exact .inr (.inr (.inl h))
  exact Bool.eq_iff_iff.mpr ⟨swap, swap⟩

theorem outer?_isSome : (outer? d e).isSome = true ↔ isWithin d e = true ∨ isWithin e d = true := by
  unfold outer?
  split
  · next h => simp [h]
  · next h => split <;> simp_all

theorem outer?_comm (d e : String) : outer? d e = outer? e d := by
  unfold outer?
  by_cases hde : isWithin d e = true
  · by_cases hed : isWithin e d = true
    · rw [isWithin_antisymm hde hed]
    · rw [if_pos hde, if_neg hed, if_pos hde]
  · rw [if_neg hde, if_neg hde]

theorem mem_filesWithin : p ∈ filesWithin files dirs ↔ p ∈ files ∧ ∃ d ∈ dirs, isWithin p d = true := by
  rw [filesWithin, StringSet.mem_filter, StringSet.any_iff]

theorem mem_sharedPaths : p ∈ a.sharedPaths b ↔
    (p ∈ a.files ∧ p ∈ b.files) ∨
    (∃ d ∈ a.directories, ∃ e ∈ b.directories, outer? d e = some p) ∨
    (p ∈ a.files ∧ ∃ d ∈ b.directories, isWithin p d = true) ∨
    (p ∈ b.files ∧ ∃ d ∈ a.directories, isWithin p d = true) := by
  simp only [sharedPaths, StringSet.mem_union, StringSet.mem_inter, mem_filesWithin, StringSet.mem_ofList,
    List.mem_flatMap, List.mem_filterMap, or_assoc]
  rfl

theorem sharedPaths_comm (a b : Hints) : a.sharedPaths b = b.sharedPaths a := by
  refine StringSet.ext_mem fun p => ?_
  rw [mem_sharedPaths, mem_sharedPaths]
  refine or_congr and_comm (or_congr ?_ or_comm)
  constructor <;>
    · rintro ⟨d, hd, e, he, hp⟩
      exact ⟨e, he, d, hd, (outer?_comm e d).trans hp⟩

/-- There is something to report about every overlap. -/
theorem exists_mem_sharedPaths (h : a.overlaps b = true) : ∃ p, p ∈ a.sharedPaths b := by
  simp only [mem_sharedPaths]
  rcases overlaps_iff.mp h with ⟨f, hf⟩ | ⟨d, hd, e, he, hw⟩ | ⟨f, hf, hw⟩ | ⟨f, hf, hw⟩
  · exact ⟨f, .inl hf⟩
  · obtain ⟨p, hp⟩ := Option.isSome_iff_exists.mp (outer?_isSome.mpr hw)
    exact ⟨p, .inr (.inl ⟨d, hd, e, he, hp⟩)⟩
  · exact ⟨f, .inr (.inr (.inl ⟨hf, hw⟩))⟩
  · exact ⟨f, .inr (.inr (.inr ⟨hf, hw⟩))⟩

/-! ### The report of an overlap -/

theorem outer?_eq_some :
    outer? d e = some p ↔ (p = e ∧ isWithin d e = true) ∨ (p = d ∧ isWithin e d = true) := by
  constructor
  · intro h
    unfold outer? at h
    split at h
    · next hde => exact .inl ⟨(Option.some.inj h).symm, hde⟩
    · split at h
      · next hed => exact .inr ⟨(Option.some.inj h).symm, hed⟩
      · cases h
  · rintro (⟨rfl, h⟩ | ⟨rfl, h⟩)
    · rw [outer?, if_pos h]
    · rw [outer?_comm, outer?, if_pos h]

/-- What is shared makes the two sides overlap. -/
theorem overlaps_of_mem_sharedPaths (h : p ∈ a.sharedPaths b) : a.overlaps b = true := by
  rcases mem_sharedPaths.mp h with ⟨ha, hb⟩ | ⟨d, hd, e, he, hp⟩ | ⟨ha, hw⟩ | ⟨hb, hw⟩
  · exact overlaps_iff.mpr (.inl ⟨p, ha, hb⟩)
  · have hw := outer?_isSome.mp (Option.isSome_of_eq_some hp)
    exact overlaps_iff.mpr (.inr (.inl ⟨d, hd, e, he, hw⟩))
  · exact overlaps_iff.mpr (.inr (.inr (.inl ⟨p, ha, hw⟩)))
  · exact overlaps_iff.mpr (.inr (.inr (.inr ⟨p, hb, hw⟩)))

/-- A path of one side that the other side is about too: a file that it names or has a directory for, or a directory
that one of its own is or lies in. -/
def Concerns (a b : Hints) (p : String) : Prop :=
  (p ∈ a.files ∧ (p ∈ b.files ∨ ∃ d ∈ b.directories, Within p d)) ∨
    (p ∈ a.directories ∧ ∃ d ∈ b.directories, Within d p)

theorem Concerns.mem_sharedPaths (h : Concerns a b p) : p ∈ a.sharedPaths b := by
  refine Hints.mem_sharedPaths.mpr ?_
  rcases h with ⟨ha, hb | ⟨d, hd, hw⟩⟩ | ⟨ha, d, hd, hw⟩
  · exact .inl ⟨ha, hb⟩
  · exact .inr (.inr (.inl ⟨ha, d, hd, isWithin_iff.mpr hw⟩))
  · exact .inr (.inl ⟨p, ha, d, hd, outer?_eq_some.mpr (.inr ⟨rfl, isWithin_iff.mpr hw⟩)⟩)

theorem concerns_of_mem_sharedPaths (h : p ∈ a.sharedPaths b) : Concerns a b p ∨ Concerns b a p := by
  rcases mem_sharedPaths.mp h with ⟨ha, hb⟩ | ⟨d, hd, e, he, hp⟩ | ⟨ha, d, hd, hw⟩ | ⟨hb, d, hd, hw⟩
  · exact .inl (.inl ⟨ha, .inl hb⟩)
  · rcases outer?_eq_some.mp hp with ⟨rfl, hw⟩ | ⟨rfl, hw⟩
    · exact .inr (.inr ⟨he, d, hd, isWithin_iff.mp hw⟩)
    · exact .inl (.inr ⟨hd, e, he, isWithin_iff.mp hw⟩)
  · exact .inl (.inl ⟨ha, .inr ⟨d, hd, isWithin_iff.mp hw⟩⟩)
  · exact .inr (.inl ⟨hb, .inr ⟨d, hd, isWithin_iff.mp hw⟩⟩)

/-- The test and the report treat both sides alike, there is an overlap just when something is reported, and what is
reported are the paths of either side that the other one is about. -/
theorem report_of_overlap (a b : Hints) :
    a.overlaps b = b.overlaps a ∧ a.sharedPaths b = b.sharedPaths a ∧
      (a.overlaps b = true ↔ (a.sharedPaths b).isEmpty = false) ∧
      ∀ p, p ∈ a.sharedPaths b ↔ Concerns a b p ∨ Concerns b a p := by
  have hreport : a.overlaps b = true ↔ ∃ p, p ∈ a.sharedPaths b :=
    ⟨exists_mem_sharedPaths, fun ⟨_, hp⟩ => overlaps_of_mem_sharedPaths hp⟩
  refine ⟨overlaps_comm a b, sharedPaths_comm a b, ?_, fun p => ⟨concerns_of_mem_sharedPaths, ?_⟩⟩
  · rw [StringSet.isEmpty_eq_false_iff]
    exact hreport
  · rintro (h | h)
    · exact h.mem_sharedPaths
    · rw [sharedPaths_comm]
      exact h.mem_sharedPaths

end Hints

end WorkWaves
