import Mathlib.Data.List.Forall2
import WorkWaves.Proofs.Paths
import WorkWaves.Workspace

/-!
# The names of workspaces, and where they lead

Two items have the same branch, and the same path, when their ids are `Alike`: they differ in nothing but characters
that may not stand in names (`branchFor_eq_iff`). The path of a workspace leads into the directory of the workspaces
(`lead_pathFor`), unless the id names that directory itself or the one above it.
-/

namespace WorkWaves

namespace WorkspaceNames

variable {n : WorkspaceNames} {i j : String} {here : Place}

/-- A character that becomes a hyphen, or is one. -/
def IsFiller (c : Char) : Prop := c = '-' ∨ isPlain c = false

/-- Ids that differ in nothing but fillers. -/
def Alike (i j : String) : Prop := i.toList.Forall₂ (fun a b => a = b ∨ IsFiller a ∧ IsFiller b) j.toList

/-- An id that does not name the directory of the workspaces, or the one above it. -/
def IsProper (id : String) : Prop := id ≠ "" ∧ id ≠ "." ∧ id ≠ ".."

instance (id : String) : Decidable (IsProper id) := inferInstanceAs (Decidable (_ ∧ _ ∧ _))

theorem filled_eq_iff {a b : Char} : (if isPlain a then a else '-') = (if isPlain b then b else '-') ↔
    a = b ∨ IsFiller a ∧ IsFiller b := by
  unfold IsFiller
  by_cases ha : isPlain a = true <;> by_cases hb : isPlain b = true
  · simp only [ha, hb, if_true, Bool.true_eq_false, or_false]
    constructor
    · exact .inl
    · rintro (h | ⟨rfl, rfl⟩)
      · exact h
      · rfl
  · simp only [ha, hb, if_true, if_false, Bool.true_eq_false, or_false, Bool.false_eq_true, or_true, and_true]
    constructor
    · exact .inr
    · rintro (rfl | h)
      · exact absurd ha hb
      · exact h
  · simp only [ha, hb, if_true, if_false, Bool.true_eq_false, or_false, Bool.false_eq_true, or_true, true_and]
    constructor
    · exact fun h => .inr h.symm
    · rintro (rfl | h)
      · exact absurd hb ha
      · exact h.symm
  · simp [ha, hb]

theorem sanitize_eq_iff : sanitize i = sanitize j ↔ Alike i j := by
  unfold sanitize Alike
  rw [String.ofList_inj, ← List.forall₂_eq_eq_eq, List.forall₂_map_left_iff, List.forall₂_map_right_iff]
  simp only [filled_eq_iff]

theorem branchFor_eq_iff : n.branchFor i = n.branchFor j ↔ Alike i j := by
  unfold branchFor
  rw [String.append_right_inj, sanitize_eq_iff]

theorem slash_not_mem_sanitize (id : String) : '/' ∉ (sanitize id).toList := by
  unfold sanitize
  rw [String.toList_ofList, List.mem_map]
  rintro ⟨c, -, hc⟩
  split at hc
  · next h =>
    subst hc
    cases h
  · cases hc

theorem eq_of_sanitize_eq {s : String} (h : sanitize i = s) (hs : '-' ∉ s.toList) : i = s := by
  subst h
  unfold sanitize at hs ⊢
  rw [String.toList_ofList] at hs
  -- A character that is changed leaves a hyphen.
  have hall : ∀ c ∈ i.toList, (if isPlain c then c else '-') = c := by
    intro c hc
    by_cases hp : isPlain c = true
    · rw [if_pos hp]
    · have hmem : '-' ∈ i.toList.map fun c => if isPlain c then c else '-' := List.mem_map.mpr ⟨c, hc, if_neg hp⟩
      exact absurd hmem hs
  rw [List.map_congr_left hall, List.map_id', String.ofList_toList]

theorem component?_sanitize (h : IsProper i) : Path.component? (sanitize i).toList = some (.name (sanitize i)) := by
  have hne : ∀ l : List Char, '-' ∉ l → i ≠ String.ofList l → (sanitize i).toList ≠ l := by
    intro l hl hi he
    refine hi (eq_of_sanitize_eq ?_ (by simpa using hl))
    rw [← he, String.ofList_toList]
  obtain ⟨hempty, hpoint, hpoints⟩ := h
  have h₁ := hne [] (by simp) hempty
  have h₂ := hne ['.'] (by simp) hpoint
  have h₃ := hne ['.', '.'] (by simp) hpoints
  simp [Path.component?, h₁, h₂, h₃]

theorem components_pathFor (h : IsProper i) :
    Path.components (n.pathFor i) = Path.components n.root ++ [.name (sanitize i)] := by
  have hs := slash_not_mem_sanitize i
  have hc := component?_sanitize h
  have hpoint : sanitize i ≠ "." := by
    intro hs
    rw [hs] at hc
    cases hc
  unfold pathFor
  rw [Path.components_join (Path.isAbsolute_eq_false hs) fun _ => Path.components_eq_rest hs hpoint,
    Path.rest_eq hs, hc]
  rfl

/-- A workspace lies in the directory of the workspaces, under the name of its item. -/
theorem lead_pathFor (h : IsProper i) : Path.lead here (n.pathFor i) = Path.lead here n.root ++ [sanitize i] := by
  unfold Path.lead
  rw [components_pathFor h, List.foldl_append]
  rfl

theorem components_pathFor_eq_iff (hi : IsProper i) (hj : IsProper j) :
    Path.components (n.pathFor i) = Path.components (n.pathFor j) ↔ Alike i j := by
  rw [components_pathFor hi, components_pathFor hj, List.append_cancel_left_eq]
  simp [sanitize_eq_iff]

end WorkspaceNames

end WorkWaves
