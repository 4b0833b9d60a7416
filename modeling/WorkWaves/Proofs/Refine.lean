import WorkWaves.Refine
import WorkWaves.Proofs.Graph.Waves
import WorkWaves.Proofs.Item

/-!
# Splitting waves loses nothing

`IsSplit`: the parts of a wave hold its items, each once, and are numbered without gaps. Splitting all waves
of a plan therefore keeps their items (`splitFrom_perm`), numbers the parts one after the other
(`splitFrom_index`) and leaves the items in turn (`splitFrom_inTurn`).
-/

namespace WorkWaves

namespace Refine

variable {hintsOf : Item → Hints}

theorem place_perm (item : Item) (gs : List (List Item)) :
    (place hintsOf item gs).flatten.Perm (item :: gs.flatten) := by
  induction gs with
  | nil => simp [place]
  | cons group gs ih =>
    unfold place
    split
    · simp only [List.flatten_cons, List.append_assoc, List.singleton_append]
      exact List.perm_middle
    · simp only [List.flatten_cons]
      exact (ih.append_left group).trans List.perm_middle

theorem foldl_place_perm (is : List Item) (gs : List (List Item)) :
    (is.foldl (fun gs i => place hintsOf i gs) gs).flatten.Perm (is ++ gs.flatten) := by
  induction is generalizing gs with
  | nil => simp
  | cons i is ih =>
    refine (ih _).trans ?_
    exact ((place_perm i gs).append_left is).trans List.perm_middle

theorem groups_perm (is : List Item) : (groups hintsOf is).flatten.Perm is := by
  simpa [groups] using foldl_place_perm is []

/-- The parts of a wave: together they hold its items, and they are numbered from `start` on. -/
structure IsSplit (start : Nat) (w : Wave) (parts : List RefinedWave) : Prop where
  perm : (parts.flatMap RefinedWave.items).Perm w.items
  index : parts.map (·.wave.index) = List.range' start parts.length
  parent : ∀ p ∈ parts, p.parentIndex = w.index

theorem flatMap_items_mapIdx (start parent total : Nat) (paths : List String) (gs : List (List Item)) :
    (gs.mapIdx fun k g => (⟨⟨start + k, g⟩, parent, some ⟨paths, k + 1, total⟩⟩ : RefinedWave)).flatMap
      RefinedWave.items = gs.flatten := by
  rw [List.flatMap]
  congr 1
  apply List.ext_getElem <;> simp [RefinedWave.items]

theorem splitWave_isSplit (start : Nat) (w : Wave) : IsSplit start w (splitWave hintsOf start w) := by
  simp only [splitWave]
  split
  · refine ⟨?_, by simp, by simp⟩
    simpa [RefinedWave.items] using Item.inOrder_perm w.items
  · refine ⟨?_, ?_, ?_⟩
    · rw [flatMap_items_mapIdx]
      exact (groups_perm _).trans (Item.inOrder_perm w.items)
    · apply List.ext_getElem <;> simp
    · intro p hp
      obtain ⟨k, hk, rfl⟩ := List.mem_mapIdx.mp hp
      rfl

theorem splitFrom_index (start : Nat) (ws : List Wave) :
    (splitFrom hintsOf start ws).map (·.wave.index) = List.range' start (splitFrom hintsOf start ws).length := by
  induction ws generalizing start with
  | nil => rfl
  | cons w ws ih =>
    simp only [splitFrom, List.map_append, List.length_append]
    rw [(splitWave_isSplit start w).index, ih, ← List.range'_append_1]

theorem splitFrom_perm (start : Nat) (ws : List Wave) :
    ((splitFrom hintsOf start ws).flatMap RefinedWave.items).Perm (ws.flatMap (·.items)) := by
  induction ws generalizing start with
  | nil => rfl
  | cons w ws ih =>
    simp only [splitFrom, List.flatMap_append, List.flatMap_cons]
    exact (splitWave_isSplit start w).perm.append (ih _)

theorem splitFrom_inTurn {waits : Item → String → Prop} {there : String → Prop} (start : Nat) {ws : List Wave}
    (h : InTurn waits there (ws.map (·.items))) :
    InTurn waits there ((splitFrom hintsOf start ws).map RefinedWave.items) := by
  induction ws generalizing start there with
  | nil => trivial
  | cons w ws ih =>
    obtain ⟨hi, hr⟩ := h
    have hp : ((splitWave hintsOf start w).flatMap RefinedWave.items).Perm w.items := (splitWave_isSplit start w).perm
    rw [splitFrom, List.map_append, InTurn.append_iff]
    refine ⟨.of_forall fun is his i hi' b hb => ?_, ih _ (hr.mono fun id => Or.imp_right fun hid => ?_)⟩
    · obtain ⟨part, hpart, rfl⟩ := List.mem_map.mp his
      exact hi i (hp.mem_iff.mp (List.mem_flatMap.mpr ⟨part, hpart, hi'⟩)) b hb
    · exact (hp.map (·.id)).mem_iff.mpr hid

end Refine

/-- The hints of a refined plan do not matter for its items: they are those of the waves. -/
theorem refine_perm (ws : List Wave) : ((refine ws).flatMap RefinedWave.items).Perm (ws.flatMap (·.items)) :=
  Refine.splitFrom_perm 0 ws

theorem refine_index (ws : List Wave) : (refine ws).map (·.wave.index) = List.range (refine ws).length := by
  rw [List.range_eq_range']
  exact Refine.splitFrom_index 0 ws

theorem refine_inTurn {waits : Item → String → Prop} {there : String → Prop} {ws : List Wave}
    (h : InTurn waits there (ws.map (·.items))) : InTurn waits there ((refine ws).map RefinedWave.items) :=
  Refine.splitFrom_inTurn 0 h

end WorkWaves
