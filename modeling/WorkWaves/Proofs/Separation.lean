import Mathlib.Data.List.Forall2
import Mathlib.Data.List.Induction
import WorkWaves.Proofs.Hints
import WorkWaves.Proofs.Item
import WorkWaves.Proofs.Refine

/-!
# Splitting waves separates what overlaps

Groups grow by one item at a time, and only by one that overlaps with nothing in the group (`mem_place`), so no two
items of a group overlap (`groups_apart`). Nothing moves within a group, so it is as sorted as the items were
(`groups_sublist`). A wave is left in one piece when no path is contended, and then nothing in it overlaps
(`apart_of_contended`). Together this makes the parts of a wave a `Block` of it (`splitWave_block`).
-/

namespace WorkWaves

namespace Refine

variable {hintsOf : Item → Hints} {items : List Item}

/-- Items of which no two overlap. -/
def Apart (hintsOf : Item → Hints) (items : List Item) : Prop :=
  items.Pairwise fun a b => (hintsOf a).overlaps (hintsOf b) = false

theorem Apart.ne {hintsOf : Item → Hints} {items : List Item} (h : Apart hintsOf items) {i j : Nat}
    (hi : i < items.length) (hj : j < items.length) (hne : i ≠ j) :
    (hintsOf items[i]).overlaps (hintsOf items[j]) = false := by
  rcases Nat.lt_or_gt_of_ne hne with hlt | hgt
  · exact List.pairwise_iff_getElem.mp h i j hi hj hlt
  · rw [Hints.overlaps_comm]
    exact List.pairwise_iff_getElem.mp h j i hj hi hgt

theorem mem_contended_cons {a : Item} {p : String} : p ∈ contended hintsOf (a :: items) ↔
    (∃ b ∈ items, (hintsOf a).overlaps (hintsOf b) = true ∧ p ∈ (hintsOf a).sharedPaths (hintsOf b)) ∨
      p ∈ contended hintsOf items := by
  have hfold (s : StringSet) : p ∈ items.foldl (fun s b =>
      if (hintsOf a).overlaps (hintsOf b) then s ∪ (hintsOf a).sharedPaths (hintsOf b) else s) s ↔
      (∃ b ∈ items, (hintsOf a).overlaps (hintsOf b) = true ∧ p ∈ (hintsOf a).sharedPaths (hintsOf b)) ∨ p ∈ s := by
    induction items generalizing s with
    | nil => simp
    | cons b items ih =>
      simp only [List.foldl_cons, ih, List.mem_cons, exists_eq_or_imp]
      split
      · next h => simp only [StringSet.mem_union, h, true_and, or_assoc, or_comm]
      · next h => simp [h]
  exact hfold _

/-- Without a contended path nothing overlaps. -/
theorem apart_of_contended (h : (contended hintsOf items).isEmpty = true) : Apart hintsOf items := by
  rw [StringSet.isEmpty_iff] at h
  induction items with
  | nil => exact .nil
  | cons a items ih =>
    refine List.pairwise_cons.mpr ⟨fun b hb => ?_, ih fun p hp => h p (mem_contended_cons.mpr (.inr hp))⟩
    refine Bool.eq_false_iff.mpr fun ho => ?_
    obtain ⟨p, hp⟩ := Hints.exists_mem_sharedPaths ho
    exact h p (mem_contended_cons.mpr (.inl ⟨b, hb, ho, hp⟩))

/-- A group after an item was placed is one of before, or a group of before or an empty one with the item behind,
which overlaps with nothing in it. -/
theorem mem_place {item : Item} {gs : List (List Item)} {g : List Item} (h : g ∈ place hintsOf item gs) :
    g ∈ gs ∨ ∃ g₀, (g₀ = [] ∨ g₀ ∈ gs) ∧ g = g₀ ++ [item] ∧
      ∀ m ∈ g₀, (hintsOf m).overlaps (hintsOf item) = false := by
  induction gs with
  | nil => exact .inr ⟨[], .inl rfl, List.mem_singleton.mp h, by simp⟩
  | cons group gs ih =>
    unfold place at h
    split at h
    · next hfree =>
      rcases List.mem_cons.mp h with rfl | h
      · exact .inr ⟨group, .inr (List.mem_cons_self ..), rfl, by simpa using hfree⟩
      · exact .inl (List.mem_cons_of_mem group h)
    · rcases List.mem_cons.mp h with rfl | h
      · exact .inl (List.mem_cons_self ..)
      · refine (ih h).imp (List.mem_cons_of_mem group) ?_
        rintro ⟨g₀, hg, hrest⟩
        exact ⟨g₀, hg.imp_right (List.mem_cons_of_mem group), hrest⟩

theorem groups_concat (items : List Item) (item : Item) :
    groups hintsOf (items ++ [item]) = place hintsOf item (groups hintsOf items) := by
  simp [groups]

theorem groups_apart (items : List Item) : ∀ g ∈ groups hintsOf items, Apart hintsOf g := by
  induction items using List.reverseRecOn with
  | nil => simp [groups]
  | append_singleton items item ih =>
    intro g hg
    rw [groups_concat] at hg
    rcases mem_place hg with hg | ⟨g₀, hg₀, rfl, hfree⟩
    · exact ih g hg
    · have h₀ : Apart hintsOf g₀ := by
        rcases hg₀ with rfl | hg₀
        · exact .nil
        · exact ih g₀ hg₀
      exact List.pairwise_append.mpr ⟨h₀, List.pairwise_singleton .., by simpa using hfree⟩

theorem groups_sublist (items : List Item) : ∀ g ∈ groups hintsOf items, g.Sublist items := by
  induction items using List.reverseRecOn with
  | nil => simp [groups]
  | append_singleton items item ih =>
    intro g hg
    rw [groups_concat] at hg
    rcases mem_place hg with hg | ⟨g₀, hg₀, rfl, -⟩
    · exact (ih g hg).trans (List.sublist_append_left ..)
    · have h₀ : g₀.Sublist items := by
        rcases hg₀ with rfl | hg₀
        · exact List.nil_sublist items
        · exact ih g₀ hg₀
      exact h₀.append_right [item]

/-- The parts of a wave: together they hold its items, within each nothing overlaps, and each is sorted. -/
structure Block (hintsOf : Item → Hints) (w : Wave) (parts : List RefinedWave) : Prop where
  nonempty : parts ≠ []
  perm : (parts.flatMap RefinedWave.items).Perm w.items
  apart : ∀ p ∈ parts, ∀ (i j : Nat) (hi : i < p.items.length) (hj : j < p.items.length), i ≠ j →
    (hintsOf p.items[i]).overlaps (hintsOf p.items[j]) = false
  sorted : ∀ p ∈ parts, p.items.Pairwise Item.InPlace
  parent : ∀ p ∈ parts, p.parentIndex = w.index

/-- What holds of all items in order or of all their groups holds of the parts of a wave. -/
theorem forall_mem_splitWave {start : Nat} {w : Wave} {P : List Item → Prop}
    (hwhole : (contended hintsOf (Item.inOrder w.items)).isEmpty = true → P (Item.inOrder w.items))
    (hgroups : ∀ g ∈ groups hintsOf (Item.inOrder w.items), P g) :
    ∀ p ∈ splitWave hintsOf start w, P p.items := by
  intro p hp
  simp only [splitWave] at hp
  split at hp
  · next h =>
    rw [List.mem_singleton.mp hp]
    exact hwhole h
  · obtain ⟨k, hk, rfl⟩ := List.mem_mapIdx.mp hp
    exact hgroups _ (List.getElem_mem hk)

theorem splitWave_ne_nil (start : Nat) (w : Wave) : splitWave hintsOf start w ≠ [] := by
  simp only [splitWave]
  split
  · exact List.cons_ne_nil _ _
  · next h =>
    intro he
    have hgroups : groups hintsOf (Item.inOrder w.items) = [] := List.mapIdx_eq_nil_iff.mp he
    have hperm : (groups hintsOf (Item.inOrder w.items)).flatten.Perm (Item.inOrder w.items) := groups_perm _
    have hitems : Item.inOrder w.items = [] := by simpa [hgroups] using hperm
    rw [hitems] at h
    exact h rfl

theorem ne_nil_of_mem_groups (items : List Item) : ∀ g ∈ groups hintsOf items, g ≠ [] := by
  induction items using List.reverseRecOn with
  | nil => simp [groups]
  | append_singleton items item ih =>
    intro g hg
    rw [groups_concat] at hg
    rcases mem_place hg with hg | ⟨g₀, -, rfl, -⟩
    · exact ih g hg
    · exact List.append_ne_nil_of_right_ne_nil _ (List.cons_ne_nil item [])

/-- A wave with items is split into parts with items. -/
theorem items_ne_nil_of_mem_splitFrom {start : Nat} {ws : List Wave} (h : ∀ w ∈ ws, w.items ≠ []) :
    ∀ p ∈ splitFrom hintsOf start ws, p.items ≠ [] := by
  induction ws generalizing start with
  | nil => simp [splitFrom]
  | cons w ws ih =>
    obtain ⟨hw, hws⟩ := List.forall_mem_cons.mp h
    refine List.forall_mem_append.mpr ⟨forall_mem_splitWave (fun _ he => hw ?_) (ne_nil_of_mem_groups _), ih hws⟩
    exact List.perm_nil.mp (he ▸ Item.inOrder_perm w.items).symm

theorem splitWave_block (start : Nat) (w : Wave) : Block hintsOf w (splitWave hintsOf start w) where
  nonempty := splitWave_ne_nil start w
  perm := (splitWave_isSplit start w).perm
  apart p hp _ _ hi hj hne :=
    (forall_mem_splitWave apart_of_contended (groups_apart _) p hp).ne hi hj hne
  sorted := forall_mem_splitWave (fun _ => Item.inOrder_inPlace w.items) fun g hg =>
    (Item.inOrder_inPlace w.items).sublist (groups_sublist _ g hg)
  parent := (splitWave_isSplit start w).parent

/-- Waves are split one by one. -/
theorem splitFrom_eq_flatten (hintsOf : Item → Hints) (start : Nat) (ws : List Wave) :
    ∃ blocks, splitFrom hintsOf start ws = blocks.flatten ∧
      List.Forall₂ (fun w parts => ∃ n, parts = splitWave hintsOf n w) ws blocks := by
  induction ws generalizing start with
  | nil => exact ⟨[], rfl, .nil⟩
  | cons w ws ih =>
    obtain ⟨blocks, he, hb⟩ := ih (start + (splitWave hintsOf start w).length)
    exact ⟨splitWave hintsOf start w :: blocks, by rw [splitFrom, he, List.flatten_cons], .cons ⟨start, rfl⟩ hb⟩

theorem splitFrom_blocks (start : Nat) (ws : List Wave) :
    ∃ blocks, splitFrom hintsOf start ws = blocks.flatten ∧ List.Forall₂ (Block hintsOf) ws blocks := by
  obtain ⟨blocks, he, hb⟩ := splitFrom_eq_flatten hintsOf start ws
  refine ⟨blocks, he, hb.imp ?_⟩
  rintro w _ ⟨n, rfl⟩
  exact splitWave_block n w

theorem getElem_splitFrom_index {start k : Nat} {ws : List Wave} (hk : k < (splitFrom hintsOf start ws).length) :
    (splitFrom hintsOf start ws)[k].wave.index = start + k := by
  have hindex : (splitFrom hintsOf start ws).map (·.wave.index) = _ := splitFrom_index start ws
  have h := congrArg (·[k]?) hindex
  simpa [List.getElem?_eq_getElem, hk] using h

section Congr

variable {hintsOf' : Item → Hints}

/-- Two ways to give items their hints that agree about some items. -/
def Agree (hintsOf hintsOf' : Item → Hints) (items : List Item) : Prop := ∀ i ∈ items, hintsOf i = hintsOf' i

theorem contended_congr (h : Agree hintsOf hintsOf' items) : contended hintsOf items = contended hintsOf' items := by
  induction items with
  | nil => rfl
  | cons a items ih =>
    have htail : Agree hintsOf hintsOf' items := fun i hi => h i (List.mem_cons_of_mem a hi)
    rw [contended, contended, ih htail, h a (List.mem_cons_self ..)]
    refine List.foldl_ext _ _ _ fun s b hb => ?_
    rw [htail b hb]

theorem place_congr {item : Item} {gs : List (List Item)} (hi : hintsOf item = hintsOf' item)
    (hg : ∀ g ∈ gs, Agree hintsOf hintsOf' g) : place hintsOf item gs = place hintsOf' item gs := by
  induction gs with
  | nil => rfl
  | cons g gs ih =>
    have hall : (g.all fun m => !(hintsOf m).overlaps (hintsOf item)) =
        g.all fun m => !(hintsOf' m).overlaps (hintsOf' item) := by
      rw [Bool.eq_iff_iff, List.all_eq_true, List.all_eq_true]
      exact forall₂_congr fun m hm => by rw [hi, hg g (List.mem_cons_self ..) m hm]
    rw [place, place, hall, ih fun g' hg' => hg g' (List.mem_cons_of_mem g hg')]

theorem groups_congr (h : Agree hintsOf hintsOf' items) : groups hintsOf items = groups hintsOf' items := by
  induction items using List.reverseRecOn with
  | nil => rfl
  | append_singleton items item ih =>
    have hinit : Agree hintsOf hintsOf' items := fun i hi => h i (List.mem_append_left _ hi)
    rw [groups_concat, groups_concat, ← ih hinit]
    exact place_congr (h item (by simp)) fun g hg i hi => hinit i ((groups_sublist items g hg).subset hi)

theorem splitFrom_congr {start : Nat} {ws : List Wave} (h : ∀ w ∈ ws, Agree hintsOf hintsOf' w.items) :
    splitFrom hintsOf start ws = splitFrom hintsOf' start ws := by
  induction ws generalizing start with
  | nil => rfl
  | cons w ws ih =>
    have hitems : Agree hintsOf hintsOf' (Item.inOrder w.items) := fun i hi =>
      h w (List.mem_cons_self ..) i ((Item.inOrder_perm w.items).mem_iff.mp hi)
    have hw : splitWave hintsOf start w = splitWave hintsOf' start w := by
      rw [splitWave, splitWave, contended_congr hitems, groups_congr hitems]
    rw [splitFrom, splitFrom, hw, ih fun w' hw' => h w' (List.mem_cons_of_mem w hw')]

end Congr

end Refine

open Refine

/-- The hints that a map gives to items; an item without any touches nothing. -/
def StringMap.hintsOf (hints : StringMap Hints) (i : Item) : Hints := (hints.get? i.id).getD {}

/-- Under ids that are all different the extracted hints are those that the items are split by. -/
theorem refine_eq_refineWith {ws : List Wave} (hn : ((ws.flatMap (·.items)).map (·.id)).Nodup)
    {hints : StringMap Hints} (h : ∀ w ∈ ws, ∀ i ∈ w.items, hints.get? i.id = some i.hints) :
    refine ws = refineWith hints ws := by
  refine splitFrom_congr fun w hw i hi => ?_
  have hmem : (i.id, i.hints) ∈ ws.flatMap fun w => w.items.map fun i => (i.id, i.hints) :=
    List.mem_flatMap.mpr ⟨w, hw, List.mem_map.mpr ⟨i, hi, rfl⟩⟩
  have hkeys : ((ws.flatMap fun w => w.items.map fun i => (i.id, i.hints)).map (·.1)).Nodup := by
    simpa [List.map_flatMap, Function.comp_def] using hn
  rw [StringMap.get?_ofList_of_mem hkeys hmem, h w hw i hi]

/-- A refinement is made of one block for each wave, in their order, and is numbered from zero. If all ids differ,
splitting by the descriptions is splitting by any hints that say the same as they do. -/
theorem blocks_of_refine (hints : StringMap Hints) (ws : List Wave) :
    (∃ blocks, refineWith hints ws = blocks.flatten ∧ List.Forall₂ (Block hints.hintsOf) ws blocks) ∧
    (∀ (k : Nat) (hk : k < (refineWith hints ws).length), (refineWith hints ws)[k].wave.index = k) ∧
    (((ws.flatMap (·.items)).map (·.id)).Nodup →
      (∀ w ∈ ws, ∀ i ∈ w.items, hints.get? i.id = some i.hints) → refine ws = refineWith hints ws) := by
  refine ⟨splitFrom_blocks 0 ws, fun k hk => ?_, fun hn => refine_eq_refineWith hn⟩
  exact (getElem_splitFrom_index hk).trans (Nat.zero_add k)

/-- Two items of one wave that touch the same file. -/
def contenders : Wave :=
  ⟨0, [{ id := "A", description := "`src/app.ts`" }, { id := "B", description := "`src/app.ts`" }]⟩

theorem refine_contenders : refine [contenders] =
    refineWith (.ofList (("C", {}) :: contenders.items.map fun i => (i.id, i.hints))) [contenders] :=
  (blocks_of_refine _ [contenders]).2.2 (by decide) fun w hw i hi => by
    rw [List.mem_singleton.mp hw] at hi
    exact StringMap.get?_ofList_of_mem (by decide) (List.mem_cons_of_mem _ (List.mem_map.mpr ⟨i, hi, rfl⟩))

end WorkWaves
