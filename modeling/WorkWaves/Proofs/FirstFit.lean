import WorkWaves.Proofs.Separation

/-!
# First fit splits no more than it must

Items are placed in order, so a group that refused an item held something that it overlaps with and that does not come
after it, and the group only grew since (`groups_refused`). An item of the last group therefore overlaps with something
in every other group, which bounds their number (`length_groups_le`). The notes are exact: what is contended is just
what two items at different places share (`mem_contended`), and a wave stays whole just if nothing in it overlaps.
-/

namespace WorkWaves

namespace Refine

variable {hintsOf : Item → Hints} {items items' : List Item} {gs : List (List Item)} {item : Item} {p : String}
  {d : Nat}

/-! ### What is contended -/

/-- Two items at different places overlap, and share a path. -/
def Contested (hintsOf : Item → Hints) (items : List Item) (p : String) : Prop :=
  ∃ (i j : Nat) (hi : i < items.length) (hj : j < items.length), i ≠ j ∧
    (hintsOf items[i]).overlaps (hintsOf items[j]) = true ∧ p ∈ (hintsOf items[i]).sharedPaths (hintsOf items[j])

/-- Two items overlap, and share a path. -/
def Contest (hintsOf : Item → Hints) (p : String) (a b : Item) : Prop :=
  (hintsOf a).overlaps (hintsOf b) = true ∧ p ∈ (hintsOf a).sharedPaths (hintsOf b)

theorem Contest.symm {a b : Item} (h : Contest hintsOf p a b) : Contest hintsOf p b a := by
  unfold Contest
  rw [Hints.overlaps_comm, Hints.sharedPaths_comm]
  exact h

theorem not_contested_iff : ¬ Contested hintsOf items p ↔ items.Pairwise fun a b => ¬ Contest hintsOf p a b := by
  rw [List.pairwise_iff_getElem]
  constructor
  · intro h i j hi hj hij hc
    exact h ⟨i, j, hi, hj, Nat.ne_of_lt hij, hc⟩
  · rintro h ⟨i, j, hi, hj, hij, hc⟩
    rcases Nat.lt_or_gt_of_ne hij with hlt | hgt
    · exact h i j hi hj hlt hc
    · exact h j i hj hi hgt (Contest.symm hc)

theorem Contested.congr (h : items.Perm items') : Contested hintsOf items p ↔ Contested hintsOf items' p := by
  rw [← not_iff_not, not_contested_iff, not_contested_iff]
  exact h.pairwise_iff fun hab hba => hab hba.symm

theorem mem_contended : p ∈ contended hintsOf items ↔ Contested hintsOf items p := by
  rw [← not_iff_not, not_contested_iff]
  induction items with
  | nil => simp [contended]
  | cons a items ih =>
    rw [mem_contended_cons, not_or, ih, List.pairwise_cons]
    refine and_congr_left' ⟨fun h b hb hc => h ⟨b, hb, hc⟩, ?_⟩
    rintro h ⟨b, hb, hc⟩
    exact h b hb hc

theorem Apart.congr (h : items.Perm items') : Apart hintsOf items ↔ Apart hintsOf items' :=
  h.pairwise_iff fun {a b} hab => (Hints.overlaps_comm (hintsOf b) (hintsOf a)).trans hab

theorem contended_isEmpty_iff : (contended hintsOf items).isEmpty = true ↔ Apart hintsOf items := by
  refine ⟨apart_of_contended, fun h => StringSet.isEmpty_iff.mpr fun p hp => ?_⟩
  obtain ⟨i, j, hi, hj, hij, hover, -⟩ := mem_contended.mp hp
  rw [h.ne hi hj hij] at hover
  cases hover

/-! ### What refuses an item -/

/-- Every item has something in each group before its own that does not come after it and overlaps with it. -/
def Refused (hintsOf : Item → Hints) (gs : List (List Item)) : Prop :=
  gs.Pairwise fun earlier later => ∀ b ∈ later, ∃ a ∈ earlier, a.InPlace b ∧ (hintsOf a).overlaps (hintsOf b) = true

/-- A group takes an item or holds something that the item overlaps with. -/
theorem place_refused (h : Refused hintsOf gs) (hlast : ∀ g ∈ gs, ∀ a ∈ g, a.InPlace item) :
    Refused hintsOf (place hintsOf item gs) := by
  induction gs with
  | nil => exact List.pairwise_singleton ..
  | cons group gs ih =>
    obtain ⟨hgroup, hgs⟩ := List.pairwise_cons.mp h
    obtain ⟨hbefore, hlast⟩ := List.forall_mem_cons.mp hlast
    unfold place
    split
    · -- The group only grows, so what refused the items of later groups is still there.
      refine List.pairwise_cons.mpr ⟨fun later hl b hb => ?_, hgs⟩
      obtain ⟨a, ha, hab⟩ := hgroup later hl b hb
      exact ⟨a, List.mem_append_left _ ha, hab⟩
    · next hfull =>
      refine List.pairwise_cons.mpr ⟨fun later hl b hb => ?_, ih hgs hlast⟩
      rcases mem_place hl with hl | ⟨g₀, hg₀, rfl, -⟩
      · exact hgroup later hl b hb
      · rcases List.mem_append.mp hb with hb | hb
        · rcases hg₀ with rfl | hg₀
          · cases hb
          · exact hgroup g₀ hg₀ b hb
        · obtain rfl := List.mem_singleton.mp hb
          obtain ⟨a, ha, hover⟩ : ∃ a ∈ group, (hintsOf a).overlaps (hintsOf b) = true := by simpa using hfull
          exact ⟨a, ha, hbefore a ha, hover⟩

theorem groups_refused (h : items.Pairwise Item.InPlace) : Refused hintsOf (groups hintsOf items) := by
  induction items using List.reverseRecOn with
  | nil => exact .nil
  | append_singleton items item ih =>
    obtain ⟨hitems, -, hlast⟩ := List.pairwise_append.mp h
    rw [groups_concat]
    refine place_refused (ih hitems) fun g hg a ha => ?_
    exact hlast a ((groups_sublist items g hg).subset ha) item (List.mem_singleton_self item)

theorem length_le_countP_flatten {f : Item → Bool} (h : ∀ g ∈ gs, ∃ a ∈ g, f a = true) :
    gs.length ≤ gs.flatten.countP f := by
  induction gs with
  | nil => exact Nat.le_refl 0
  | cons g gs ih =>
    obtain ⟨hg, hgs⟩ := List.forall_mem_cons.mp h
    have hpos := List.countP_pos_iff.mpr hg
    have hrest := ih hgs
    rw [List.length_cons, List.flatten_cons, List.countP_append]
    omega

/-- How many of the other items of a list an item overlaps with. -/
def rivals (hintsOf : Item → Hints) (items : List Item) (b : Item) : Nat :=
  (items.erase b).countP fun a => (hintsOf a).overlaps (hintsOf b)

theorem rivals_congr (h : items.Perm items') (b : Item) : rivals hintsOf items b = rivals hintsOf items' b :=
  (h.erase b).countP_eq _

/-- There is at most one group more than any item has rivals. -/
theorem length_groups_le (h : items.Pairwise Item.InPlace) (hd : ∀ b ∈ items, rivals hintsOf items b ≤ d) :
    (groups hintsOf items).length ≤ d + 1 := by
  rcases List.eq_nil_or_concat (groups hintsOf items) with hgs | ⟨front, last, hgs⟩
  · rw [hgs]
    exact Nat.zero_le _
  · rw [List.concat_eq_append] at hgs
    have hlast : last ∈ groups hintsOf items := hgs ▸ List.mem_append_right front (List.mem_singleton_self last)
    obtain ⟨b, hb⟩ := List.exists_mem_of_ne_nil last (ne_nil_of_mem_groups items last hlast)
    have hrefused : Refused hintsOf (front ++ [last]) := hgs ▸ groups_refused h
    have hfront : ∀ g ∈ front, ∃ a ∈ g, (hintsOf a).overlaps (hintsOf b) = true := fun g hg => by
      obtain ⟨a, ha, -, hover⟩ := (List.pairwise_append.mp hrefused).2.2 g hg last (List.mem_singleton_self last) b hb
      exact ⟨a, ha, hover⟩
    have hperm : (front.flatten ++ last).Perm items := by
      have hgroups : (groups hintsOf items).flatten.Perm items := groups_perm items
      rwa [hgs, List.flatten_append, List.flatten_singleton] at hgroups
    have hothers : rivals hintsOf items b = rivals hintsOf (front.flatten ++ b :: last.erase b) b :=
      rivals_congr (hperm.symm.trans ((List.perm_cons_erase hb).append_left _)) b
    have hcount : front.length ≤ rivals hintsOf items b := by
      rw [hothers, rivals_congr List.perm_middle, rivals, List.erase_cons_head, List.countP_append]
      exact Nat.le_add_right_of_le (length_le_countP_flatten hfront)
    have hb : b ∈ items := (groups_sublist items last hlast).subset hb
    rw [hgs, List.length_append, List.length_singleton]
    exact Nat.succ_le_succ (Nat.le_trans hcount (hd b hb))

/-- In one group alone nothing overlaps. -/
theorem two_le_length_groups (h : ¬ Apart hintsOf items) : 2 ≤ (groups hintsOf items).length := by
  by_contra hlen
  have hflat : Apart hintsOf (groups hintsOf items).flatten := by
    match hgs : groups hintsOf items with
    | [] => exact .nil
    | [g] =>
      rw [List.flatten_singleton]
      exact groups_apart items g (hgs ▸ List.mem_singleton_self g)
    | _ :: _ :: gs => simp [hgs] at hlen
  exact h ((Apart.congr (groups_perm items)).mp hflat)

/-! ### The parts of a wave -/

/-- A wave is split as little as first fit can, and the notes of its parts say just why. -/
structure FirstFit (hintsOf : Item → Hints) (w : Wave) (parts : List RefinedWave) : Prop where
  /-- There is one part without a note exactly if nothing in the wave overlaps. -/
  whole : (∃ part, parts = [part] ∧ part.note = none) ↔ Apart hintsOf w.items
  /-- Otherwise there are several, and each tells its place, their number and all that is contested in the wave. -/
  noted : ¬ Apart hintsOf w.items → 2 ≤ parts.length ∧ ∀ (k : Nat) (hk : k < parts.length), ∃ note,
    parts[k].note = some note ∧ note.subWaveIndex = k + 1 ∧ note.totalSubWaves = parts.length ∧
      note.contendedPaths.Pairwise (· < ·) ∧ ∀ p, p ∈ note.contendedPaths ↔ Contested hintsOf w.items p
  /-- Each part before that of an item holds something that does not come after the item and overlaps with it. -/
  refused : ∀ (j k : Nat) (hjk : j < k) (hk : k < parts.length), ∀ b ∈ parts[k].items, ∃ a ∈ parts[j].items,
    a.InPlace b ∧ (hintsOf a).overlaps (hintsOf b) = true
  /-- There is at most one part more than any item of the wave has rivals. -/
  few : ∀ d, (∀ b ∈ w.items, rivals hintsOf w.items b ≤ d) → parts.length ≤ d + 1

theorem splitWave_firstFit (start : Nat) (w : Wave) : FirstFit hintsOf w (splitWave hintsOf start w) := by
  have hperm := Item.inOrder_perm w.items
  have hsorted := Item.inOrder_inPlace w.items
  have hapart : Apart hintsOf (Item.inOrder w.items) ↔ Apart hintsOf w.items := Apart.congr hperm
  simp only [splitWave]
  split
  · next h =>
    have hw := hapart.mp (contended_isEmpty_iff.mp h)
    exact {
      whole := iff_of_true ⟨_, rfl, rfl⟩ hw
      noted := fun hnot => absurd hw hnot
      refused := fun j k hjk hk => by
        rw [List.length_singleton] at hk
        omega
      few := fun d _ => Nat.le_add_left 1 d }
  · next h =>
    have hw : ¬ Apart hintsOf w.items := fun hw => h (contended_isEmpty_iff.mpr (hapart.mpr hw))
    have htwo := two_le_length_groups (mt hapart.mp hw)
    let note (k : Nat) : ContentionNote :=
      ⟨(contended hintsOf (Item.inOrder w.items)).toList, k + 1, (groups hintsOf (Item.inOrder w.items)).length⟩
    refine {
      whole := iff_of_false ?_ hw
      noted := fun _ => ⟨?_, fun k hk => ⟨note k, ?_, rfl, ?_, ?_, fun p => ?_⟩⟩
      refused := fun j k hjk hk b hb => ?_
      few := fun d hd => ?_ }
    · rintro ⟨part, hpart, -⟩
      have hlen := congrArg List.length hpart
      rw [List.length_mapIdx, List.length_singleton] at hlen
      omega
    · rwa [List.length_mapIdx]
    · rw [List.getElem_mapIdx]
    · rw [List.length_mapIdx]
    · exact StringSet.increasing _
    · exact mem_contended.trans (Contested.congr hperm)
    · rw [List.length_mapIdx] at hk
      have hrefused : Refused hintsOf (groups hintsOf (Item.inOrder w.items)) := groups_refused hsorted
      simp only [List.getElem_mapIdx] at hb ⊢
      exact List.pairwise_iff_getElem.mp hrefused j k (Nat.lt_trans hjk hk) hk hjk b hb
    · rw [List.length_mapIdx]
      refine length_groups_le hsorted fun b hb => ?_
      rw [rivals_congr hperm]
      exact hd b (hperm.mem_iff.mp hb)

end Refine

open Refine

/-- Every wave is split by first fit, and a wave in which urgency and id tell all items apart may be listed in any
order. -/
theorem firstFit_of_refine (hints : StringMap Hints) :
    (∀ ws, ∃ blocks, refineWith hints ws = blocks.flatten ∧
      List.Forall₂ (fun w parts => Block hints.hintsOf w parts ∧ FirstFit hints.hintsOf w parts) ws blocks) ∧
    ∀ (pre post : List Wave) (w w' : Wave), w'.index = w.index → w'.items.Perm w.items →
      (w.items.map fun i => (i.priority, i.id)).Nodup →
      refineWith hints (pre ++ w' :: post) = refineWith hints (pre ++ w :: post) := by
  constructor
  · intro ws
    obtain ⟨blocks, he, hb⟩ := splitFrom_eq_flatten hints.hintsOf 0 ws
    refine ⟨blocks, he, hb.imp ?_⟩
    rintro w _ ⟨n, rfl⟩
    exact ⟨splitWave_block n w, splitWave_firstFit n w⟩
  · intro pre post w w' hindex hperm hn
    have hsplit (start : Nat) : splitWave hints.hintsOf start w' = splitWave hints.hintsOf start w := by
      rw [splitWave, splitWave, hindex, Item.inOrder_congr hperm.symm hn]
    have hrest (start : Nat) :
        splitFrom hints.hintsOf start (w' :: post) = splitFrom hints.hintsOf start (w :: post) := by
      rw [splitFrom, splitFrom, hsplit]
    show splitFrom hints.hintsOf 0 _ = splitFrom hints.hintsOf 0 _
    generalize 0 = start
    induction pre generalizing start with
    | nil => exact hrest start
    | cons v pre ih => rw [List.cons_append, List.cons_append, splitFrom, splitFrom, ih]

/-- `B` overlaps with `A` and with `C`, which do not overlap. -/
def chainHints : StringMap Hints :=
  .ofList [("A", { files := .ofList ["x"] }), ("B", { files := .ofList ["x", "y"] }), ("C", { files := .ofList ["y"] })]

theorem firstFit_of_chain :
    refineWith chainHints [⟨0, [{ id := "C" }, { id := "B" }, { id := "A" }]⟩] =
      refineWith chainHints [⟨0, [{ id := "A" }, { id := "B" }, { id := "C" }]⟩] ∧
    refineWith chainHints [⟨0, [{ id := "A" }, { id := "B" }, { id := "C" }]⟩] =
      [⟨⟨0, [{ id := "A" }, { id := "C" }]⟩, 0, some ⟨["x", "y"], 1, 2⟩⟩,
        ⟨⟨1, [{ id := "B" }]⟩, 0, some ⟨["x", "y"], 2, 2⟩⟩] := by
  refine ⟨(firstFit_of_refine chainHints).2 [] [] _ _ rfl (by decide) (by decide), ?_⟩
  have horder : Item.inOrder [{ id := "A" }, { id := "B" }, { id := "C" }] =
      [{ id := "A" }, { id := "B" }, { id := "C" }] := List.mergeSort_of_pairwise (by decide)
  rw [refineWith, splitFrom, splitFrom, splitWave, horder]
  decide +kernel

end WorkWaves
