import WorkWaves.Proofs.Hints.Named
import WorkWaves.Proofs.Separation

/-!
# Items that name one file are kept apart

Two items whose hints share a file overlap, so the file is contended (`mem_contended_of_files`): every part of their
wave carries a note of it, and no part holds both. The hints of an item are those of the last item with its id
(`NamesLast`), which is the item itself where the ids are all different (`namesLast_of_nodup`).
-/

namespace WorkWaves

open Hints

namespace Refine

variable {hintsOf : Item → Hints} {items : List Item} {a b : Item} {path : String} {start : Nat} {w : Wave}
  {pre post : List Wave}

theorem overlaps_of_files {g h : Hints} (hg : path ∈ g.files) (hh : path ∈ h.files) : g.overlaps h = true :=
  overlaps_iff.mpr (.inl ⟨path, hg, hh⟩)

theorem mem_contended_of_files (ha : a ∈ items) (hb : b ∈ items) (hne : a ≠ b) (hpa : path ∈ (hintsOf a).files)
    (hpb : path ∈ (hintsOf b).files) : path ∈ contended hintsOf items := by
  have hshared : ∀ {c d : Item}, path ∈ (hintsOf c).files → path ∈ (hintsOf d).files →
      (hintsOf c).overlaps (hintsOf d) = true ∧ path ∈ (hintsOf c).sharedPaths (hintsOf d) := fun hc hd =>
    ⟨overlaps_of_files hc hd, mem_sharedPaths.mpr (.inl ⟨hc, hd⟩)⟩
  induction items with
  | nil => cases ha
  | cons c items ih =>
    rcases List.mem_cons.mp ha with rfl | ha'
    · have hb' : b ∈ items := (List.mem_cons.mp hb).resolve_left fun he => hne he.symm
      exact mem_contended_cons.mpr (.inl ⟨b, hb', hshared hpa hpb⟩)
    · rcases List.mem_cons.mp hb with rfl | hb'
      · exact mem_contended_cons.mpr (.inl ⟨a, ha', hshared hpb hpa⟩)
      · exact mem_contended_cons.mpr (.inr (ih ha' hb'))

/-- Every part of a wave carries a note of every contended path. -/
theorem note_of_mem_splitWave (h : path ∈ contended hintsOf (Item.inOrder w.items)) :
    ∀ part ∈ splitWave hintsOf start w, ∃ note, part.note = some note ∧ path ∈ note.contendedPaths := by
  intro part hpart
  simp only [splitWave] at hpart
  split at hpart
  · next hempty => exact absurd h (StringSet.isEmpty_iff.mp hempty path)
  · obtain ⟨k, hk, rfl⟩ := List.mem_mapIdx.mp hpart
    exact ⟨_, rfl, h⟩

/-- No part of a wave holds two items with the ids of items that overlap. -/
theorem not_mem_ids_of_overlaps (hhints : ∀ i j : Item, i.id = j.id → hintsOf i = hintsOf j) (hne : a.id ≠ b.id)
    (h : (hintsOf a).overlaps (hintsOf b) = true) :
    ∀ part ∈ splitWave hintsOf start w, ¬ (a.id ∈ part.ids ∧ b.id ∈ part.ids) := by
  rintro part hpart ⟨ha, hb⟩
  obtain ⟨a', ha', hida⟩ := List.mem_map.mp ha
  obtain ⟨b', hb', hidb⟩ := List.mem_map.mp hb
  obtain ⟨i, hi, rfl⟩ := List.getElem_of_mem ha'
  obtain ⟨j, hj, rfl⟩ := List.getElem_of_mem hb'
  have hij : i ≠ j := by
    rintro rfl
    exact hne (hida.symm.trans hidb)
  have hapart : (hintsOf part.wave.items[i]).overlaps (hintsOf part.wave.items[j]) = false :=
    (splitWave_block start w).apart part hpart i j hi hj hij
  rw [hhints _ a hida, hhints _ b hidb, h] at hapart
  cases hapart

theorem splitFrom_append (hintsOf : Item → Hints) (start : Nat) (pre post : List Wave) :
    ∃ n, splitFrom hintsOf start (pre ++ post) = splitFrom hintsOf start pre ++ splitFrom hintsOf n post := by
  induction pre generalizing start with
  | nil => exact ⟨start, rfl⟩
  | cons w pre ih =>
    obtain ⟨n, h⟩ := ih (start + (splitWave hintsOf start w).length)
    exact ⟨n, by rw [List.cons_append, splitFrom, h, splitFrom, List.append_assoc]⟩

end Refine

open Refine

/-- The last item of some waves that bears an id names a file. -/
def NamesLast (ws : List Wave) (id : String) (p : FilePath) : Prop :=
  ∃ front i back, ws.flatMap (·.items) = front ++ i :: back ∧ i.id = id ∧ (∀ j ∈ back, j.id ≠ id) ∧
    Names i.description p

theorem namesLast_of_nodup {ws : List Wave} {i : Item} {p : FilePath} (hn : ((ws.flatMap (·.items)).map (·.id)).Nodup)
    (hi : i ∈ ws.flatMap (·.items)) (h : Names i.description p) : NamesLast ws i.id p := by
  obtain ⟨front, back, he⟩ := List.append_of_mem hi
  refine ⟨front, i, back, he, rfl, fun j hj hid => ?_, h⟩
  rw [he, List.map_append, List.map_cons] at hn
  have hnot := (List.nodup_cons.mp (List.nodup_append.mp hn).2.1).1
  exact hnot (List.mem_map.mpr ⟨j, hj, hid⟩)

/-- The hints by which waves are split. -/
def descriptionHints (ws : List Wave) : StringMap Hints :=
  .ofList (ws.flatMap fun w => w.items.map fun i => (i.id, i.hints))

theorem mem_files_of_namesLast {ws : List Wave} {a : Item} {p : FilePath} (h : NamesLast ws a.id p) :
    p.path ∈ ((descriptionHints ws).hintsOf a).files := by
  obtain ⟨front, i, back, he, hid, hback, hnames⟩ := h
  have hentries : (ws.flatMap fun w => w.items.map fun i => (i.id, i.hints)) =
      (front ++ i :: back).map fun i => (i.id, i.hints) := by
    rw [← he, List.map_flatMap]
  have hnone : (back.map fun i => (i.id, i.hints)).reverse.lookup a.id = none := by
    refine List.lookup_eq_none_iff.mpr fun e hmem => ?_
    obtain ⟨j, hj, rfl⟩ := List.mem_map.mp (List.mem_reverse.mp hmem)
    exact bne_iff_ne.mpr fun hja => hback j hj hja.symm
  have hget : (descriptionHints ws).get? a.id = some i.hints := by
    rw [descriptionHints, StringMap.get?_ofList, hentries, List.map_append, List.map_cons, List.reverse_append,
      List.reverse_cons, List.lookup_append, List.lookup_append, hnone, hid, List.lookup_cons_self]
    rfl
  rw [StringMap.hintsOf, hget]
  exact mem_files_of_names hnames

variable {pre post : List Wave} {w : Wave} {a b : Item} {p : FilePath}

/-- The parts of a wave that holds two items with different ids, both of which name a file in a code span: no part
holds both ids, and every part carries a note of the file. What is said about an id is said by the last item that
bears it. -/
theorem parts_of_namesLast (ha : a ∈ w.items) (hb : b ∈ w.items) (hne : a.id ≠ b.id)
    (hnames : ∀ i ∈ [a, b], NamesLast (pre ++ w :: post) i.id p) :
    ∃ before parts after, refine (pre ++ w :: post) = before ++ parts ++ after ∧
      (before.flatMap RefinedWave.items).Perm (pre.flatMap (·.items)) ∧
      (parts.flatMap RefinedWave.items).Perm w.items ∧
      (after.flatMap RefinedWave.items).Perm (post.flatMap (·.items)) ∧
      ∀ part ∈ parts, part.parentIndex = w.index ∧ ¬ (a.id ∈ part.ids ∧ b.id ∈ part.ids) ∧
        ∃ note, part.note = some note ∧ p.path ∈ note.contendedPaths := by
  have hpa := mem_files_of_namesLast (hnames a (by simp))
  have hpb := mem_files_of_namesLast (hnames b (by simp))
  generalize hh : (descriptionHints (pre ++ w :: post)).hintsOf = hintsOf at hpa hpb
  have hhints : ∀ i j : Item, i.id = j.id → hintsOf i = hintsOf j := fun i j hij => by
    rw [← hh, StringMap.hintsOf, StringMap.hintsOf, hij]
  have hcontended : p.path ∈ contended hintsOf (Item.inOrder w.items) :=
    mem_contended_of_files ((Item.inOrder_perm _).mem_iff.mpr ha) ((Item.inOrder_perm _).mem_iff.mpr hb)
      (fun he => hne (congrArg Item.id he)) hpa hpb
  obtain ⟨n, hsplit⟩ := splitFrom_append hintsOf 0 pre (w :: post)
  have hrefine : refine (pre ++ w :: post) = splitFrom hintsOf 0 (pre ++ w :: post) := by rw [← hh]; rfl
  refine ⟨splitFrom hintsOf 0 pre, splitWave hintsOf n w, splitFrom hintsOf (n + (splitWave hintsOf n w).length) post,
    ?_, splitFrom_perm _ pre, (splitWave_isSplit n w).perm, splitFrom_perm _ post, fun part hpart => ⟨?_, ?_, ?_⟩⟩
  · rw [hrefine, hsplit, splitFrom, List.append_assoc]
  · exact (splitWave_isSplit n w).parent part hpart
  · exact not_mem_ids_of_overlaps hhints hne (overlaps_of_files hpa hpb) part hpart
  · exact note_of_mem_splitWave hcontended part hpart

section OneFile

/-- A file in a directory. -/
def oneFile : FilePath where
  directories := ["src".toList, "a-b".toList]
  name := "x_1".toList
  extension := "rs".toList
  directories_ne_nil := by decide
  directories_plain := by simp [isPlain]
  name_plain := by simp [isPlain]
  extension_ne_nil := by decide
  extension_alphanum := by simp

def firstNamer : Item := { id := "A", description := "`src/a-b/x_1.rs:12`, and more" }

def secondNamer : Item := { id := "B", description := "An odd ` tick;\n`././src/a-b/x_1.rs#L3-L9`" }

theorem firstNamer_names : Names firstNamer.description oneFile :=
  ⟨[], 0, _, ", and more".toList, rfl, .line (n := "12".toList) rfl, fun _ h => by cases h⟩

theorem secondNamer_names : Names secondNamer.description oneFile :=
  ⟨"An odd ` tick;\n".toList, 2, _, [], rfl, .bothAnchors (n := "3".toList) (m := "9".toList) rfl rfl,
    fun _ h => by cases h; rfl⟩

/-- The second of three waves holds both items, and one that touches nothing. -/
theorem parts_of_namers : ∃ before parts after,
    refine [⟨0, [{ id := "X" }]⟩, ⟨1, [secondNamer, { id := "C" }, firstNamer]⟩, ⟨2, [{ id := "Y" }]⟩] =
      before ++ parts ++ after ∧
    ∀ part ∈ parts, part.parentIndex = 1 ∧ ¬ ("A" ∈ part.ids ∧ "B" ∈ part.ids) ∧
      ∃ note, part.note = some note ∧ "src/a-b/x_1.rs" ∈ note.contendedPaths := by
  have hnames : ∀ i ∈ [firstNamer, secondNamer], NamesLast
      ([⟨0, [{ id := "X" }]⟩] ++ ⟨1, [secondNamer, { id := "C" }, firstNamer]⟩ :: [⟨2, [{ id := "Y" }]⟩]) i.id oneFile := by
    simp only [List.forall_mem_cons, List.not_mem_nil, false_implies, implies_true, and_true]
    exact ⟨namesLast_of_nodup (by decide) (by decide) firstNamer_names,
      namesLast_of_nodup (by decide) (by decide) secondNamer_names⟩
  obtain ⟨before, parts, after, he, -, -, -, hparts⟩ :=
    parts_of_namesLast (a := firstNamer) (b := secondNamer) (by decide) (by decide) (by decide) hnames
  exact ⟨before, parts, after, he, hparts⟩

/-- A wave in which a third item bears the id of the first one and names nothing. -/
def doubledWave : Wave := ⟨0, [firstNamer, secondNamer, { id := "A" }]⟩

/-- The last item with an id speaks for all that bear it, so the first two, which name one file, stay together. -/
theorem doubledWave_together : firstNamer ∈ doubledWave.items ∧ secondNamer ∈ doubledWave.items ∧
    firstNamer.id ≠ secondNamer.id ∧ Names firstNamer.description oneFile ∧ Names secondNamer.description oneFile ∧
    refine [doubledWave] = [⟨⟨0, [firstNamer, { id := "A" }, secondNamer]⟩, 0, none⟩] := by
  refine ⟨by decide, by decide, by decide, firstNamer_names, secondNamer_names, ?_⟩
  have horder : Item.inOrder doubledWave.items = [firstNamer, { id := "A" }, secondNamer] := by cbv
  rw [WorkWaves.refine, refineWith, splitFrom, splitFrom, splitWave, horder]
  decide +kernel

end OneFile

end WorkWaves
