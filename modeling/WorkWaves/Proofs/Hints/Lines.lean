import WorkWaves.Proofs.Hints
import WorkWaves.Proofs.Hints.Marker

/-!
# Hints of lines that are added

A marker does not end with its line: as long as nothing stands behind its colon it goes on into the lines that follow
and takes their first word, also one that begins a marker of its own. Where that does not happen (`runsInto`), the
markers of two texts with a line feed between them are those of each (`marked_lines`), and those of the first text are
kept in any case (`mem_occurrences_marker_lines`). With what is known of code spans and bare words, `ofText_lines` says
what becomes of the hints when lines are added to a text.
-/

namespace WorkWaves.Hints

open WorkWaves.Text

variable {before : Option Char} {b cs r raw u : List Char} {k n : Nat}

/-! ### Markers -/

theorem marker_eq_some (h : marker before cs = some (raw, n)) :
    ∃ r y, heading? cs = some r ∧ announcement r = some (raw, y) ∧ n = cs.length - y.length := by
  rw [marker_eq] at h
  split at h
  · obtain ⟨r, hr, h⟩ := Option.bind_eq_some_iff.mp h
    obtain ⟨p, hp, he⟩ := Option.map_eq_some_iff.mp h
    cases he
    exact ⟨r, p.2, hr, hp, rfl⟩
  · cases h

theorem marker_eq_none (h : heading? cs = none) : marker before cs = none := by
  rw [marker_eq, h]
  split <;> rfl

theorem marker_eq_none_of_announcement (h : heading? cs = some r) (hword : announcement r = none) :
    marker before cs = none := by
  rw [marker_eq, h, Option.bind_some, hword]
  split <;> rfl

theorem marker_le_length (h : marker before cs = some (raw, n)) : n ≤ cs.length := by
  obtain ⟨_, _, -, -, rfl⟩ := marker_eq_some h
  exact Nat.sub_le ..

/-- A marker is found with the text behind it. -/
theorem occurrences_marker_of_heading? (hbefore : before = none ∨ before = some '\n') (h : heading? cs = some r)
    {y : List Char} (hword : announcement r = some (raw, y)) :
    ∃ x, x ≠ [] ∧ cs = x ++ y ∧ occurrences marker before 0 cs = raw :: occurrences marker x.getLast? 0 y := by
  obtain ⟨front, -, rfl⟩ := exists_front h
  obtain ⟨s, hs⟩ := announcement_suffix hword
  dsimp only at hs
  have hcs : front ++ ':' :: r = (front ++ ':' :: s) ++ y := by
    rw [← hs, List.append_assoc, List.cons_append]
  have hne : front ++ ':' :: s ≠ [] := by simp
  have hfound : marker before ((front ++ ':' :: s) ++ y) = some (raw, (front ++ ':' :: s).length) := by
    rw [← hcs, marker_eq, if_pos hbefore, h, Option.bind_some, hword, hcs, Option.map_some, List.length_append,
      Nat.add_sub_cancel]
  refine ⟨_, hne, hcs, ?_⟩
  rw [hcs]
  exact occurrences_of_find hfound hne

/-- A text without a colon holds no marker. -/
theorem occurrences_marker_eq_nil (h : ':' ∉ b) : occurrences marker before k b = [] := by
  refine List.eq_nil_iff_forall_not_mem.mpr fun raw hraw => ?_
  obtain ⟨x, y, before', n, rfl, hfound⟩ := exists_of_mem_occurrences hraw
  obtain ⟨r, -, hr, -⟩ := marker_eq_some hfound
  obtain ⟨front, -, rfl⟩ := exists_front hr
  exact h (by simp)

/-- Behind a colon that is open there is no marker, so that of all that a text announces nothing is a path. -/
theorem eq_stars_of_open (h : heading? b = some r) (hopen : Open r) (hraw : raw ∈ occurrences marker before k b) :
    raw = ['*', '*'] := by
  obtain ⟨front, hfront, rfl⟩ := exists_front h
  obtain ⟨x, y, before', n, he, hfound⟩ := exists_of_mem_occurrences hraw
  obtain ⟨s, z, hs, hword, -⟩ := marker_eq_some hfound
  obtain ⟨front', -, rfl⟩ := exists_front hs
  have hrs : r = s := by
    rw [← List.append_assoc] at he
    rcases append_eq_append_cons he with ⟨l, hl, -⟩ | ⟨l, -, hl⟩
    · exact absurd (hl ▸ by simp : ':' ∈ front) hfront.colon_not_mem
    · cases l with
      | nil => exact (List.cons.inj hl).2
      | cons c l =>
        have hr : r = l ++ ':' :: s := (List.cons.inj hl).2
        exact absurd (hr ▸ by simp : ':' ∈ r) hopen.colon_not_mem
  subst hrs
  exact announcement_of_open hopen hword

/-- Whether the marker that a text begins with goes on behind its end, where `next` is the first character behind it
that is not blank: nothing stands behind its colon, or its colon is yet to come. -/
def goesOn (next : Option Char) (cs : List Char) : Bool :=
  match heading? cs with
  | some r => (dropBlanks (dropStars (dropBlanks r))).isEmpty
  | none => next == some ':' && (heading? (cs ++ [':'])).isSome

/-- Whether a marker at the start of a line goes on behind the end of the text. -/
def swallows (next : Option Char) : Option Char → List Char → Bool
  | _, [] => false
  | before, c :: r =>
    (decide (before = none ∨ before = some '\n') && goesOn next (c :: r)) || swallows next (some c) r

theorem not_open_of_goesOn {next : Option Char} (h : goesOn next cs = false) (hr : heading? cs = some r) : ¬ Open r := by
  intro hopen
  simp only [goesOn, hr, show dropBlanks (dropStars (dropBlanks r)) = [] from hopen] at h
  cases h

theorem not_front_of_goesOn {next : Option Char} (h : goesOn next cs = false) (hnext : next = some ':') :
    ¬ Front cs := by
  intro hfront
  have hnone : heading? cs = none := by
    refine Option.eq_none_iff_forall_ne_some.mpr fun r hr => ?_
    obtain ⟨front, -, rfl⟩ := exists_front hr
    exact hfront.colon_not_mem (by simp)
  simp only [goesOn, hnone, hnext, hfront.heading? []] at h
  cases h

/-- The text behind the end of a line does not change the marker at the front of the text, unless it goes on there. -/
theorem marker_append_newline (hopen : ∀ r, heading? b = some r → ¬ Open r)
    (hnone : heading? b = none → heading? (b ++ '\n' :: u) = none) (before : Option Char) :
    marker before (b ++ '\n' :: u) = marker before b := by
  cases hb : heading? b with
  | none => rw [marker_eq_none hb, marker_eq_none (hnone hb)]
  | some r =>
    rw [marker_eq, marker_eq, heading?_append hb, hb, Option.bind_some, Option.bind_some,
      announcement_append (hopen r hb), Option.map_map]
    have hlen : ∀ y : List Char, (b ++ '\n' :: u).length - (y ++ '\n' :: u).length = b.length - y.length := by
      intro y
      rw [List.length_append, List.length_append]
      omega
    simp only [Function.comp_def, hlen]

/-- What a marker in a text announces it announces also when lines are added, or it is no path. -/
theorem mem_occurrences_marker_lines (u : List Char) (h : raw ∈ occurrences marker before k b) :
    raw ∈ occurrences marker before k (b ++ '\n' :: u) ∨ raw = ['*', '*'] := by
  induction b generalizing before k with
  | nil => cases h
  | cons c b ih =>
    cases k with
    | succ k => exact ih h
    | zero =>
      by_cases hopen : ∃ r, heading? (c :: b) = some r ∧ Open r
      · obtain ⟨r, hr, hopen⟩ := hopen
        exact .inr (eq_stars_of_open hr hopen h)
      have hnone : heading? (c :: b) = none → heading? (c :: b ++ '\n' :: u) = none := by
        intro hb
        refine Option.eq_none_iff_forall_ne_some.mpr fun r hr => ?_
        rw [occurrences_marker_eq_nil (heading?_of_lines hb hr).1] at h
        cases h
      have hmarker := marker_append_newline (fun r hr ho => hopen ⟨r, hr, ho⟩) hnone before
      rw [List.cons_append] at hmarker ⊢
      rw [occurrences_zero] at h ⊢
      rw [hmarker]
      split at h
      · rcases List.mem_cons.mp h with rfl | h
        · exact .inl (List.mem_cons_self ..)
        · exact (ih h).imp_left (List.mem_cons_of_mem _)
      · exact ih h

/-- A marker that begins in blanks before the next line is the one that this line begins with. -/
theorem occurrences_marker_newline (hbefore : before = none ∨ before = some '\n')
    (hz : heading? (b ++ '\n' :: u) = some r) (hu : heading? u = some r) {p : List Char × List Char}
    (hword : announcement r = some p) :
    occurrences marker before 0 (b ++ '\n' :: u) = marked u := by
  obtain ⟨x, -, hx, hocc⟩ := occurrences_marker_of_heading? hbefore hz hword
  obtain ⟨x', hne, hx', hocc'⟩ := occurrences_marker_of_heading? (.inl rfl) hu hword
  have hlast : x.getLast? = x'.getLast? := by
    have he : x = b ++ '\n' :: x' := by
      refine (List.append_left_inj p.2).mp ?_
      rw [← hx, List.append_assoc, List.cons_append, ← hx']
    obtain ⟨d, hd⟩ := Option.isSome_iff_exists.mp (List.getLast?_isSome.mpr hne)
    rw [he, List.getLast?_append, List.getLast?_cons, hd]
    rfl
  rw [marked, hocc, hocc', hlast]

/-- A line feed at the front of a text takes no marker from it. -/
theorem occurrences_marker_emptyLine (before : Option Char) (u : List Char) :
    occurrences marker before 0 ('\n' :: u) = marked u := by
  have hnone : marker before ('\n' :: u) = none → occurrences marker before 0 ('\n' :: u) = marked u := by
    intro h
    rw [occurrences_of_none h]
    exact occurrences_congr (by rw [marker_eq, marker_eq, if_pos (.inr rfl), if_pos (.inl rfl)])
  by_cases hbefore : before = none ∨ before = some '\n'
  · cases hz : heading? ('\n' :: u) with
    | none => exact hnone (marker_eq_none hz)
    | some r =>
      cases hword : announcement r with
      | none => exact hnone (marker_eq_none_of_announcement hz hword)
      | some p =>
        obtain ⟨-, ⟨hfront, -⟩ | hu⟩ := heading?_of_lines (b := []) rfl hz
        · cases hfront.heading? []
        · exact occurrences_marker_newline (b := []) hbefore hz hu hword
  · exact hnone (by rw [marker_eq, if_neg hbefore])

/-- Where no marker goes on behind a line feed, the markers behind it are those of the text behind it. -/
theorem occurrences_marker_lines (h : swallows (dropBlanks u).head? before b = false) (hk : k ≤ b.length) :
    occurrences marker before k (b ++ '\n' :: u) = occurrences marker before k b ++ marked u := by
  induction b generalizing before k with
  | nil =>
    obtain rfl := Nat.le_zero.mp hk
    exact occurrences_marker_emptyLine before u
  | cons c b ih =>
    obtain ⟨hhere, hrest⟩ := Bool.or_eq_false_iff.mp h
    cases k with
    | succ k => exact ih hrest (Nat.le_of_succ_le_succ hk)
    | zero =>
      have hnone : marker before (c :: b) = none → marker before (c :: b ++ '\n' :: u) = none →
          occurrences marker before 0 (c :: b ++ '\n' :: u) = occurrences marker before 0 (c :: b) ++ marked u := by
        intro hb hz
        rw [List.cons_append] at hz ⊢
        rw [occurrences_of_none hb, occurrences_of_none hz]
        exact ih hrest (Nat.zero_le _)
      by_cases hbefore : before = none ∨ before = some '\n'
      · have hgoes : goesOn (dropBlanks u).head? (c :: b) = false := by
          simpa [hbefore] using hhere
        by_cases hcross : heading? (c :: b) = none → heading? (c :: b ++ '\n' :: u) = none
        · have hmarker := marker_append_newline (fun r hr => not_open_of_goesOn hgoes hr) hcross before
          cases hb : marker before (c :: b) with
          | none => exact hnone hb (hmarker.trans hb)
          | some p =>
            have hle := marker_le_length hb
            rw [List.cons_append] at hmarker ⊢
            rw [List.length_cons] at hle
            rw [occurrences_of_some hb, occurrences_of_some (hmarker.trans hb), ih hrest (by omega), List.cons_append]
        · obtain ⟨hb, hz⟩ := Classical.not_imp.mp hcross
          obtain ⟨r, hz⟩ := Option.ne_none_iff_exists'.mp hz
          obtain ⟨hcolon, ⟨hfront, hnext⟩ | hu⟩ := heading?_of_lines hb hz
          · exact absurd hfront (not_front_of_goesOn hgoes hnext)
          · cases hword : announcement r with
            | none => exact hnone (marker_eq_none hb) (marker_eq_none_of_announcement hz hword)
            | some p =>
              rw [occurrences_marker_eq_nil hcolon, List.nil_append]
              exact occurrences_marker_newline hbefore hz hu hword
      · have hno : ∀ cs, marker before cs = none := fun cs => by rw [marker_eq, if_neg hbefore]
        exact hnone (hno _) (hno _)

theorem marked_lines {t u : List Char} (h : swallows (dropBlanks u).head? none t = false) :
    marked (t ++ '\n' :: u) = marked t ++ marked u :=
  occurrences_marker_lines h (Nat.zero_le _)

/-! ### Hints -/

/-- The files and directories of one side are among those of the other. -/
instance : SemilatticeSup Hints where
  le a b := (∀ f ∈ a.files, f ∈ b.files) ∧ ∀ d ∈ a.directories, d ∈ b.directories
  le_refl _ := ⟨fun _ h => h, fun _ h => h⟩
  le_trans _ _ _ h h' := ⟨fun f hf => h'.1 f (h.1 f hf), fun d hd => h'.2 d (h.2 d hd)⟩
  le_antisymm a b h h' := by
    cases a
    cases b
    congr 1
    · exact StringSet.ext_mem fun f => ⟨h.1 f, h'.1 f⟩
    · exact StringSet.ext_mem fun d => ⟨h.2 d, h'.2 d⟩
  sup a b := ⟨a.files ∪ b.files, a.directories ∪ b.directories⟩
  le_sup_left _ _ := ⟨fun _ h => StringSet.mem_union.mpr (.inl h), fun _ h => StringSet.mem_union.mpr (.inl h)⟩
  le_sup_right _ _ := ⟨fun _ h => StringSet.mem_union.mpr (.inr h), fun _ h => StringSet.mem_union.mpr (.inr h)⟩
  sup_le _ _ _ h h' := ⟨fun f hf => (StringSet.mem_union.mp hf).elim (h.1 f) (h'.1 f),
    fun d hd => (StringSet.mem_union.mp hd).elim (h.2 d) (h'.2 d)⟩

/-- What is contended stays contended when there are more hints. -/
theorem overlaps_mono {a a' b : Hints} (h : a ≤ a') (hab : a.overlaps b = true) : a'.overlaps b = true := by
  rw [overlaps_iff] at hab ⊢
  rcases hab with ⟨f, hf, hb⟩ | ⟨d, hd, e, he, hw⟩ | ⟨f, hf, hw⟩ | ⟨f, hf, d, hd, hw⟩
  · exact .inl ⟨f, h.1 f hf, hb⟩
  · exact .inr (.inl ⟨d, h.2 d hd, e, he, hw⟩)
  · exact .inr (.inr (.inl ⟨f, h.1 f hf, hw⟩))
  · exact .inr (.inr (.inr ⟨f, hf, d, h.2 d hd, hw⟩))

/-- What a list of words names. -/
def named (bareDirectories : Bool) (raws : List (List Char)) : Hints := raws.foldl (addNamed bareDirectories) {}

variable {d : Bool}

theorem empty_le (h : Hints) : ({} : Hints) ≤ h :=
  ⟨fun _ hf => absurd hf StringSet.not_mem_empty, fun _ he => absurd he StringSet.not_mem_empty⟩

theorem union_insert (s t : StringSet) (a : String) : (s ∪ t).insert a = s ∪ t.insert a := by
  refine StringSet.ext_mem fun x => ?_
  simp only [StringSet.mem_insert, StringSet.mem_union, or_left_comm]

theorem addFile_sup (g h : Hints) (f : String) : (g ⊔ h).addFile f = g ⊔ h.addFile f :=
  congrArg (Hints.mk · (g.directories ∪ h.directories)) (union_insert g.files h.files f)

theorem addDirectory_sup (g h : Hints) (e : String) : (g ⊔ h).addDirectory e = g ⊔ h.addDirectory e :=
  congrArg (Hints.mk (g.files ∪ h.files)) (union_insert g.directories h.directories e)

theorem addPath_sup (g h : Hints) (path : List Char) : (g ⊔ h).addPath d path = g ⊔ h.addPath d path := by
  unfold addPath
  split
  · dsimp only
    split
    · rfl
    · exact addDirectory_sup ..
  · dsimp only
    split
    · simp only [addFile_sup, apply_ite (g ⊔ ·)]
    · simp only [addDirectory_sup, apply_ite (g ⊔ ·)]

theorem addNamed_sup (g h : Hints) (raw : List Char) : (g ⊔ h).addNamed d raw = g ⊔ h.addNamed d raw := by
  unfold addNamed
  split
  · exact addPath_sup ..
  · rfl

theorem foldl_addNamed (h : Hints) (raws : List (List Char)) : raws.foldl (addNamed d) h = h ⊔ named d raws := by
  have hsup : ∀ g : Hints, raws.foldl (addNamed d) (h ⊔ g) = h ⊔ raws.foldl (addNamed d) g := by
    induction raws with
    | nil => exact fun _ => rfl
    | cons raw raws ih =>
      intro g
      rw [List.foldl_cons, List.foldl_cons, addNamed_sup, ih]
  have he := hsup {}
  rwa [sup_eq_left.mpr (empty_le h)] at he

theorem named_append (raws raws' : List (List Char)) : named d (raws ++ raws') = named d raws ⊔ named d raws' := by
  rw [named, List.foldl_append, foldl_addNamed]
  rfl

theorem named_cons (raw : List Char) (raws : List (List Char)) : named d (raw :: raws) = named d [raw] ⊔ named d raws :=
  named_append [raw] raws

theorem ofText_eq (text : String) : ofText text =
    named true (codeSpans text.toList) ⊔ named true (marked text.toList) ⊔ named false (bareWords text.toList) := by
  rw [ofText, foldl_addNamed, foldl_addNamed]
  rfl

theorem named_of_none {raw : List Char} (h : normalize raw = none) : named d [raw] = {} := by
  simp only [named, List.foldl_cons, List.foldl_nil, addNamed, h]

theorem named_of_path {raw path : List Char} (h : normalize raw = some path) :
    named d [raw] = ({} : Hints).addPath d path := by
  simp only [named, List.foldl_cons, List.foldl_nil, addNamed, h]

theorem named_le_of_mem {raw : List Char} {raws : List (List Char)} (hmem : raw ∈ raws) : named d [raw] ≤ named d raws := by
  obtain ⟨l, r, rfl⟩ := List.append_of_mem hmem
  rw [named_append, named_cons raw r]
  exact le_sup_of_le_right le_sup_left

/-- Words that are no paths name nothing. -/
theorem named_mono {raws raws' : List (List Char)} (hsub : ∀ raw ∈ raws, raw ∈ raws' ∨ normalize raw = none) :
    named d raws ≤ named d raws' := by
  induction raws with
  | nil => exact empty_le _
  | cons raw raws ih =>
    obtain ⟨hraw, hrest⟩ := List.forall_mem_cons.mp hsub
    rw [named_cons]
    refine sup_le ?_ (ih hrest)
    rcases hraw with hmem | hnone
    · exact named_le_of_mem hmem
    · rw [named_of_none hnone]
      exact empty_le _

/-- Whether a marker in one text goes on into the text that follows in the next line. -/
def runsInto (t u : String) : Bool := swallows (dropBlanks u.toList).head? none t.toList

/-- No hint of a text is lost when lines are added to it, and no contention; nor is any hint lost that the lines give in
code spans and bare words. When no marker goes on into the lines, the hints are those of the text and of the lines. -/
theorem ofText_lines (t u : String) :
    ofText t ≤ ofText (t ++ "\n" ++ u) ∧
    (∀ b : Hints, (ofText t).overlaps b = true → (ofText (t ++ "\n" ++ u)).overlaps b = true) ∧
    named true (codeSpans u.toList) ⊔ named false (bareWords u.toList) ≤ ofText (t ++ "\n" ++ u) ∧
    (runsInto t u = false → ofText (t ++ "\n" ++ u) = ofText t ⊔ ofText u) := by
  have hchars : (t ++ "\n" ++ u).toList = t.toList ++ '\n' :: u.toList := by simp
  have htext : ofText (t ++ "\n" ++ u) =
      (named true (codeSpans t.toList) ⊔ named true (codeSpans u.toList)) ⊔
        named true (marked (t.toList ++ '\n' :: u.toList)) ⊔
        (named false (bareWords t.toList) ⊔ named false (bareWords u.toList)) := by
    rw [ofText_eq, hchars, codeSpans_lines, bareWords_lines, named_append, named_append]
  have hmarked : ∀ raw ∈ marked t.toList, raw ∈ marked (t.toList ++ '\n' :: u.toList) ∨ normalize raw = none := by
    intro raw hraw
    rcases mem_occurrences_marker_lines u.toList hraw with hmem | rfl
    · exact .inl hmem
    · exact .inr rfl
  have hle : ofText t ≤ ofText (t ++ "\n" ++ u) := by
    rw [htext, ofText_eq]
    exact sup_le_sup (sup_le_sup le_sup_left (named_mono hmarked)) le_sup_left
  refine ⟨hle, fun b => overlaps_mono hle, ?_, fun hruns => ?_⟩
  · rw [htext]
    exact sup_le_sup (le_sup_of_le_left le_sup_right) le_sup_right
  · rw [htext, marked_lines hruns, named_append, ofText_eq, ofText_eq, sup_sup_sup_comm (named true _), sup_sup_sup_comm]

theorem ofText_finished_lines :
    runsInto "File: lib/x.py" "Path: src/" = false ∧
      ofText ("File: lib/x.py" ++ "\n" ++ "Path: src/") = ofText "File: lib/x.py" ⊔ ofText "Path: src/" :=
  have hruns : runsInto "File: lib/x.py" "Path: src/" = false := by decide +kernel
  ⟨hruns, (ofText_lines ..).2.2.2 hruns⟩

/-- A marker without a path takes the start of the marker in the next line for its path. -/
theorem lost_behind_openMarker :
    "src" ∈ (ofText "Path: src/").directories ∧ ¬ "src" ∈ (ofText ("File:" ++ "\n" ++ "Path: src/")).directories := by
  decide +kernel

end WorkWaves.Hints
