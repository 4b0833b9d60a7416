import WorkWaves.Proofs.Files

/-!
# Where paths lead

The components of a path that goes on from a directory are those of the directory and those of the rest
(`Path.components_join`), so what is found on it depends on the directory alone, whatever path leads there
(`FileTree.locate_join_congr`). `Path.lead` is the place to which a path leads whatever is there.
-/

namespace WorkWaves

theorem Text.splitAt_eq_splitOnP (f : Char → Bool) (l : List Char) : splitAt f l = l.splitOnP f := by
  induction l with
  | nil => rfl
  | cons c l ih =>
    rw [splitAt, List.splitOnP_cons_eq_if_modifyHead, ih]
    obtain ⟨p, ps, hl⟩ := List.exists_cons_of_ne_nil (List.splitOnP_ne_nil f l)
    rw [hl]
    rfl

namespace Path

variable {a b p s : String} {here place : Place} {c : Component} {cs : List Component}

/-- The component that stands before the parts. -/
def start : List (List Char) → List Component
  | [] :: _ :: _ => [.root]
  | ['.'] :: _ => [.here]
  | _ => []

/-- The components of a path that goes on from somewhere. -/
def rest (p : String) : List Component := (Text.splitAt (· == '/') p.toList).filterMap component?

theorem components_eq (p : String) : components p = start (Text.splitAt (· == '/') p.toList) ++ rest p := rfl

theorem exists_splitAt_eq_cons (l : List Char) : ∃ p ps, Text.splitAt (· == '/') l = p :: ps := by
  rw [Text.splitAt_eq_splitOnP]
  exact List.exists_cons_of_ne_nil (List.splitOnP_ne_nil _ l)

/-- How a path starts is seen from its first part, if it has two. -/
theorem start_append {p : List Char} {ps qs : List (List Char)} (h : p = [] → ps ≠ []) :
    start (p :: ps ++ qs) = start (p :: ps) := by
  cases p with
  | nil =>
    obtain ⟨q, qs, rfl⟩ := List.exists_cons_of_ne_nil (h rfl)
    rfl
  | cons c p =>
    by_cases hp : c :: p = ['.']
    · rw [hp]
      rfl
    · simp [start, hp]

theorem ne_nil_of_splitAt_cons {l p : List Char} {ps : List (List Char)} (hl : l ≠ [])
    (h : Text.splitAt (· == '/') l = p :: ps) (hp : p = []) : ps ≠ [] := by
  obtain ⟨c, l, rfl⟩ := List.exists_cons_of_ne_nil hl
  obtain ⟨q, qs, hl⟩ := exists_splitAt_eq_cons l
  rw [Text.splitAt_eq_splitOnP] at h hl
  rw [List.splitOnP_cons_eq_if_modifyHead, hl] at h
  split at h
  · rw [← (List.cons.inj h).2]
    simp
  · rw [List.modifyHead_cons, hp] at h
    cases h

/-- An absolute path starts at the root. -/
theorem components_of_isAbsolute (h : isAbsolute p = true) : components p = .root :: rest p := by
  obtain ⟨l, hl⟩ : ∃ l, p.toList = '/' :: l := List.head?_eq_some_iff.mp (beq_iff_eq.mp h)
  obtain ⟨q, qs, hq⟩ := exists_splitAt_eq_cons l
  have hparts : Text.splitAt (· == '/') p.toList = [] :: q :: qs := by
    rw [hl, Text.splitAt, hq]
    rfl
  rw [components_eq, hparts]
  rfl

theorem components_of_relative (h : isAbsolute p = false) : components p = rest p ∨ components p = .here :: rest p := by
  rw [components_eq]
  cases hp : p.toList with
  | nil => exact .inl rfl
  | cons c l =>
    have hc : (c == '/') = false := by simpa [isAbsolute, hp] using h
    obtain ⟨q, qs, hq⟩ := exists_splitAt_eq_cons l
    -- The first part is not empty, so what may stand before the parts is a point.
    rw [Text.splitAt, hc, hq]
    by_cases hpoint : c :: q = ['.']
    · exact .inr (by simp [start, hpoint])
    · exact .inl (by simp [start, hpoint])

theorem components_slash (a s : String) :
    components (a ++ "/" ++ s) = (if a = "" then [.root] else components a) ++ rest s := by
  have hparts : Text.splitAt (· == '/') (a ++ "/" ++ s).toList =
      Text.splitAt (· == '/') a.toList ++ Text.splitAt (· == '/') s.toList := by
    have htext : (a ++ "/" ++ s).toList = a.toList ++ '/' :: s.toList := by simp
    simp only [Text.splitAt_eq_splitOnP]
    rw [htext, List.splitOnP_append_cons _ _ rfl]
  have hrest : rest (a ++ "/" ++ s) = rest a ++ rest s := by
    unfold rest
    rw [hparts, List.filterMap_append]
  rw [components_eq, hrest, hparts]
  by_cases ha : a = ""
  · subst ha
    obtain ⟨q, qs, hq⟩ := exists_splitAt_eq_cons s.toList
    rw [hq]
    rfl
  · obtain ⟨p, ps, hp⟩ := exists_splitAt_eq_cons a.toList
    have hne : a.toList ≠ [] := by simpa using ha
    -- An empty first part stands for the root if another one follows, and in a path that is not empty one does.
    rw [if_neg ha, components_eq, hp, start_append (ne_nil_of_splitAt_cons hne hp), List.append_assoc]

/-- A slash at the end of a directory is the one that would be set. -/
theorem join_eq (hs : isAbsolute s = false) (ha : a ≠ "") :
    ∃ b, join a s = b ++ "/" ++ s ∧ components a = if b = "" then [.root] else components b := by
  unfold join
  rw [hs, if_neg Bool.false_ne_true]
  split
  · next h => exact absurd (by simpa using h) ha
  · next h =>
    obtain ⟨l, hl⟩ := List.getLast?_eq_some_iff.mp h
    obtain rfl : a = String.ofList l ++ "/" := by
      rw [← String.toList_inj, hl]
      simp
    have hempty := components_slash (String.ofList l) ""
    have hrest : rest "" = [] := rfl
    rw [String.append_empty, hrest, List.append_nil] at hempty
    exact ⟨_, rfl, hempty⟩
  · exact ⟨a, rfl, (if_neg ha).symm⟩

theorem components_join (hs : isAbsolute s = false) (ha : a = "" → components s = rest s) :
    components (join a s) = components a ++ rest s := by
  by_cases hempty : a = ""
  · subst hempty
    have hjoin : join "" s = s := by
      unfold join
      rw [hs]
      exact String.empty_append
    rw [hjoin, ha rfl]
    rfl
  · obtain ⟨b, hb, hcomponents⟩ := join_eq hs hempty
    rw [hb, components_slash, hcomponents]

theorem splitAt_eq_singleton (hs : '/' ∉ s.toList) : Text.splitAt (· == '/') s.toList = [s.toList] := by
  rw [Text.splitAt_eq_splitOnP]
  refine List.splitOnP_eq_singleton fun c hc => ?_
  rw [beq_eq_false_iff_ne]
  rintro rfl
  exact hs hc

theorem rest_eq (hs : '/' ∉ s.toList) : rest s = (component? s.toList).toList := by
  unfold rest
  rw [splitAt_eq_singleton hs, List.filterMap_cons]
  cases component? s.toList <;> rfl

theorem components_eq_rest (hs : '/' ∉ s.toList) (hpoint : s ≠ ".") : components s = rest s := by
  have hne : s.toList ≠ ['.'] := fun h => hpoint (String.toList_inj.mp h)
  rw [components_eq, splitAt_eq_singleton hs]
  simp [start, hne]

theorem isAbsolute_eq_false (hs : '/' ∉ s.toList) : isAbsolute s = false := by
  unfold isAbsolute
  rw [beq_eq_false_iff_ne]
  exact fun h => hs (List.mem_of_head? h)

/-! ### The place to which a path leads -/

/-- Where a component leads from a place, if there is a directory. -/
def turn (place : Place) : Component → Place
  | .root => []
  | .here => place
  | .up => place.dropLast
  | .name s => place ++ [s]

/-- The place that a path leads to, if all the directories on the way are there. -/
def lead (here : Place) (p : String) : Place := (components p).foldl turn here

theorem lead_of_isAbsolute (h : isAbsolute p = true) : lead here p = lead [] p := by
  unfold lead
  rw [components_of_isAbsolute h]
  rfl

end Path

namespace FileTree

variable {t : FileTree} {path d r r' : String} {p q place : Place} {c : Component} {cs : List Component}

theorem eq_turn_of_step (h : t.step p c = .ok q) : q = Path.turn p c := by
  unfold step at h
  split at h
  · cases h
  · cases h
  · cases c with
    | root | here | up =>
      cases h
      rfl
    | name s =>
      simp only at h
      split at h
      · cases h
        rfl
      · cases h

theorem eq_foldl_turn_of_step (h : cs.foldlM t.step p = .ok q) : q = cs.foldl Path.turn p := by
  induction cs generalizing p with
  | nil => exact (Except.ok.inj h).symm
  | cons c cs ih =>
    rw [List.foldlM_cons] at h
    cases hs : t.step p c with
    | error e => simp [hs, bind, Except.bind] at h
    | ok r =>
      rw [hs] at h
      rw [List.foldl_cons, ← eq_turn_of_step hs]
      exact ih h

/-- What is found on a path is at the place to which it leads. -/
theorem eq_lead_of_locate (h : t.locate path = .ok place) : place = Path.lead t.here path :=
  eq_foldl_turn_of_step (locate_eq_ok.mp h).2.2.1

theorem locate_of_directory (h : t.directory path = .ok place) : t.locate path = .ok place := by
  unfold directory at h
  cases hl : t.locate path with
  | error e => simp [hl, bind, Except.bind] at h
  | ok q =>
    simp only [hl, bind, Except.bind] at h
    split at h
    · exact h
    · cases h
    · cases h

theorem asksForDirectory_slash (b d : String) : asksForDirectory (b ++ "/" ++ d) = asksForDirectory ("/" ++ d) := by
  have hleft : (b ++ "/" ++ d).toList.reverse = d.toList.reverse ++ '/' :: b.toList.reverse := by simp
  have hright : ("/" ++ d).toList.reverse = d.toList.reverse ++ ['/'] := by simp
  unfold asksForDirectory
  rw [hleft, hright]
  rcases d.toList.reverse with _ | ⟨c, _ | ⟨c', l⟩⟩
  · rfl
  · by_cases hc : c = '/' ∨ c = '.'
    · rcases hc with rfl | rfl <;> rfl
    · rw [not_or] at hc
      simp [hc.1, hc.2]
  -- Behind two characters the slash before `d` is out of sight.
  · by_cases hc : c = '/' ∨ c = '.' ∧ c' = '/'
    · rcases hc with rfl | ⟨rfl, rfl⟩ <;> rfl
    · rw [not_or, not_and] at hc
      by_cases hpoint : c = '.'
      · simp [hpoint, hc.2 hpoint]
      · simp [hc.1, hpoint]

/-- A path that goes on from a directory: it is not empty, it is walked from there, and its end is that of the rest. -/
theorem walk_join (hr : t.directory r = .ok place) (hd : Path.isAbsolute d = false) :
    (Path.join r d).isEmpty = false ∧
      (Path.components (Path.join r d)).foldlM t.step t.here = (Path.rest d).foldlM t.step place ∧
      asksForDirectory (Path.join r d) = asksForDirectory ("/" ++ d) := by
  obtain ⟨hempty, -, hwalk, -⟩ := locate_eq_ok.mp (locate_of_directory hr)
  have hr : r ≠ "" := by
    rintro rfl
    cases hempty
  obtain ⟨b, hjoin, -⟩ := Path.join_eq hd hr
  refine ⟨?_, ?_, ?_⟩
  · rw [hjoin]
    simp [String.isEmpty_eq_false_iff]
  · rw [Path.components_join hd fun h => absurd h hr, List.foldlM_append, hwalk]
    rfl
  · rw [hjoin, asksForDirectory_slash]

/-- What is found on a path that goes on from a directory does not depend on the path to the directory. -/
theorem locate_join_congr (hr : t.directory r = .ok place) (hr' : t.directory r' = .ok place)
    (hf : pathFault? (Path.join r d) = pathFault? (Path.join r' d)) :
    t.locate (Path.join r d) = t.locate (Path.join r' d) := by
  cases hd : Path.isAbsolute d with
  | true =>
    unfold Path.join
    rw [hd, if_pos rfl, if_pos rfl]
  | false =>
    obtain ⟨hempty, hwalk, hask⟩ := walk_join hr hd
    obtain ⟨hempty', hwalk', hask'⟩ := walk_join hr' hd
    unfold locate
    rw [hempty, hempty', hf, hwalk, hwalk', hask, hask']

end FileTree

end WorkWaves
