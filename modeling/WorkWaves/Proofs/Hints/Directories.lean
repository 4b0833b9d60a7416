import WorkWaves.Proofs.Hints.Lines

/-!
# The directories of a text

A named path is in normal form (`normalize_eq_some`), so the directories that a text names are too: they are not empty,
do not start with `./` and hold characters of paths only. One slash is taken off the end of a directory, no more. So when
a text names a directory with two slashes at its end (`doublesSlash`), one of them stays, and a file counts as one in the
directory when it is named with that slash as well (`directories_of_text`), but not without (`slash_left_of_doubled`).
-/

namespace WorkWaves.Hints

open WorkWaves.Text

variable {raw path dir : List Char} {raws : List (List Char)} {h : Hints} {b : Bool} {s : String} {d f : String}

/-! ### Normal paths -/

theorem dropHere_suffix (l : List Char) : dropHere l <:+ l := by
  fun_induction dropHere l with
  | case1 r ih => exact ih.trans ⟨['.', '/'], rfl⟩
  | case2 r hr => exact List.suffix_rfl

theorem not_here_dropHere (l : List Char) : ¬ ['.', '/'] <+: dropHere l := by
  fun_induction dropHere l with
  | case1 r ih => exact ih
  | case2 r hr =>
    rintro ⟨s, rfl⟩
    exact hr s rfl

/-- A path as it is kept: made of characters of paths, with no `./` at its start, and something in it has a name. -/
structure Normal (path : List Char) : Prop where
  chars : ∀ c ∈ path, isPathChar c = true
  not_here : ¬ ['.', '/'] <+: path
  named : ∃ c ∈ path, c ≠ '.' ∧ c ≠ '/'

theorem Normal.ne_slash (hn : Normal path) : path ≠ ['/'] := by
  rintro rfl
  obtain ⟨c, hc, -, hne⟩ := hn.named
  exact hne (List.mem_singleton.mp hc)

theorem normalize_eq_some (hn : normalize raw = some path) : Normal path := by
  unfold normalize at hn
  dsimp only at hn
  split at hn
  · cases hn
  · next hplain =>
    simp only [Bool.or_eq_true, Bool.not_eq_true', not_or, Bool.not_eq_false, List.all_eq_true] at hplain
    obtain ⟨-, hchars⟩ := hplain
    split at hn
    · cases hn
    · next hpoints =>
      obtain rfl := Option.some.inj hn
      refine ⟨fun c hc => hchars c ((dropHere_suffix _).subset hc), not_here_dropHere _, ?_⟩
      simpa using hpoints

/-! ### What a path adds -/

/-- The directory that a path names: what stands before the slash at its end, or the path itself. -/
def NamesDirectory (path dir : List Char) : Prop :=
  (path = dir ++ ['/'] ∧ dir ≠ []) ∨ (path = dir ∧ ¬ ['/'] <:+ path)

theorem NamesDirectory.isPrefix (hd : NamesDirectory path dir) : dir <+: path := by
  rcases hd with ⟨rfl, -⟩ | ⟨rfl, -⟩
  · exact List.prefix_append ..
  · exact List.prefix_rfl

theorem NamesDirectory.ne_nil (hd : NamesDirectory path dir) (hn : Normal path) : dir ≠ [] := by
  rcases hd with ⟨-, hne⟩ | ⟨rfl, -⟩
  · exact hne
  · obtain ⟨c, hc, -⟩ := hn.named
    exact List.ne_nil_of_mem hc

/-- A slash stays at the end of a directory only when there were two. -/
theorem NamesDirectory.doubled (hd : NamesDirectory path dir) (hslash : ['/'] <:+ dir) : ['/', '/'] <:+ path := by
  rcases hd with ⟨rfl, -⟩ | ⟨rfl, hno⟩
  · obtain ⟨l, rfl⟩ := hslash
    exact ⟨l, by simp⟩
  · exact absurd hslash hno

/-- A path without a slash at its end is a file, a directory as it stands, or nothing. -/
theorem addPath_eq (hp : path.getLast? ≠ some '/') : h.addPath b path = h ∨
    h.addPath b path = h.addFile (String.ofList path) ∨ h.addPath b path = h.addDirectory (String.ofList path) := by
  unfold addPath
  split
  · next hslash => exact absurd hslash hp
  · dsimp only
    split
    · split_ifs
      · exact .inr (.inl rfl)
      · exact .inl rfl
    · split_ifs
      · exact .inr (.inr rfl)
      · exact .inl rfl

theorem addPath_slash (hd : dir ≠ []) : h.addPath b (dir ++ ['/']) = h.addDirectory (String.ofList dir) := by
  have hempty : dir.isEmpty = false := by simpa using hd
  simp only [addPath, List.getLast?_concat, List.dropLast_concat, hempty]
  rfl

theorem mem_directories_addDirectory {p : List Char} (hd : d ∈ (h.addDirectory (String.ofList p)).directories) :
    d.toList = p ∨ d ∈ h.directories := by
  rcases StringSet.mem_insert.mp hd with rfl | hd
  · exact .inl String.toList_ofList
  · exact .inr hd

theorem directories_addPath (hpath : path ≠ ['/']) (hd : d ∈ (h.addPath b path).directories) :
    NamesDirectory path d.toList ∨ d ∈ h.directories := by
  by_cases hslash : path.getLast? = some '/'
  · obtain ⟨dir, rfl⟩ := List.getLast?_eq_some_iff.mp hslash
    have hdir : dir ≠ [] := by
      rintro rfl
      exact hpath rfl
    rw [addPath_slash hdir] at hd
    refine (mem_directories_addDirectory hd).imp_left fun he => ?_
    rw [he]
    exact .inl ⟨rfl, hdir⟩
  · have hno : ¬ ['/'] <:+ path := by
      rintro ⟨l, rfl⟩
      exact hslash List.getLast?_concat
    rcases addPath_eq (h := h) (b := b) hslash with he | he | he
    · rw [he] at hd
      exact .inr hd
    · rw [he] at hd
      exact .inr hd
    · rw [he] at hd
      refine (mem_directories_addDirectory hd).imp_left fun he => ?_
      rw [he]
      exact .inr ⟨rfl, hno⟩

/-! ### What a text names -/

/-- The words of a text that are looked at for paths. -/
def words (cs : List Char) : List (List Char) := codeSpans cs ++ marked cs ++ bareWords cs

/-- A word of a text names a directory. -/
def NamesIn (raws : List (List Char)) (dir : List Char) : Prop :=
  ∃ raw ∈ raws, ∃ path, normalize raw = some path ∧ NamesDirectory path dir

theorem namesIn_of_mem_named (hd : d ∈ (named b raws).directories) : NamesIn raws d.toList := by
  induction raws with
  | nil => exact absurd hd StringSet.not_mem_empty
  | cons raw raws ih =>
    rw [named_cons] at hd
    rcases StringSet.mem_union.mp hd with hd | hd
    · cases hn : normalize raw with
      | none =>
        rw [named_of_none hn] at hd
        exact absurd hd StringSet.not_mem_empty
      | some path =>
        rw [named_of_path hn] at hd
        have hnames := (directories_addPath (normalize_eq_some hn).ne_slash hd).resolve_right StringSet.not_mem_empty
        exact ⟨raw, List.mem_cons_self .., path, hn, hnames⟩
    · obtain ⟨r, hr, hnames⟩ := ih hd
      exact ⟨r, List.mem_cons_of_mem _ hr, hnames⟩

theorem mem_named_of_slash (hraw : raw ∈ raws) (hn : normalize raw = some (dir ++ ['/'])) (hd : dir ≠ []) :
    String.ofList dir ∈ (named b raws).directories := by
  have hword : String.ofList dir ∈ (named b [raw]).directories := by
    rw [named_of_path hn, addPath_slash hd]
    exact StringSet.mem_insert.mpr (.inl rfl)
  exact (named_le_of_mem hraw).2 _ hword

theorem mem_directories_ofText : d ∈ (ofText s).directories ↔ d ∈ (named true (codeSpans s.toList)).directories ∨
    d ∈ (named true (marked s.toList)).directories ∨ d ∈ (named false (bareWords s.toList)).directories := by
  rw [ofText_eq, ← or_assoc]
  exact StringSet.mem_union.trans (or_congr_left StringSet.mem_union)

theorem NamesIn.mono {raws' : List (List Char)} (h : NamesIn raws dir) (hsub : raws ⊆ raws') : NamesIn raws' dir := by
  obtain ⟨raw, hraw, hnames⟩ := h
  exact ⟨raw, hsub hraw, hnames⟩

theorem namesIn_of_mem_ofText (hd : d ∈ (ofText s).directories) : NamesIn (words s.toList) d.toList := by
  rcases mem_directories_ofText.mp hd with hd | hd | hd
  · exact (namesIn_of_mem_named hd).mono fun _ hraw => by simp [words, hraw]
  · exact (namesIn_of_mem_named hd).mono fun _ hraw => by simp [words, hraw]
  · exact (namesIn_of_mem_named hd).mono fun _ hraw => by simp [words, hraw]

theorem mem_ofText_of_slash (hraw : raw ∈ words s.toList) (hn : normalize raw = some (dir ++ ['/'])) (hd : dir ≠ []) :
    String.ofList dir ∈ (ofText s).directories := by
  rw [words, List.mem_append, List.mem_append] at hraw
  rw [mem_directories_ofText]
  rcases hraw with (hraw | hraw) | hraw
  · exact .inl (mem_named_of_slash hraw hn hd)
  · exact .inr (.inl (mem_named_of_slash hraw hn hd))
  · exact .inr (.inr (mem_named_of_slash hraw hn hd))

/-- Whether a word of a text is a path with two slashes at its end. -/
def doublesSlash (text : String) : Bool :=
  (words text.toList).any fun raw => (normalize raw).any (['/', '/'].isSuffixOf ·)

theorem doublesSlash_iff : doublesSlash s = true ↔
    ∃ raw ∈ words s.toList, ∃ path, normalize raw = some path ∧ ['/', '/'] <:+ path := by
  simp only [doublesSlash, List.any_eq_true, Option.any_eq_true, List.isSuffixOf_iff_suffix]

/-- A slash stays at the end of a directory just when a word of the text has two there. -/
theorem exists_slash_iff : (∃ d ∈ (ofText s).directories, ['/'] <:+ d.toList) ↔ doublesSlash s = true := by
  rw [doublesSlash_iff]
  constructor
  · rintro ⟨d, hd, hslash⟩
    obtain ⟨raw, hraw, path, hn, hnames⟩ := namesIn_of_mem_ofText hd
    exact ⟨raw, hraw, path, hn, hnames.doubled hslash⟩
  · rintro ⟨raw, hraw, path, hn, l, rfl⟩
    have hn' : normalize raw = some ((l ++ ['/']) ++ ['/']) := by simpa using hn
    refine ⟨_, mem_ofText_of_slash hraw hn' (by simp), ?_⟩
    rw [String.toList_ofList]
    exact List.suffix_append ..

/-! ### Files in directories -/

theorem isWithin_of_prefix (h : d.toList ++ ['/'] <+: f.toList) : Path.isWithin f d = true := by
  rw [Path.isWithin, List.isPrefixOf_iff_prefix.mpr h, Bool.or_true]

/-- Items overlap over a file of one that is named in a directory of the other. -/
theorem overlaps_of_prefix {g : Hints} (hd : d ∈ h.directories) (hf : f ∈ g.files)
    (hstart : d.toList ++ ['/'] <+: f.toList) : h.overlaps g = true ∧ g.overlaps h = true := by
  have hw := isWithin_of_prefix hstart
  refine ⟨overlaps_iff.mpr (.inr (.inr (.inr ⟨f, hf, d, hd, hw⟩))), overlaps_iff.mpr (.inr (.inr (.inl ⟨f, hf, d, hd, hw⟩)))⟩

/-- The directories of a text are in normal form but for slashes at their ends, which are there just when a word of the
text has two at its end. A file that another text names in such a directory makes the two overlap, whichever comes
first, when it is named with all the slashes that the directory has. -/
theorem directories_of_text (s t : String) :
    (∀ d ∈ (ofText s).directories,
      d ≠ "" ∧ ¬ ['.', '/'] <+: d.toList ∧ ∀ c ∈ d.toList, isPathChar c = true) ∧
    ((∃ d ∈ (ofText s).directories, ['/'] <:+ d.toList) ↔ doublesSlash s = true) ∧
    ∀ d ∈ (ofText s).directories, ∀ f ∈ (ofText t).files, ∀ more,
      f.toList = dropEnd (· == '/') d.toList ++ '/' :: more →
      (['/'] <:+ d.toList → d.toList ++ ['/'] <+: f.toList) →
      (ofText s).overlaps (ofText t) = true ∧ (ofText t).overlaps (ofText s) = true := by
  refine ⟨fun d hd => ?_, exists_slash_iff, fun d hd f hf more hmore hslashes => ?_⟩
  · obtain ⟨raw, hraw, path, hn, hnames⟩ := namesIn_of_mem_ofText hd
    have hnormal := normalize_eq_some hn
    refine ⟨?_, fun hhere => hnormal.not_here (hhere.trans hnames.isPrefix), fun c hc => ?_⟩
    · rintro rfl
      exact hnames.ne_nil hnormal rfl
    · exact hnormal.chars c (hnames.isPrefix.subset hc)
  · by_cases hslash : ['/'] <:+ d.toList
    · exact overlaps_of_prefix hd hf (hslashes hslash)
    · have hbare : dropEnd (· == '/') d.toList = d.toList := by
        refine dropEnd_eq_self fun c hc => beq_false_of_ne ?_
        rintro rfl
        obtain ⟨l, hl⟩ := List.getLast?_eq_some_iff.mp hc
        exact hslash ⟨l, hl.symm⟩
      refine overlaps_of_prefix hd hf ⟨more, ?_⟩
      rw [hmore, hbare, List.append_assoc]
      rfl

section Trees

/-- A text that names a directory as usual, and one with a slash too many. -/
def trees : String := "The tree `./src/lib/`, and\nPath: docs//"

/-- A text that names a file in each of them. -/
def leaves : String := "Both `src/lib/a.rs:3` and `docs//b.md`."

theorem directories_of_trees :
    ("src/lib" ∈ (ofText trees).directories ∧ "src/lib/a.rs" ∈ (ofText leaves).files ∧
      (ofText trees).overlaps (ofText leaves) = true ∧ (ofText leaves).overlaps (ofText trees) = true) ∧
    "docs/" ∈ (ofText trees).directories ∧ "docs//b.md" ∈ (ofText leaves).files ∧
      (ofText trees).overlaps (ofText leaves) = true ∧ (ofText leaves).overlaps (ofText trees) = true := by
  obtain ⟨-, -, hfiles⟩ := directories_of_text trees leaves
  have hlib : "src/lib" ∈ (ofText trees).directories := by decide +kernel
  have ha : "src/lib/a.rs" ∈ (ofText leaves).files := by decide +kernel
  have hdocs : "docs/" ∈ (ofText trees).directories := by decide +kernel
  have hb : "docs//b.md" ∈ (ofText leaves).files := by decide +kernel
  exact ⟨⟨hlib, ha, hfiles _ hlib _ ha "a.rs".toList (by decide) (by decide)⟩,
    hdocs, hb, hfiles _ hdocs _ hb "/b.md".toList (by decide) (by decide)⟩

/-- The slash that stays keeps a file of the directory from being seen in it. -/
theorem slash_left_of_doubled : doublesSlash "`src//`" = true ∧ "src/" ∈ (ofText "`src//`").directories ∧
    "src/a.rs" ∈ (ofText "`src/a.rs`").files ∧ (ofText "`src//`").overlaps (ofText "`src/a.rs`") = false ∧
    (ofText "`src/a.rs`").overlaps (ofText "`src//`") = false := by
  decide +kernel

end Trees

end WorkWaves.Hints
