import WorkWaves.Proofs.State.Store
import WorkWaves.Proofs.Ways
import WorkWaves.Services

/-!
# Which files the exclusions name

A configured path is resolved twice: what works with the file joins the path to the repository (`Context.resolve`), and
an exclusion keeps the names on it (`Exclusions.relative`). On a way down from the repository both come to the same
place, and otherwise they do not if there is a name on the way (`Exclusions.relative_eq_iff`). So where no configured
path leads up, the state file is left alone, and of the other files those that are configured
(`Exclusions.entries_of_absolute`). What leads up takes nothing away from an entry, which then names another file
(`Exclusions.entries_of_up`).
-/

namespace WorkWaves

namespace Exclusions

open WorkWaves.Path

variable {μ : Type} {root path : String} {rel : Place} {cs : List Component} {s : Settings}

/-! ### Entries -/

/-- The place in a repository that a path resolves to, as it is written in an entry. -/
def resolved (root path : String) : Option String := (inside? root path).map ("/".intercalate ·)

theorem relative_eq (root path : String) : relative root path =
    (way? root path).bind fun cs => if names cs = [] then none else some ("/".intercalate (names cs)) := by
  unfold relative way?
  dsimp only
  split
  · cases below? root path <;> simp
  · simp

theorem relative_of_down (hroot : isAbsolute root = true) (hw : way? root path = some cs) (hup : .up ∉ cs) :
    relative root path = resolved root path := by
  rw [relative_eq, resolved, inside?_of_down hroot hw hup, hw, Option.bind_some]
  split <;> rfl

/-- The entry for a path that does not lead up is what it resolves to. -/
theorem relative_of_direct (hroot : isAbsolute root = true) (hd : Direct root path) :
    relative root path = resolved root path := by
  cases hw : way? root path with
  | none =>
    rw [relative_eq, resolved, hw, inside?_of_way?_eq_none hroot hd hw]
    rfl
  | some cs => exact relative_of_down hroot hw fun hup => hd.down (subset_of_way? hw hup)

/-- A way without names does not come below where it starts. -/
theorem relative_of_nameless (hroot : isAbsolute root = true) (hw : way? root path = some cs) (hnames : names cs = []) :
    relative root path = resolved root path := by
  have hnone : inside? root path = none := by
    refine Option.eq_none_iff_forall_ne_some.mpr fun rel hrel => ?_
    obtain ⟨hne, hlead⟩ := inside?_eq_some.mp hrel
    have hle : (cs.foldl turn (lead [] root)).length ≤ _ := length_foldl_turn_le
    rw [← lead_join_of_way? hroot hw, hlead, hnames, List.length_append] at hle
    exact hne (List.length_eq_zero_iff.mp (Nat.le_zero.mp (Nat.le_of_add_le_add_left hle)))
  rw [relative_eq, resolved, hnone, hw, Option.bind_some, if_pos hnames]
  rfl

/-- A way that leads up, and has a name on it, resolves to another place than its names tell. -/
theorem relative_ne_of_up (hroot : isAbsolute root = true) (htop : lead [] root ≠ [])
    (hw : way? root path = some cs) (hup : .up ∈ cs) (hnames : names cs ≠ []) :
    relative root path ≠ resolved root path := by
  rw [relative_eq, hw, Option.bind_some, if_neg hnames]
  intro he
  obtain ⟨rel, hrel, hshown⟩ := Option.map_eq_some_iff.mp he.symm
  obtain ⟨hne, hlead⟩ := inside?_eq_some.mp hrel
  obtain rfl := (intercalate_inj (slashless_of_inside? hrel) (slashless_of_way? hw) hne hnames).mp hshown
  have hlt := length_foldl_turn_lt hup htop
  rw [← lead_join_of_way? hroot hw, hlead, List.length_append] at hlt
  exact Nat.lt_irrefl _ hlt

theorem relative_eq_iff (hroot : isAbsolute root = true) (htop : lead [] root ≠ []) (hw : way? root path = some cs) :
    relative root path = resolved root path ↔ .up ∉ cs ∨ names cs = [] := by
  constructor
  · intro he
    by_cases hup : .up ∈ cs
    · by_cases hnames : names cs = []
      · exact .inr hnames
      · exact absurd he (relative_ne_of_up hroot htop hw hup hnames)
    · exact .inl hup
  · rintro (hup | hnames)
    · exact relative_of_down hroot hw hup
    · exact relative_of_nameless hroot hw hnames

/-! ### Exclusions by settings -/

theorem foldl_withExternalFile (x : Exclusions) (paths : List String) : paths.foldl withExternalFile x =
    { x with externalFiles := x.externalFiles ++ paths.filterMap (relative x.root) } := by
  induction paths generalizing x with
  | nil => simp
  | cons p paths ih =>
    rw [List.foldl_cons, ih]
    cases h : relative x.root p <;> simp [withExternalFile, h]

theorem foldl_withExtra (x : Exclusions) (paths : List String) : paths.foldl withExtra x =
    { x with extra := x.extra ++ paths.filterMap (relative x.root) } := by
  induction paths generalizing x with
  | nil => simp
  | cons p paths ih =>
    rw [List.foldl_cons, ih]
    cases h : relative x.root p <;> simp [withExtra, h]

theorem ofSettings_eq (root : String) (s : Settings) : ofSettings root s = {
    root := root
    stateFile := relative root s.state.path
    archiveDir := relative root s.merge.archiveDir
    externalFiles := s.merge.externalStateFiles.filterMap (relative root)
    extra := s.merge.extraExclusions.filterMap (relative root) } := by
  rw [ofSettings, foldl_withExternalFile, foldl_withExtra]
  rfl

/-- No configured path leads up. -/
structure AllDirect (root : String) (s : Settings) : Prop where
  state : Direct root s.state.path
  archive : Direct root s.merge.archiveDir
  external : ∀ p ∈ s.merge.externalStateFiles, Direct root p
  extra : ∀ p ∈ s.merge.extraExclusions, Direct root p

theorem resolved_eq_intercalate (hrel : Slashless rel) (hne : rel ≠ []) :
    resolved root path = some ("/".intercalate rel) ↔ lead [] (join root path) = lead [] root ++ rel := by
  unfold resolved
  rw [Option.map_eq_some_iff]
  constructor
  · rintro ⟨rel', hrel', hshown⟩
    obtain ⟨hne', hlead⟩ := inside?_eq_some.mp hrel'
    rw [hlead, (intercalate_inj (slashless_of_inside? hrel') hrel hne' hne).mp hshown]
  · exact fun hlead => ⟨rel, inside?_eq_some.mpr ⟨hne, hlead⟩, rfl⟩

theorem exists_resolved_within (hrel : Slashless rel) (hne : rel ≠ []) :
    (∃ dir, resolved root path = some dir ∧ Within ("/".intercalate rel) dir) ↔
      ∃ dir, inside? root path = some dir ∧ dir <+: rel := by
  unfold resolved
  constructor
  · rintro ⟨_, hmap, hw⟩
    obtain ⟨dir, hdir, rfl⟩ := Option.map_eq_some_iff.mp hmap
    exact ⟨dir, hdir, (within_intercalate_iff hrel (slashless_of_inside? hdir) hne (inside?_eq_some.mp hdir).1).mp hw⟩
  · rintro ⟨dir, hdir, hp⟩
    exact ⟨_, Option.map_eq_some_iff.mpr ⟨dir, hdir, rfl⟩,
      (within_intercalate_iff hrel (slashless_of_inside? hdir) hne (inside?_eq_some.mp hdir).1).mpr hp⟩

/-- The places that the settings name: the state file, the state files of other programs, and what lies in an extra
exclusion or in the archive. -/
def Configured (root : String) (s : Settings) (rel : Place) : Prop :=
  (∃ p ∈ s.state.path :: s.merge.externalStateFiles, lead [] (join root p) = lead [] root ++ rel) ∨
    ∃ p ∈ s.merge.archiveDir :: s.merge.extraExclusions, ∃ dir, inside? root p = some dir ∧ dir <+: rel

theorem guards_iff (hroot : isAbsolute root = true) (hs : AllDirect root s) (hrel : Slashless rel) (hne : rel ≠ []) :
    (ofSettings root s).Guards ("/".intercalate rel) ↔ Configured root s rel := by
  have hexternal : "/".intercalate rel ∈ s.merge.externalStateFiles.filterMap (relative root) ↔
      ∃ p ∈ s.merge.externalStateFiles, lead [] (join root p) = lead [] root ++ rel := by
    rw [List.mem_filterMap]
    refine exists_congr fun p => and_congr_right fun hp => ?_
    rw [relative_of_direct hroot (hs.external p hp), resolved_eq_intercalate hrel hne]
  have hextra : (∃ dir ∈ s.merge.extraExclusions.filterMap (relative root), Within ("/".intercalate rel) dir) ↔
      ∃ p ∈ s.merge.extraExclusions, ∃ dir, inside? root p = some dir ∧ dir <+: rel := by
    simp only [List.mem_filterMap]
    constructor
    · rintro ⟨dir, ⟨p, hp, hdir⟩, hw⟩
      rw [relative_of_direct hroot (hs.extra p hp)] at hdir
      exact ⟨p, hp, (exists_resolved_within hrel hne).mp ⟨dir, hdir, hw⟩⟩
    · rintro ⟨p, hp, hd⟩
      obtain ⟨dir, hdir, hw⟩ := (exists_resolved_within hrel hne).mpr hd
      rw [← relative_of_direct hroot (hs.extra p hp)] at hdir
      exact ⟨dir, ⟨p, hp, hdir⟩, hw⟩
  rw [ofSettings_eq, Guards, Configured, Archives]
  dsimp only
  rw [relative_of_direct hroot hs.state, relative_of_direct hroot hs.archive, resolved_eq_intercalate hrel hne,
    exists_resolved_within hrel hne, hexternal, hextra]
  simp only [List.mem_cons, exists_eq_or_imp, or_assoc]
  exact or_congr_right (or_congr_right or_comm)

/-! ### The file that a store writes -/

/-- A saved state lies where the path of the store leads. -/
theorem entry?_of_save {c : Context μ} {state : RunState} {files files' : FileTree} (hroot : isAbsolute c.root = true)
    (hfiles : files.Anchored) (h : c.store.save state files = (files', .ok ())) :
    files'.entry? (lead [] (join c.root c.settings.state.path)) = some (.file state.fileText) := by
  obtain ⟨place, hl, he⟩ := FileTree.read_eq_ok.mp (StateStore.read_of_save hfiles h)
  have habsolute : isAbsolute c.store.path = true := isAbsolute_join hroot _
  rw [FileTree.eq_lead_of_locate hl, lead_of_isAbsolute habsolute] at he
  exact he

/-- The state file of a context is left alone where it lies in the repository. -/
theorem excludes_of_lead {present : String → Bool} {change : Change} (hroot : isAbsolute root = true)
    (hd : Direct root s.state.path) (hne : rel ≠ [])
    (hlead : lead [] (join root s.state.path) = lead [] root ++ rel) :
    (ofSettings root s).excludes present ⟨"/".intercalate rel, change⟩ = true := by
  have hrel : Slashless rel := fun _ h => slash_not_mem_of_mem_lead (hlead ▸ List.mem_append_right _ h)
  have hstate : (ofSettings root s).stateFile = some ("/".intercalate rel) := by
    rw [ofSettings_eq]
    exact (relative_of_direct hroot hd).trans ((resolved_eq_intercalate hrel hne).mpr hlead)
  rw [excludes, protects_iff.mpr (.inl hstate), Bool.true_or]

/-- What the exclusions of a repository name. The entry for a path is what the path resolves to in the repository if the
path does not lead up, and on a way that does lead up only if there is no name on it; every kind of entry is made so. If
the path of the state file does not lead up, the file that is saved is left alone wherever it lies in the repository,
and if no configured path does, just those files are left alone, where they are, that the settings name. -/
theorem entries_of_absolute (hroot : isAbsolute root = true) :
    (∀ path, Direct root path → relative root path = resolved root path) ∧
    (∀ path cs, way? root path = some cs → lead [] root ≠ [] →
      (relative root path = resolved root path ↔ .up ∉ cs ∨ names cs = [])) ∧
    (∀ (x : Exclusions) path, x.root = root → Direct root path →
      x.withStateFile path = { x with stateFile := resolved root path } ∧
      x.withArchiveDir path = { x with archiveDir := resolved root path } ∧
      x.withExternalFile path = { x with externalFiles := x.externalFiles ++ (resolved root path).toList } ∧
      x.withExtra path = { x with extra := x.extra ++ (resolved root path).toList }) ∧
    (∀ (c : Context μ) state files files' rel, c.root = root → Direct root c.settings.state.path → files.Anchored →
      c.store.save state files = (files', .ok ()) → rel ≠ [] →
      lead [] (join root c.settings.state.path) = lead [] root ++ rel →
        files'.entry? (lead [] root ++ rel) = some (.file state.fileText) ∧
        ∀ present change, (ofSettings root c.settings).excludes present ⟨"/".intercalate rel, change⟩ = true) ∧
    ∀ s rel, AllDirect root s → Slashless rel → rel ≠ [] →
      ((ofSettings root s).protects ("/".intercalate rel) = true ↔ Configured root s rel) ∧
      ∀ present change, change = .modified ∨ change = .added →
        ((ofSettings root s).excludes present ⟨"/".intercalate rel, change⟩ = true ↔ Configured root s rel) := by
  refine ⟨fun path hd => relative_of_direct hroot hd, fun path cs hw htop => relative_eq_iff hroot htop hw, ?_, ?_, ?_⟩
  · rintro x path rfl hd
    have he := relative_of_direct hroot hd
    exact ⟨by rw [withStateFile, he], by rw [withArchiveDir, he], by rw [withExternalFile, he], by rw [withExtra, he]⟩
  · rintro c state files files' rel rfl hd hfiles hsave hne hlead
    exact ⟨hlead ▸ entry?_of_save hroot hfiles hsave, fun present change => excludes_of_lead hroot hd hne hlead⟩
  · intro s rel hs hrel hne
    have hprotects := protects_iff.trans (guards_iff hroot hs hrel hne)
    refine ⟨hprotects, fun present change hchange => ?_⟩
    -- A file that was changed where it is, is not on its way to the archive or out of it.
    rcases hchange with rfl | rfl
    · rw [excludes, Bool.or_false, hprotects]
    · rw [excludes, Bool.or_false, hprotects]

/-- A repository with a directory in it. -/
def checkout : FileTree where
  entries := [(["repo"], .directory), (["repo", "run"], .directory)]
  here := ["repo"]

theorem checkout_anchored : checkout.Anchored := by
  intro p hp
  obtain rfl | ⟨q, rfl, hq⟩ := List.prefix_cons_iff.mp hp
  · rfl
  · rw [List.prefix_nil.mp hq]
    rfl

/-- A context whose state is kept at a path. -/
def keeping (path : String) : Context Unit := ⟨{ state := ⟨path⟩ }, "/repo", none⟩

theorem exists_saved (state : RunState) :
    (∃ files', (keeping "./run/state.json").store.save state checkout = (files', .ok ())) ∧
      ∃ files', (keeping "run/../state.json").store.save state checkout = (files', .ok ()) := by
  exact ⟨⟨_, StateStore.save_of_steps rfl rfl rfl rfl⟩, _, StateStore.save_of_steps rfl rfl rfl rfl⟩

/-- An absolute path into the repository, and a state file in a directory of it. -/
theorem entries_of_checkout : isAbsolute "/repo" = true ∧
    relative "/repo" "/repo/./run//state.json" = resolved "/repo" "/repo/./run//state.json" ∧
    resolved "/repo" "/repo/./run//state.json" = some "run/state.json" ∧
    ∃ files', (keeping "./run/state.json").store.save StateStore.awkward checkout = (files', .ok ()) ∧
      files'.entry? ["repo", "run", "state.json"] = some (.file StateStore.awkward.fileText) ∧
      ∀ present change, (ofSettings "/repo" (keeping "./run/state.json").settings).excludes present
        ⟨"run/state.json", change⟩ = true := by
  obtain ⟨hentry, -, -, hstate, -⟩ := @entries_of_absolute Unit "/repo" rfl
  obtain ⟨files', h⟩ := (exists_saved StateStore.awkward).1
  have hd : Direct "/repo" "./run/state.json" := ⟨by decide +kernel, by decide +kernel⟩
  obtain ⟨he, hx⟩ := hstate _ _ _ _ ["run", "state.json"] rfl hd checkout_anchored h (by simp) (by decide +kernel)
  exact ⟨rfl, hentry _ ⟨by decide +kernel, by decide +kernel⟩, by decide +kernel, files', h, he, hx⟩

/-- A component that leads up is left out of the entry, so that the state file is not left alone, and another file is
that is not configured. A path that leads out of the repository has an entry, too. -/
theorem entries_of_up : ∃ files',
    (keeping "run/../state.json").store.save StateStore.awkward checkout = (files', .ok ()) ∧
    files'.entry? ["repo", "state.json"] = some (.file StateStore.awkward.fileText) ∧
    (ofSettings "/repo" (keeping "run/../state.json").settings).excludes (fun _ => false)
      ⟨"state.json", .modified⟩ = false ∧
    (ofSettings "/repo" (keeping "run/../state.json").settings).excludes (fun _ => false)
      ⟨"run/state.json", .modified⟩ = true ∧
    ¬ Configured "/repo" (keeping "run/../state.json").settings ["run", "state.json"] ∧
    relative "/repo" "../state.json" = some "state.json" ∧ inside? "/repo" "../state.json" = none := by
  obtain ⟨files', h⟩ := (exists_saved StateStore.awkward).2
  have he := entry?_of_save (c := keeping "run/../state.json") rfl checkout_anchored h
  refine ⟨files', h, he, by decide +kernel, by decide +kernel, ?_, by decide +kernel, by decide +kernel⟩
  have harchive : inside? "/repo" ".issues/completed" = some [".issues", "completed"] := by decide +kernel
  have hstate : lead [] (join "/repo" "run/../state.json") ≠ lead [] "/repo" ++ ["run", "state.json"] := by
    decide +kernel
  have hexternal : lead [] (join "/repo" ".claude/ll-state.json") ≠ lead [] "/repo" ++ ["run", "state.json"] := by
    decide +kernel
  simp [Configured, keeping, harchive, hstate, hexternal]

end Exclusions

end WorkWaves
