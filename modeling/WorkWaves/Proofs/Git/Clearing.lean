import WorkWaves.Proofs.Git.Isolation

/-!
# What can be cleared for a workspace

The path of a workspace is the directory of the workspaces with one name behind it exactly if the id is proper
(`WorkspaceNames.isProper_iff`). Then the making of the workspace takes away nothing that lies elsewhere, as long as
git takes away nothing but what it is told to (`Worktrees.confined`). An id that is not proper has all workspaces
cleared, or what lies beside their directory as well (`Worktrees.emptied_of_nameless`).
-/

namespace WorkWaves

namespace WorkspaceNames

variable {n : WorkspaceNames} {i : String}

/-- Without a proper id, the path goes on from the directory by nothing, or up. -/
theorem components_pathFor_of_not_isProper (h : ¬ IsProper i) (hroot : n.root ≠ "") :
    Path.components (n.pathFor i) = Path.components n.root ++ if i = ".." then [.up] else [] := by
  have hs := slash_not_mem_sanitize i
  unfold pathFor
  rw [Path.components_join (Path.isAbsolute_eq_false hs) fun ha => absurd ha hroot, Path.rest_eq hs]
  unfold IsProper at h
  obtain rfl | rfl | rfl : i = "" ∨ i = "." ∨ i = ".." := by tauto
  all_goals rfl

theorem pathFor_of_root_empty (h : n.root = "") : n.pathFor i = sanitize i := by
  have habs : Path.isAbsolute (sanitize i) = false := Path.isAbsolute_eq_false (slash_not_mem_sanitize i)
  have hjoin : Path.join "" (sanitize i) = "" ++ sanitize i := if_neg (by simp [habs])
  rw [pathFor, h, hjoin, String.empty_append]

/-- The proper ids are those that have a place of their own in the directory. -/
theorem isProper_iff : IsProper i ↔ ∃ s, Path.components (n.pathFor i) = Path.components n.root ++ [.name s] := by
  constructor
  · intro h
    exact ⟨sanitize i, components_pathFor h⟩
  · rintro ⟨s, hs⟩
    by_contra h
    by_cases hroot : n.root = ""
    · rw [pathFor_of_root_empty hroot, hroot] at hs
      unfold IsProper at h
      obtain rfl | rfl | rfl : i = "" ∨ i = "." ∨ i = ".." := by tauto
      all_goals cases hs
    · rw [components_pathFor_of_not_isProper h hroot, List.append_cancel_left_eq] at hs
      split at hs <;> cases hs

end WorkspaceNames

namespace Git

open FileTree

variable {μ : Type} {directory : String} {args : List String} {p : Place} {e : FileEntry}

/-- A call takes away nothing that is at a place. -/
def Spared (programs : Programs μ) (p : Place) (e : FileEntry) (i : Invocation) (t : FileTree) (k : μ) : Prop :=
  t.entry? p = some e → FileTree.entry? (programs.launch i t k).2.1 p = some e

/-- Git takes away what is at a place only with a worktree in which that lies. -/
structure Mindful (programs : Programs μ) (repository : String) (p : Place) (e : FileEntry) : Prop where
  prune : ∀ t k, Spared programs p e (invocation repository ["worktree", "prune"]) t k
  verify : ∀ ref t k, Spared programs p e (invocation repository ["rev-parse", "--verify", "--quiet", ref]) t k
  remove : ∀ path t k, ¬ Path.lead t.here path <+: p →
    Spared programs p e (invocation repository ["worktree", "remove", "--force", path]) t k
  delete : ∀ branch t k, Spared programs p e (invocation repository ["branch", "-D", branch]) t k
  add : ∀ branch path t k,
    Spared programs p e (invocation repository ["worktree", "add", "-b", branch, path, "HEAD"]) t k

/-- What became of a machine on which something stayed at a place. -/
structure Standing (p : Place) (e : FileEntry) (m₀ m : Machine μ) : Prop where
  programs : m.programs = m₀.programs
  logging : m.logging = m₀.logging
  here : m.files.here = m₀.files.here
  entry : m.files.entry? p = some e

namespace Standing

variable {m₀ m : Machine μ} {files : FileTree}

theorem with_files (h : Standing p e m₀ m) (hhere : files.here = m.files.here) (hf : files.entry? p = some e) :
    Standing p e m₀ { m with files := files } :=
  ⟨h.programs, h.logging, hhere.trans h.here, hf⟩

theorem quiet (hfile : ∀ path, m₀.logging.file = some path → p ≠ Path.lead m₀.files.here path) :
    Quiet (Standing p e m₀) := by
  intro level area text fields m h
  obtain ⟨files, complaints, hm, hfiles⟩ := m.record_eq { level := level, area := area, text := text, fields := fields }
  rw [Machine.log, hm]
  rcases hfiles with rfl | ⟨path, _, text', hpath, -, hwrite⟩
  · exact ⟨h.programs, h.logging, h.here, h.entry⟩
  · obtain ⟨q, hq, -, hne, rfl⟩ := write_eq_ok hwrite
    have hpq : p ≠ q := by
      rw [eq_lead_of_locate hq, h.here]
      exact hfile path (h.logging ▸ hpath)
    have hentry : FileTree.entry? (m.files.put q (.file text')) p = some e := by
      rw [entry?_put (ne_nil_of_not_directory hne), if_neg hpq]
      exact h.entry
    exact ⟨h.programs, h.logging, h.here, hentry⟩

theorem launch (hcall : ∀ t k, t.here = Path.lead m₀.files.here directory →
    Spared m₀.programs p e (invocation directory args) t k) : KeptBy (Standing p e m₀) directory args := by
  intro m h
  rcases m.launch_eq (invocation directory args) with hm | ⟨q, hq, hm⟩
  · rwa [hm]
  · have hat : q = Path.lead m₀.files.here directory := h.here ▸ eq_lead_of_directory hq
    have hentry := hcall { m.files with here := q } m.kept hat h.entry
    rw [hm]
    rw [← h.programs] at hentry
    exact ⟨h.programs, h.logging, h.here, hentry⟩

theorem removeDirectory {path : String} (h : Standing p e m₀ m) (hr : m.files.removeDirectory path = .ok files)
    (hp : ¬ Path.lead m₀.files.here path <+: p) : Standing p e m₀ { m with files := files } := by
  unfold FileTree.removeDirectory at hr
  cases hd : m.files.directory path with
  | error e => simp [hd, Except.map] at hr
  | ok q =>
    cases (Except.ok.inj (hd ▸ hr :) : m.files.remove q = files)
    rw [← h.here, ← eq_lead_of_directory hd] at hp
    exact h.with_files rfl ((entry?_remove hp).trans h.entry)

end Standing

namespace Worktrees

open WorkspaceNames

/-- A proper id has a place of its own in the directory of the workspaces, and while its workspace is made, nothing is
taken away but there. Any other id leads to that directory or up from it. -/
theorem confined (w : Worktrees) (i : String) (m : Machine μ) :
    (IsProper i ↔ ∃ s, Path.components (w.names.pathFor i) = Path.components w.names.root ++ [.name s]) ∧
    (IsProper i → w.placeOf m.files.here i = Path.lead m.files.here w.names.root ++ [sanitize i] ∧
      ∀ p e, ¬ w.placeOf m.files.here i <+: p → m.files.entry? p = some e → w.Rooted m.files.here →
        (∀ path, m.logging.file = some path → p ≠ Path.lead m.files.here path) →
        Mindful m.programs w.repository p e → ((w.create i).run m).2.files.entry? p = some e) ∧
    (¬ IsProper i → w.names.root ≠ "" →
      Path.components (w.names.pathFor i) = Path.components w.names.root ++ if i = ".." then [.up] else []) := by
  refine ⟨isProper_iff, fun hi => ⟨lead_pathFor hi, ?_⟩, components_pathFor_of_not_isProper⟩
  intro p e hp he hroot hfile hgit
  -- For git, the path of the workspace leads where it leads here.
  have hat : ∀ t : FileTree, t.here = Path.lead m.files.here w.repository →
      ¬ Path.lead t.here (w.names.pathFor i) <+: p := by
    intro t ht
    rw [lead_pathFor hi, ht, hroot, ← lead_pathFor hi]
    exact hp
  have hlog : Quiet (Standing p e m) := Standing.quiet hfile
  have hpath : Task.Keeps (Standing p e m) (w.clearPath (w.names.pathFor i)) := by
    refine clearPath_keeps hlog (Standing.launch fun t k ht => hgit.remove _ t k (hat t ht)) ?_
    intro m' files h hr
    exact h.removeDirectory hr hp
  have hclear : Task.Keeps (Standing p e m) (w.clear (w.names.pathFor i) (w.names.branchFor i)) := by
    refine clear_keeps hlog hpath ?_ ?_ ?_
    · exact Standing.launch fun t k _ => hgit.prune t k
    · exact Standing.launch fun t k _ => hgit.verify _ t k
    · exact Standing.launch fun t k _ => hgit.delete _ t k
  have hcreate : Task.Keeps (Standing p e m) (w.create i) := by
    refine create_keeps hlog hclear (fun m' h => ?_) (Standing.launch fun t k _ => hgit.add _ _ t k)
    -- Directories that are made replace nothing.
    obtain ⟨hspares, hhere⟩ : Spares [] m'.files (m'.files.makeDirectories w.names.root).1 ∧ _ :=
      Spares.makeDirectories m'.files w.names.root
    exact h.with_files hhere (hspares p e List.nil_prefix h.entry)
  exact (hcreate m ⟨rfl, rfl, rfl, he⟩).entry

end Worktrees

theorem pocket_mindful (repository : String) (p : Place) (e : FileEntry) : Mindful pocket repository p e where
  prune t k := id
  verify ref t k := id
  remove path t k h := by
    intro he
    have hl : (pocket.launch (invocation repository ["worktree", "remove", "--force", path]) t k).2.1 =
        (t.removeDirectory path).toOption.getD t := by
      simp only [pocket, invocation]
      cases t.removeDirectory path <;> rfl
    rw [hl]
    unfold FileTree.removeDirectory
    cases hd : t.directory path with
    | error _ => exact he
    | ok q =>
      rw [← eq_lead_of_directory hd] at h
      exact (entry?_remove h).trans he
  delete branch t k := id
  add branch path t k he := by
    have hspares : Spares [] t (t.makeDirectories path).1 := (Spares.makeDirectories t path).1
    exact hspares p e List.nil_prefix he

namespace Worktrees

/-- What an earlier attempt left is cleared, and the directory in which it lies stays. -/
theorem confined_of_number :
    ((sample.create "BUG-1").run busy).2.files.entry? ["repo", "trees", "BUG-1", "notes"] = none ∧
    ((sample.create "BUG-1").run busy).2.files.entry? ["repo", "trees"] = some .directory := by
  have hplace : sample.placeOf busy.files.here "BUG-1" = ["repo", "trees", "BUG-1"] := by decide +kernel
  obtain ⟨-, h⟩ := (confined sample "BUG-1" busy).2.1 (by decide)
  refine ⟨by decide +kernel, h _ _ ?_ rfl (rooted_of_isAbsolute (by decide) _) (by rintro path ⟨⟩) ?_⟩
  · rw [hplace]
    decide
  · exact pocket_mindful _ _ _

/-- The workspace of an item without a name is the directory of the workspaces. To make it clears all of them. -/
theorem emptied_of_nameless :
    Path.components (sample.names.pathFor "") = Path.components sample.names.root ∧
    Path.components (sample.names.pathFor "..") = Path.components sample.names.root ++ [.up] ∧
    busy.files.entry? ["repo", "trees", "BUG-1", "notes"] = some (.file "half done") ∧
    ((sample.create "").run busy).2.files.entry? ["repo", "trees", "BUG-1", "notes"] = none ∧
    ((sample.create "..").run busy).2.files.entry? ["repo", "trees"] = none := by
  refine ⟨by decide, by decide, by decide, ?_, ?_⟩
  · decide +kernel
  · decide +kernel

end Worktrees

end Git

end WorkWaves
