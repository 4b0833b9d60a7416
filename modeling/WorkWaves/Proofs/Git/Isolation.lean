import WorkWaves.Git.Worktree
import WorkWaves.Proofs.Git.Calls
import WorkWaves.Proofs.Git.Names

/-!
# Workspaces do not disturb each other

While one item's workspace is made, what an earlier attempt left of it is cleared: the checkout at its path, and its
branch. `Worktrees.isolated`: if the ids of two items are not alike, their names differ, and what one of them has in
its checkout and on its branch stays while the workspace of the other is made. This asks of git that it leaves a
checkout and a branch alone that it is not told of (`Git.Gentle`).

Ids that are alike share path and branch, and the later workspace takes away the earlier one (`clash_of_slash`). The
workspace of an empty id, or of one that is a name for a directory, has the others in it.
-/

namespace WorkWaves

/-! ### Files that stay -/

namespace FileTree

variable {t t' t'' : FileTree} {place p q : Place} {e : FileEntry} {path text : String} {cs : List Component}

/-- What is at a place or below it stays. Something may be added. -/
def Spares (place : Place) (t t' : FileTree) : Prop := ∀ p e, place <+: p → t.entry? p = some e → t'.entry? p = some e

/-- Neither place lies at or below the other. -/
def Apart (p q : Place) : Prop := ¬ p <+: q ∧ ¬ q <+: p

/-- Two places in one directory. -/
def Beside (p q : Place) : Prop := ∃ r a b, a ≠ b ∧ p = r ++ [a] ∧ q = r ++ [b]

theorem Beside.apart (h : Beside p q) : Apart p q := by
  obtain ⟨r, a, b, hne, rfl, rfl⟩ := h
  constructor
  · intro hp
    rw [List.prefix_append_right_inj, List.singleton_prefix_cons_iff] at hp
    exact hne hp
  · intro hp
    rw [List.prefix_append_right_inj, List.singleton_prefix_cons_iff] at hp
    exact hne hp.symm

theorem eq_lead_of_directory (h : t.directory path = .ok p) : p = Path.lead t.here path :=
  eq_lead_of_locate (locate_of_directory h)

namespace Spares

theorem refl (t : FileTree) : Spares place t t := fun _ _ _ h => h

theorem trans (h : Spares place t t') (h' : Spares place t' t'') : Spares place t t'' := fun p e hp he =>
  h' p e hp (h p e hp he)

theorem put_fresh (h : t.entry? p = none) : Spares place t (t.put p e) := by
  intro q d _ hd
  have hne : p ≠ [] := by
    rintro rfl
    cases h
  rw [entry?_put hne, if_neg]
  · exact hd
  · rintro rfl
    rw [h] at hd
    cases hd

theorem put_elsewhere (hne : p ≠ []) (h : ¬ place <+: p) : Spares place t (t.put p e) := by
  intro q d hq hd
  rw [entry?_put hne, if_neg]
  · exact hd
  · rintro rfl
    exact h hq

theorem remove (h : Apart p place) : Spares place t (t.remove p) := by
  intro q d hq hd
  rw [entry?_remove]
  · exact hd
  · intro hp
    exact (List.prefix_or_prefix_of_prefix hp hq).elim h.1 h.2

theorem write (hw : t.write path text = .ok t') (h : ¬ place <+: Path.lead t.here path) :
    Spares place t t' ∧ t'.here = t.here := by
  obtain ⟨p, hl, -, hne, rfl⟩ := write_eq_ok hw
  rw [← eq_lead_of_locate hl] at h
  exact ⟨put_elsewhere (ne_nil_of_not_directory hne) h, rfl⟩

theorem removeDirectory (hr : t.removeDirectory path = .ok t') (h : Apart (Path.lead t.here path) place) :
    Spares place t t' ∧ t'.here = t.here := by
  unfold FileTree.removeDirectory at hr
  cases hd : t.directory path with
  | error e => simp [hd, Except.map] at hr
  | ok p =>
    rw [← eq_lead_of_directory hd] at h
    cases (Except.ok.inj (hd ▸ hr :) : t.remove p = t')
    exact ⟨remove h, rfl⟩

theorem makeAlong : Spares place t (t.makeAlong p cs).1 ∧ (t.makeAlong p cs).1.here = t.here := by
  induction cs generalizing t p with
  | nil => exact ⟨refl t, rfl⟩
  | cons c cs ih =>
    unfold FileTree.makeAlong
    cases hs : t.step p c with
    | error e => exact ⟨refl t, rfl⟩
    | ok q =>
      cases hq : t.entry? q with
      | none =>
        simp only [hq]
        obtain ⟨h, hhere⟩ := ih (t := t.put q .directory) (p := q)
        exact ⟨(put_fresh hq).trans h, hhere⟩
      | some e =>
        cases e with
        | directory =>
          simp only [hq]
          exact ih
        | file text =>
          simp only [hq]
          exact ⟨refl t, trivial⟩

theorem makeDirectories (t : FileTree) (path : String) :
    Spares place t (t.makeDirectories path).1 ∧ (t.makeDirectories path).1.here = t.here := by
  unfold FileTree.makeDirectories
  split
  · exact ⟨refl t, rfl⟩
  · split
    · have h : Spares place t (t.makeAlong t.here (Path.components path).dropLast).1 ∧ _ := makeAlong
      split
      · next heq =>
        rw [heq] at h
        exact h
      · exact h
    · exact makeAlong

end Spares

end FileTree

namespace Git

open FileTree

variable {μ : Type} {P : Machine μ → Prop} {directory : String} {args : List String}

namespace Worktrees

variable {w : Worktrees} {path branch itemId : String}

theorem clearPath_keeps (hlog : Quiet P) (hremove : KeptBy P w.repository ["worktree", "remove", "--force", path])
    (hdelete : ∀ m files, P m → m.files.removeDirectory path = .ok files → P { m with files := files }) :
    Task.Keeps P (w.clearPath path) := by
  unfold clearPath
  refine .bind (fun _ h => h) fun m => ?_
  split
  · refine .bind (.modify (hlog _ _ _ _)) fun _ => .tryCatch (.adapt _ ?_) fun _ m h => ?_
    · exact .bind (check_keeps hlog hremove) fun _ => .pure _
    · show P ((delete path).run m).2
      unfold delete
      cases hr : m.files.removeDirectory path with
      | ok files =>
        have := hdelete m files h hr
        simpa [ExceptT.run, hr] using this
      | error e =>
        simpa [ExceptT.run, hr] using h
  · exact .pure _

theorem clear_keeps (hlog : Quiet P) (hpath : Task.Keeps P (w.clearPath path))
    (hprune : KeptBy P w.repository ["worktree", "prune"])
    (hverify : KeptBy P w.repository ["rev-parse", "--verify", "--quiet", "refs/heads/" ++ branch])
    (hbranch : KeptBy P w.repository ["branch", "-D", branch]) : Task.Keeps P (w.clear path branch) := by
  unfold clear
  refine .bind hpath fun _ => .bind (.adapt _ (run_keeps hlog hprune)) fun _ => .bind (.adapt _ ?_) fun b => ?_
  · exact .bind (run_keeps hlog hverify) fun _ => .pure _
  · cases b with
    | true =>
      refine .bind (.modify (hlog _ _ _ _)) fun _ => .bind (.adapt _ ?_) fun _ => .pure _
      exact .bind (run_keeps hlog hbranch) fun _ => .pure _
    | false => exact .pure _

theorem create_keeps (hlog : Quiet P) (hclear : Task.Keeps P (w.clear (w.names.pathFor itemId) (w.names.branchFor itemId)))
    (hroot : ∀ m, P m → P { m with files := (m.files.makeDirectories w.names.root).1 })
    (hadd : KeptBy P w.repository
      ["worktree", "add", "-b", w.names.branchFor itemId, w.names.pathFor itemId, "HEAD"]) :
    Task.Keeps P (w.create itemId) := by
  unfold create
  refine .bind hclear fun _ => .bind hroot fun _ => .bind (.adapt _ (check_keeps hlog hadd)) fun _ => ?_
  exact .bind (.modify (hlog _ _ _ _)) fun _ => .pure _

end Worktrees

/-! ### What is left alone -/

/-- A call leaves what is at a place, and what git keeps of a branch. -/
def Leaves (programs : Programs μ) (place : Place) (Holds : μ → Prop) (i : Invocation) (t : FileTree) (k : μ) : Prop :=
  t.Spares place (programs.launch i t k).2.1 ∧ (Holds k → Holds (programs.launch i t k).2.2)

/-- Git leaves a checkout alone while it is told of others in the same directory, and a branch while it is told of
others. -/
structure Gentle (programs : Programs μ) (repository : String) (place : Place) (branch : String) (Holds : μ → Prop) :
    Prop where
  prune : ∀ t k, Leaves programs place Holds (invocation repository ["worktree", "prune"]) t k
  verify : ∀ ref t k, Leaves programs place Holds (invocation repository ["rev-parse", "--verify", "--quiet", ref]) t k
  remove : ∀ path t k, Beside (Path.lead t.here path) place →
    Leaves programs place Holds (invocation repository ["worktree", "remove", "--force", path]) t k
  delete : ∀ other t k, other ≠ branch →
    Leaves programs place Holds (invocation repository ["branch", "-D", other]) t k
  add : ∀ other path t k, other ≠ branch → Beside (Path.lead t.here path) place →
    Leaves programs place Holds (invocation repository ["worktree", "add", "-b", other, path, "HEAD"]) t k

/-- What became of a machine on which a checkout and a branch were left alone. -/
structure Undisturbed (place : Place) (Holds : μ → Prop) (m₀ m : Machine μ) : Prop where
  programs : m.programs = m₀.programs
  logging : m.logging = m₀.logging
  here : m.files.here = m₀.files.here
  spares : m₀.files.Spares place m.files
  holds : Holds m₀.kept → Holds m.kept

namespace Undisturbed

variable {place : Place} {Holds : μ → Prop} {m₀ m : Machine μ} {files : FileTree}

theorem refl (m : Machine μ) : Undisturbed place Holds m m := ⟨rfl, rfl, rfl, .refl _, id⟩

theorem with_files (h : Undisturbed place Holds m₀ m) (hf : m.files.Spares place files ∧ files.here = m.files.here) :
    Undisturbed place Holds m₀ { m with files := files } where
  programs := h.programs
  logging := h.logging
  here := hf.2.trans h.here
  spares := h.spares.trans hf.1
  holds := h.holds

theorem quiet (hfile : ∀ path, m₀.logging.file = some path → ¬ place <+: Path.lead m₀.files.here path) :
    Quiet (Undisturbed place Holds m₀) := by
  intro level area text fields m h
  obtain ⟨files, complaints, hm, hfiles⟩ := m.record_eq { level := level, area := area, text := text, fields := fields }
  have hspares : m.files.Spares place files ∧ files.here = m.files.here := by
    rcases hfiles with rfl | ⟨path, _, _, hpath, -, hwrite⟩
    · exact ⟨.refl _, rfl⟩
    · have hout := hfile path (h.logging ▸ hpath)
      rw [← h.here] at hout
      exact Spares.write hwrite hout
  have h' := h.with_files hspares
  rw [Machine.log, hm]
  exact ⟨h'.programs, h'.logging, h'.here, h'.spares, h'.holds⟩

theorem launch (hcall : ∀ t k, t.here = Path.lead m₀.files.here directory →
    Leaves m₀.programs place Holds (invocation directory args) t k) :
    KeptBy (Undisturbed place Holds m₀) directory args := by
  intro m h
  rcases m.launch_eq (invocation directory args) with hm | ⟨p, hp, hm⟩
  · rwa [hm]
  · have hat : p = Path.lead m₀.files.here directory := h.here ▸ eq_lead_of_directory hp
    obtain ⟨hspares, hholds⟩ := hcall { m.files with here := p } m.kept hat
    rw [hm]
    rw [← h.programs] at hspares hholds
    exact ⟨h.programs, h.logging, h.here, h.spares.trans hspares, fun hk => hholds (h.holds hk)⟩

end Undisturbed

namespace Worktrees

open WorkspaceNames

variable {w : Worktrees}

/-- The place of an item's checkout. -/
def placeOf (w : Worktrees) (here : Place) (id : String) : Place := Path.lead here (w.names.pathFor id)

/-- The directory of the workspaces is the same for git as it is here. -/
def Rooted (w : Worktrees) (here : Place) : Prop :=
  Path.lead (Path.lead here w.repository) w.names.root = Path.lead here w.names.root

theorem rooted_of_isAbsolute (h : Path.isAbsolute w.names.root = true) (here : Place) : w.Rooted here :=
  (Path.lead_of_isAbsolute h).trans (Path.lead_of_isAbsolute h).symm

theorem placeOf_beside {i j : String} {here : Place} (hi : IsProper i) (hj : IsProper j) (hne : ¬ Alike i j) :
    Beside (w.placeOf here i) (w.placeOf here j) :=
  ⟨_, _, _, fun h => hne (sanitize_eq_iff.mp h), lead_pathFor hi, lead_pathFor hj⟩

/-- Names differ where ids are not alike, and then the making of one workspace leaves the checkout and the branch of
the other one alone, as git does. -/
theorem isolated (w : Worktrees) (i j : String) (m : Machine μ) :
    (w.names.branchFor i = w.names.branchFor j ↔ Alike i j) ∧
    (IsProper i → IsProper j →
      (Path.components (w.names.pathFor i) = Path.components (w.names.pathFor j) ↔ Alike i j) ∧
      (¬ Alike i j → w.Rooted m.files.here →
        (∀ path, m.logging.file = some path → ¬ w.placeOf m.files.here j <+: Path.lead m.files.here path) →
        ∀ Holds, Gentle m.programs w.repository (w.placeOf m.files.here j) (w.names.branchFor j) Holds →
          m.files.Spares (w.placeOf m.files.here j) ((w.create i).run m).2.files ∧
            (Holds m.kept → Holds ((w.create i).run m).2.kept))) := by
  refine ⟨branchFor_eq_iff, fun hi hj => ⟨components_pathFor_eq_iff hi hj, ?_⟩⟩
  intro hne hroot hfile Holds hgit
  have hbranch : w.names.branchFor i ≠ w.names.branchFor j := fun h => hne (branchFor_eq_iff.mp h)
  have hbeside : Beside (w.placeOf m.files.here i) (w.placeOf m.files.here j) := placeOf_beside hi hj hne
  -- For git, the path of the workspace leads where it leads here.
  have hat : ∀ t : FileTree, t.here = Path.lead m.files.here w.repository →
      Beside (Path.lead t.here (w.names.pathFor i)) (w.placeOf m.files.here j) := by
    intro t ht
    rw [lead_pathFor hi, ht, hroot, ← lead_pathFor hi]
    exact hbeside
  have hlog : Quiet (Undisturbed (w.placeOf m.files.here j) Holds m) := Undisturbed.quiet hfile
  have hpath : Task.Keeps (Undisturbed (w.placeOf m.files.here j) Holds m) (w.clearPath (w.names.pathFor i)) := by
    refine clearPath_keeps hlog (Undisturbed.launch fun t k ht => hgit.remove _ t k (hat t ht)) ?_
    intro m' files h hr
    refine h.with_files (Spares.removeDirectory hr ?_)
    rw [h.here]
    exact hbeside.apart
  have hclear : Task.Keeps (Undisturbed (w.placeOf m.files.here j) Holds m)
      (w.clear (w.names.pathFor i) (w.names.branchFor i)) := by
    refine clear_keeps hlog hpath ?_ ?_ ?_
    · exact Undisturbed.launch fun t k _ => hgit.prune t k
    · exact Undisturbed.launch fun t k _ => hgit.verify _ t k
    · exact Undisturbed.launch fun t k _ => hgit.delete _ t k hbranch
  have hcreate : Task.Keeps (Undisturbed (w.placeOf m.files.here j) Holds m) (w.create i) := by
    refine create_keeps hlog hclear (fun m' h => h.with_files (Spares.makeDirectories _ _)) ?_
    exact Undisturbed.launch fun t k ht => hgit.add _ _ t k hbranch (hat t ht)
  have h := hcreate m (.refl m)
  exact ⟨h.spares, h.holds⟩

end Worktrees

/-! ### A small git -/

/-- How a call ends that changes nothing. -/
def answer (ok : Bool) (t : FileTree) (branches : List String) :
    Except FileFault ProcessEnd × FileTree × List String :=
  (.ok { code := some (if ok then 0 else 1) }, t, branches)

/-- A git that keeps the names of the branches and makes empty checkouts. -/
def pocket : Programs (List String) where
  launch i t branches :=
    match i.args with
    | ["worktree", "prune"] => answer true t branches
    | ["rev-parse", "--verify", "--quiet", ref] => answer (branches.any fun b => "refs/heads/" ++ b == ref) t branches
    | ["worktree", "remove", "--force", path] =>
      match t.removeDirectory path with
      | .ok t' => answer true t' branches
      | .error _ => answer false t branches
    | ["branch", "-D", branch] => answer (branches.contains branch) t (branches.filter (· != branch))
    | ["worktree", "add", "-b", branch, path, "HEAD"] => answer true (t.makeDirectories path).1 (branch :: branches)
    | _ => answer false t branches

theorem pocket_gentle (repository : String) (place : Place) (branch : String) :
    Gentle pocket repository place branch (branch ∈ ·) where
  prune t k := ⟨.refl t, id⟩
  verify ref t k := ⟨.refl t, id⟩
  remove path t k h := by
    have hl : pocket.launch (invocation repository ["worktree", "remove", "--force", path]) t k =
        match t.removeDirectory path with
        | .ok t' => answer true t' k
        | .error _ => answer false t k := rfl
    unfold Leaves
    rw [hl]
    cases hr : t.removeDirectory path with
    | ok t' => exact ⟨(Spares.removeDirectory hr h.apart).1, id⟩
    | error e => exact ⟨.refl t, id⟩
  delete other t k h := ⟨.refl t, fun hk => List.mem_filter.mpr ⟨hk, bne_iff_ne.mpr h.symm⟩⟩
  add other path t k _ _ := ⟨(Spares.makeDirectories t path).1, List.mem_cons_of_mem other⟩

namespace Worktrees

def sample : Worktrees := ⟨"/repo", ⟨"/repo/trees", "wave"⟩⟩

/-- A machine with a repository, in which someone works on `BUG-1`. -/
def busy : Machine (List String) where
  programs := pocket
  kept := ["wave/BUG-1"]
  files := { entries := [(["repo"], .directory), (["repo", "trees"], .directory), (["repo", "trees", "BUG-1"], .directory),
    (["repo", "trees", "BUG-1", "notes"], .file "half done")] }
  now := default
  runId := "run"

/-- What was written in the workspace of one item stays when that of another is made. -/
theorem isolated_of_numbers :
    ((sample.create "BUG-2").run busy).2.files.entry? ["repo", "trees", "BUG-1", "notes"] = some (.file "half done") ∧
    "wave/BUG-1" ∈ ((sample.create "BUG-2").run busy).2.kept := by
  have hne : ¬ WorkspaceNames.Alike "BUG-2" "BUG-1" := by
    rw [← WorkspaceNames.sanitize_eq_iff]
    decide
  have hplace : sample.placeOf busy.files.here "BUG-1" = ["repo", "trees", "BUG-1"] := by decide +kernel
  have hbranch : sample.names.branchFor "BUG-1" = "wave/BUG-1" := by decide +kernel
  obtain ⟨-, h⟩ := (isolated sample "BUG-2" "BUG-1" busy).2 (by decide) (by decide)
  obtain ⟨hspares, hheld⟩ := h hne (rooted_of_isAbsolute (by decide) _) (by rintro path ⟨⟩) ("wave/BUG-1" ∈ ·)
    (hbranch ▸ pocket_gentle _ _ _)
  refine ⟨hspares _ _ ?_ rfl, hheld (by decide)⟩
  rw [hplace]
  decide

/-- A hyphen stands for a slash. The second workspace is made in place of the first one. -/
theorem clash_of_slash : "BUG-1" ≠ "BUG/1" ∧
    sample.names.branchFor "BUG-1" = sample.names.branchFor "BUG/1" ∧
    sample.names.pathFor "BUG-1" = sample.names.pathFor "BUG/1" ∧
    busy.files.entry? ["repo", "trees", "BUG-1", "notes"] = some (.file "half done") ∧
    ((sample.create "BUG/1").run busy).1.toOption = some ⟨"BUG/1", "wave/BUG-1", "/repo/trees/BUG-1"⟩ ∧
    ((sample.create "BUG/1").run busy).2.files.entry? ["repo", "trees", "BUG-1", "notes"] = none := by
  refine ⟨by decide, by decide, by decide, by decide, ?_, ?_⟩
  · decide +kernel
  · decide +kernel

end Worktrees

end Git

end WorkWaves
