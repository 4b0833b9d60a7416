import Mathlib.Data.List.Sort
import WorkWaves.Cli.Running
import WorkWaves.Proofs.Git.Calls
import WorkWaves.Proofs.Paths
import WorkWaves.Proofs.Planning

/-!
# What is shown is what is run

The command `plan` plans as seen from the directory that it is given, and `run` as seen from the top of the repository
that git finds there. Before it plans, `run` has git look, and writes that down; this changes nothing that is read
(`Planning.draft_agree`). So where both see the same archive, the plan that is shown is the plan that is run
(`RunArguments.plans_of_prepared`).

From a directory further down, `plan` looks for a relative archive in that directory, and the plans differ
(`RunArguments.differs_below`).
-/

namespace WorkWaves

/-- What an archive tells is seen from where files are. -/
theorem Archive.mem_ids {t : FileTree} {dir : String} {place : Place} (h : t.directory dir = .ok place)
    (known : StringSet) : ∃ done, ids t dir known = .ok done ∧ ∀ id, id ∈ done ↔
      ∃ p, (∃ a, (p, .file a) ∈ t.entries) ∧ p.dropLast = place ∧ ∃ name, p.getLast? = some name ∧
        (Path.fileStem? name).bind (idOf? known.toList) = some id := by
  unfold ids FileTree.list
  rw [h]
  refine ⟨_, rfl, fun id => ?_⟩
  rw [told, StringSet.mem_ofList, stems]
  simp only [List.mem_filterMap]
  constructor
  · rintro ⟨stem, ⟨⟨name, e⟩, ⟨⟨p, e'⟩, hp, hg⟩, hf⟩, hid⟩
    split at hg
    · next hplace =>
      obtain ⟨last, hlast, heq⟩ := Option.map_eq_some_iff.mp hg
      cases heq
      cases e' with
      | file a => exact ⟨p, ⟨a, hp⟩, beq_iff_eq.mp hplace, _, hlast, Option.bind_eq_some_iff.mpr ⟨stem, hf, hid⟩⟩
      | directory => cases hf
    · cases hg
  · rintro ⟨p, ⟨a, hp⟩, hplace, name, hname, hid⟩
    obtain ⟨stem, hstem, hid⟩ := Option.bind_eq_some_iff.mp hid
    refine ⟨stem, ⟨(name, .file a), ⟨(p, .file a), hp, ?_⟩, hstem⟩, hid⟩
    simp [hplace, hname]

/-! ### Files that differ in texts -/

namespace FileTree

variable {S : Place → Prop} {t t' t'' : FileTree} {p place : Place} {a b path : String} {known : StringSet}

/-- Two trees are the same but for the texts of files at some places. -/
structure Agree (S : Place → Prop) (t t' : FileTree) : Prop where
  here : t'.here = t.here
  entry : ∀ p, t'.entry? p = t.entry? p ∨ S p ∧ ∃ a b, t.entry? p = some (.file a) ∧ t'.entry? p = some (.file b)
  /-- Entries that do not count because of others are files at the same places, too. -/
  named : ∀ p, (∃ a, (p, .file a) ∈ t'.entries) ↔ ∃ a, (p, .file a) ∈ t.entries

theorem mem_entries_of_entry? (hp : p ≠ []) {e : FileEntry} (h : t.entry? p = some e) : (p, e) ∈ t.entries := by
  unfold entry? at h
  rw [if_neg hp] at h
  obtain ⟨l, r, hl, -⟩ := List.lookup_eq_some_iff.mp h
  rw [hl]
  simp

namespace Agree

theorem refl (t : FileTree) : Agree S t t := ⟨rfl, fun _ => .inl rfl, fun _ => .rfl⟩

theorem trans (h : Agree S t t') (h' : Agree S t' t'') : Agree S t t'' where
  here := h'.here.trans h.here
  entry p := by
    rcases h.entry p with he | ⟨hp, a, b, ha, hb⟩ <;> rcases h'.entry p with he' | ⟨hp', a', b', ha', hb'⟩
    · exact .inl (he'.trans he)
    · exact .inr ⟨hp', a', b', he ▸ ha', hb'⟩
    · exact .inr ⟨hp, a, b, ha, he'.trans hb⟩
    · exact .inr ⟨hp, a, b', ha, hb'⟩
  named p := (h'.named p).trans (h.named p)

theorem put (hp : S p) (h : t.entry? p = some (.file a)) : Agree S t (t.put p (.file b)) where
  here := rfl
  entry q := by
    have hne : p ≠ [] := ne_nil_of_not_directory (by rw [h]; simp)
    rw [entry?_put hne]
    by_cases hq : q = p
    · subst hq
      exact .inr ⟨hp, a, b, h, if_pos rfl⟩
    · exact .inl (if_neg hq)
  named q := by
    have hne : p ≠ [] := ne_nil_of_not_directory (by rw [h]; simp)
    have hmem := mem_entries_of_entry? hne h
    by_cases hq : q = p
    · subst hq
      exact ⟨fun _ => ⟨a, hmem⟩, fun _ => ⟨b, List.mem_cons_self ..⟩⟩
    · simp [FileTree.put, hq]

theorem step_eq (h : Agree S t t') : t'.step = t.step := by
  funext p c
  rcases h.entry p with he | ⟨-, a, b, ha, hb⟩
  · exact step_congr he c
  · unfold step
    rw [ha, hb]

theorem locate_eq (h : Agree S t t') (path : String) : t'.locate path = t.locate path := by
  unfold locate
  rw [h.here, h.step_eq]
  cases path.isEmpty with
  | true => rfl
  | false =>
    cases pathFault? path with
    | some e => rfl
    | none =>
      cases (Path.components path).foldlM t.step t.here with
      | error e => rfl
      | ok p =>
        simp only [bind, Except.bind]
        rcases h.entry p with he | ⟨-, a, b, ha, hb⟩
        · rw [he]
        · rw [ha, hb]

theorem directory_eq (h : Agree S t t') (path : String) : t'.directory path = t.directory path := by
  unfold directory
  rw [h.locate_eq]
  cases t.locate path with
  | error e => rfl
  | ok p =>
    simp only [bind, Except.bind]
    rcases h.entry p with he | ⟨-, a, b, ha, hb⟩
    · rw [he]
    · rw [ha, hb]

theorem read_eq (h : Agree S t t') (hS : ¬ S (Path.lead t.here path)) : t'.read path = t.read path := by
  unfold read
  rw [h.locate_eq]
  cases hl : t.locate path with
  | error e => rfl
  | ok p =>
    rw [← eq_lead_of_locate hl] at hS
    have he : t'.entry? p = t.entry? p := (h.entry p).resolve_right fun hp => hS hp.1
    simp only [bind, Except.bind, he]

theorem ids_eq (h : Agree S t t') (dir : String) : Archive.ids t' dir known = Archive.ids t dir known := by
  cases hd : t.directory dir with
  | error e =>
    unfold Archive.ids list
    rw [h.directory_eq, hd]
    cases e <;> rfl
  | ok place =>
    obtain ⟨done, hdone, hmem⟩ := Archive.mem_ids hd known
    obtain ⟨done', hdone', hmem'⟩ := Archive.mem_ids ((h.directory_eq dir).trans hd) known
    have hsame : done' = done := StringSet.ext_mem fun id => by simp only [hmem, hmem', h.named]
    rw [hdone, hdone', hsame]

end Agree

end FileTree

/-! ### Planning -/

namespace Planning

variable {μ : Type} {S : Place → Prop} {t t' : FileTree} {dir root items : String} {s : Settings} {besides : StringSet}

theorem draft_agree (h : t.Agree S t') (hS : ¬ S (Path.lead t.here items)) :
    draft t' root s items besides = draft t root s items besides := by
  unfold draft manifest completed Manifest.completedIds
  simp only [h.read_eq hS, h.ids_eq]

/-- What planning comes to if nothing is complete besides. -/
def outcome (files : FileTree) (root : String) (s : Settings) (items : String) : Except CommandError Plan :=
  (draft files root s items ∅).map (·.plan)

/-- The same archive is seen from two directories: its path is absolute, or they are one directory, and the path to
the archive is as good from the one as from the other. -/
def SameArchive (t : FileTree) (s : Settings) (dir root : String) : Prop :=
  Path.isAbsolute s.merge.archiveDir = true ∨ ∃ place, t.directory dir = .ok place ∧ t.directory root = .ok place ∧
    FileTree.pathFault? (archive dir s) = FileTree.pathFault? (archive root s)

/-- Of the directory from which it is seen, a plan depends on the archive alone. -/
theorem draft_congr (h : SameArchive t s dir root) : draft t dir s items besides = draft t root s items besides := by
  have hlocate : t.locate (archive dir s) = t.locate (archive root s) := by
    rcases h with h | ⟨place, hdir, hroot, hfault⟩
    · unfold archive Path.join
      rw [h, if_pos rfl, if_pos rfl]
    · exact FileTree.locate_join_congr hdir hroot hfault
  have hids : ∀ known, Archive.ids t (archive dir s) known = Archive.ids t (archive root s) known := by
    intro known
    unfold Archive.ids FileTree.list FileTree.directory
    rw [hlocate]
  unfold draft completed Manifest.completedIds
  simp only [hids]

theorem printed_foldl_record (records : List LogRecord) (m : Machine μ) :
    (records.foldl Machine.record m).printed = m.printed := by
  induction records generalizing m with
  | nil => rfl
  | cons r records ih =>
    obtain ⟨files, complaints, hm, -⟩ := m.record_eq r
    rw [List.foldl_cons, ih, hm]

theorem make_of_draft {m : Machine μ} {d : Draft} (h : draft m.files root s items besides = .ok d) :
    ∃ m', m'.printed = m.printed ∧ (make root s items besides).run m = (.ok d.plan, m') := by
  refine ⟨_, printed_foldl_record (archiveRecords m.files (archive root s) d.manifest ++ d.records) m, ?_⟩
  show make root s items besides m = _
  unfold make
  rw [h]

theorem make_of_error {m : Machine μ} {e : CommandError} (h : draft m.files root s items besides = .error e) :
    (make root s items besides).run m = (.error e, m) := by
  show make root s items besides m = _
  unfold make
  rw [h]

end Planning

/-! ### The commands -/

variable {μ : Type}

/-- A place that is written to as the log file. -/
def Machine.IsLog (m : Machine μ) (p : Place) : Prop := ∃ path, m.logging.file = some path ∧ p = Path.lead m.files.here path

/-- Git changes no files when it is asked where a repository is, or which branch it is on. -/
def Git.Looks (programs : Programs μ) : Prop := ∀ directory t k,
  (programs.launch (invocation directory ["rev-parse", "--show-toplevel"]) t k).2.1 = t ∧
    (programs.launch (invocation directory ["rev-parse", "--abbrev-ref", "HEAD"]) t k).2.1 = t

/-- What `plan` makes of a plan or a failure: it shows the plan, and that is all it prints, or it fails. -/
structure PlanArguments.Shows (a : PlanArguments) (s : Settings) (ascii : Bool) (m : Machine μ)
    (result : Except CommandError Plan) : Prop where
  plan : ∀ p, result = .ok p → ∃ m', m'.printed = m.printed ∧
    (a.execute s ascii).run m = (.ok .success, Machine.show (.ofSettings s.output ascii) (.plan p) m')
  failure : ∀ e, result = .error e → (a.execute s ascii).run m = (.error e, m)

theorem PlanArguments.shows (a : PlanArguments) (s : Settings) (ascii : Bool) (m : Machine μ) :
    a.Shows s ascii m (Planning.outcome m.files (Planning.directory a.repo m) s a.items) := by
  unfold Planning.outcome
  cases hd : Planning.draft m.files (Planning.directory a.repo m) s a.items ∅ with
  | error e =>
    refine ⟨fun p h => (by cases h), fun e' h => ?_⟩
    cases h
    unfold execute
    rw [Task.run_get_bind]
    exact Task.run_bind_of_error (Planning.make_of_error hd)
  | ok d =>
    refine ⟨fun p h => ?_, fun e h => (by cases h)⟩
    cases h
    obtain ⟨m', hprinted, hmake⟩ := Planning.make_of_draft hd
    refine ⟨m', hprinted, ?_⟩
    unfold execute
    rw [Task.run_get_bind]
    exact Task.run_bind_of_ok hmake

namespace RunArguments

variable {a : RunArguments} {s : Settings} {resume : Bool} {m m' : Machine μ} {r : Git.Repository} {state : RunState}

/-- The part of a run before its plan: the repository is looked up, and there is a state to go on from. -/
def prepare (a : RunArguments) (s : Settings) (resume : Bool) : Task μ CommandError (Git.Repository × RunState) := do
  let r ← Running.repository (Planning.directory a.repo (← get))
  Running.checkBranch s r
  let context : Context μ := ⟨s, r.root, none⟩
  let state ← Running.state context.store resume
  return (r, state)

/-- The part of a run after its plan. -/
def proceed (s : Settings) (ascii : Bool) (r : Git.Repository) (state : RunState) (p : Plan) :
    Task μ CommandError ExitCode := do
  let context : Context μ := ⟨s, r.root, some (Services.build ascii)⟩
  let v ← ExceptT.adapt CommandError.other context.services
  let order : RunOrder := ⟨(← get).runId, p, s.limits, v.exclusions⟩
  Running.perform order v context.store state

theorem execute_eq (a : RunArguments) (s : Settings) (ascii resume : Bool) :
    (a.execute s ascii resume : Task μ CommandError ExitCode) =
      ExceptT.mk (Machine.during (Running.span resume) (ExceptT.run do
        let (r, state) ← a.prepare (a.override s) resume
        let p ← Planning.make r.root (a.override s) a.items state.completed
        proceed (a.override s) ascii r state p)) := by
  unfold execute prepare proceed
  simp only [bind_assoc, pure_bind]
  rfl

/-- What `run` makes of a plan or a failure, once the repository is found: it goes on with the plan, or it fails. -/
structure Follows (a : RunArguments) (s : Settings) (ascii resume : Bool) (m : Machine μ) (r : Git.Repository)
    (state : RunState) (result : Except CommandError Plan) : Prop where
  plan : ∀ p, result = .ok p → ∃ m', (a.execute s ascii resume).run m =
    Machine.during (Running.span resume) (fun _ => (proceed (a.override s) ascii r state p).run m') m
  failure : ∀ e, result = .error e → ∃ m', (a.execute s ascii resume).run m =
    Machine.during (Running.span resume) (fun _ => (.error e, m')) m

def entered (resume : Bool) (m : Machine μ) : Machine μ := { m with spans := Running.span resume :: m.spans }

theorem follows (ascii : Bool) (h : (a.prepare (a.override s) resume).run (entered resume m) = (.ok (r, state), m')) :
    a.Follows s ascii resume m r state
      ((Planning.draft m'.files r.root (a.override s) a.items state.completed).map (·.plan)) := by
  -- What comes after the preparation is a function of its result.
  let rest : Git.Repository × RunState → Task μ CommandError ExitCode := fun x => do
    let p ← Planning.make x.1.root (a.override s) a.items x.2.completed
    proceed (a.override s) ascii x.1 x.2 p
  have hrun : (a.execute s ascii resume).run m =
      Machine.during (Running.span resume) (fun _ => (rest (r, state)).run m') m := by
    rw [execute_eq, ← Task.run_bind_of_ok (f := rest) h]
    rfl
  cases hd : Planning.draft m'.files r.root (a.override s) a.items state.completed with
  | error e =>
    refine ⟨fun p h => (by cases h), fun e' h => ⟨m', hrun.trans ?_⟩⟩
    cases h
    rw [Task.run_bind_of_error (Planning.make_of_error hd)]
  | ok d =>
    obtain ⟨m₁, -, hmake⟩ := Planning.make_of_draft hd
    refine ⟨fun p h => ⟨m₁, hrun.trans ?_⟩, fun e h => (by cases h)⟩
    cases h
    rw [Task.run_bind_of_ok hmake]

/-- What became of a machine on which nothing was done but writing down. -/
structure Looked (m₀ m : Machine μ) : Prop where
  programs : m.programs = m₀.programs
  logging : m.logging = m₀.logging
  files : m₀.files.Agree m₀.IsLog m.files

namespace Looked

variable {m₀ : Machine μ} {directory : String} {args : List String}

theorem quiet : Git.Quiet (Looked m₀) := by
  intro level area text fields m h
  obtain ⟨files, complaints, hm, hfiles⟩ := m.record_eq { level := level, area := area, text := text, fields := fields }
  have hagree : m₀.files.Agree (m₀.IsLog) files := by
    rcases hfiles with rfl | ⟨path, before, after, hpath, hread, hwrite⟩
    · exact h.files
    · obtain ⟨p, hp, htext⟩ := FileTree.read_eq_ok.mp hread
      obtain ⟨q, hq, -, -, rfl⟩ := FileTree.write_eq_ok hwrite
      obtain rfl : p = q := Except.ok.inj (hp.symm.trans hq)
      refine h.files.trans (.put ⟨path, h.logging ▸ hpath, ?_⟩ htext)
      rw [FileTree.eq_lead_of_locate hp, h.files.here]
  rw [Machine.log, hm]
  exact ⟨h.programs, h.logging, hagree⟩

theorem launch (hcall : ∀ t k, (m₀.programs.launch (Git.invocation directory args) t k).2.1 = t) :
    Git.KeptBy (Looked m₀) directory args := by
  intro m h
  rcases m.launch_eq (Git.invocation directory args) with hm | ⟨p, -, hm⟩
  · rwa [hm]
  · rw [hm, h.programs, hcall]
    exact ⟨rfl, h.logging, h.files⟩

theorem containing (hgit : Git.Looks m₀.programs) (directory : String) :
    Task.Keeps (Looked m₀) (Git.Repository.containing directory) := by
  intro m hm
  have h := Git.ask_keeps quiet (launch fun t k => (hgit directory t k).1) m hm
  show Looked m₀ ((Git.Repository.containing directory : Task μ GitError Git.Repository) m).2
  unfold Git.Repository.containing
  rcases hr : (Git.ask directory ["rev-parse", "--show-toplevel"]).run m with ⟨answer, m'⟩
  rw [hr] at h
  cases answer <;> exact h

theorem checkBranch (hgit : Git.Looks m₀.programs) (s : Settings) (r : Git.Repository) :
    Task.Keeps (Looked m₀) (Running.checkBranch s r) := by
  unfold Running.checkBranch
  cases s.merge.targetBranch with
  | none => exact .pure _
  | some target =>
    refine .bind (.adapt _ (Git.ask_keeps quiet (launch fun t k => (hgit r.root t k).2))) fun branch => ?_
    by_cases hb : branch = target
    · rw [if_pos hb]
      exact .pure _
    · rw [if_neg hb]
      exact .throw _

theorem prepare (hgit : Git.Looks m₀.programs) (a : RunArguments) (s : Settings) :
    Task.Keeps (Looked m₀) (a.prepare s false) := by
  unfold RunArguments.prepare
  refine .bind (fun _ h => h) fun m => .bind (.adapt _ (containing hgit _)) fun r => ?_
  exact .bind (checkBranch hgit s r) fun _ => .bind (fun _ h => h) fun state => .pure _

end Looked

theorem completed_of_prepared (h : (a.prepare s false).run m = (.ok (r, state), m')) : state.completed = ∅ := by
  -- The machine is looked at, the repository is looked up, its branch is checked, and only then is there a state.
  obtain ⟨m₁, _, -, h⟩ := Task.run_bind_eq_ok h
  obtain ⟨r', _, -, h⟩ := Task.run_bind_eq_ok h
  obtain ⟨_, _, -, h⟩ := Task.run_bind_eq_ok h
  obtain ⟨state', m₂, hstate, h⟩ := Task.run_bind_eq_ok h
  cases h
  cases hstate
  rfl

theorem follows_of_prepared (ascii : Bool) (hgit : Git.Looks m.programs)
    (hitems : ¬ m.IsLog (Path.lead m.files.here a.items))
    (h : (a.prepare (a.override s) false).run (entered false m) = (.ok (r, state), m')) :
    a.Follows s ascii false m r state (Planning.outcome m.files r.root s a.items) := by
  have hfollows := follows ascii h
  have hlooked : Looked m m' := by
    have hkept := Looked.prepare hgit a (a.override s) (entered false m) ⟨rfl, rfl, .refl _⟩
    rwa [h] at hkept
  rw [completed_of_prepared h, Planning.draft_agree hlooked.files hitems] at hfollows
  exact hfollows

/-- The plan that `plan` shows is made from the directory that is given, and the one that `run` goes on with from the top
of the repository. They are the same where the same archive is seen from both. -/
theorem plans_of_prepared (a : RunArguments) (s : Settings) (ascii : Bool) (hgit : Git.Looks m.programs)
    (hitems : ¬ m.IsLog (Path.lead m.files.here a.items))
    (h : (a.prepare (a.override s) false).run (entered false m) = (.ok (r, state), m')) :
    PlanArguments.Shows ⟨a.items, a.repo⟩ s ascii m (Planning.outcome m.files (Planning.directory a.repo m) s a.items) ∧
      a.Follows s ascii false m r state (Planning.outcome m.files r.root s a.items) ∧
      (Planning.SameArchive m.files s (Planning.directory a.repo m) r.root →
        Planning.outcome m.files (Planning.directory a.repo m) s a.items = Planning.outcome m.files r.root s a.items) := by
  refine ⟨PlanArguments.shows ⟨a.items, a.repo⟩ s ascii m, follows_of_prepared ascii hgit hitems h, fun harchive => ?_⟩
  unfold Planning.outcome
  rw [Planning.draft_congr harchive]

/-! ### A repository with an archive at its top -/

/-- A git that says for every directory that it lies in `/repo`. -/
def surveyor : Programs Unit where
  launch _ t k := (.ok { code := some 0, stdout := "/repo\n".toList.map fun c => c.toNat.toUInt8 }, t, k)

def surveyedItems : List Item := [{ id := "A-1" }, { id := "A-2", blockedBy := .ofList ["A-1"] }]

def surveyedText : String :=
  (Json.obj [("items", .arr [.obj [("id", .str "A-1")],
    .obj [("id", .str "A-2"), ("blocked_by", .arr [.str "A-1"])]])]).compact

/-- The working directory is at the top of the repository, and there is a directory `sub` in it. Of the two items, the
first is archived. -/
def surveyed : Machine Unit where
  programs := surveyor
  kept := ()
  files := {
    entries := [(["repo"], .directory), (["repo", "sub"], .directory), (["repo", ".issues"], .directory),
      (["repo", ".issues", "completed"], .directory), (["repo", ".issues", "completed", "A-1-done.md"], .file ""),
      (["repo", "items.json"], .file surveyedText)]
    here := ["repo"] }
  now := default
  runId := "run"

def surveyedFrom (repo : String) : RunArguments := { items := "items.json", repo := some repo }

theorem looks_surveyor : Git.Looks surveyor := fun _ _ _ => ⟨rfl, rfl⟩

theorem not_isLog_surveyed (p : Place) : ¬ surveyed.IsLog p := by
  rintro ⟨_, h, -⟩
  cases h

/-- A run up to its plan. -/
def prepared (repo : String) : Except CommandError (Git.Repository × RunState) × Machine Unit :=
  ((surveyedFrom repo).prepare ((surveyedFrom repo).override {}) false).run (entered false surveyed)

theorem exists_prepared {repo : String} (h : (prepared repo).1.toOption.map (·.1.root) = some "/repo") :
    ∃ state m', prepared repo = (.ok (⟨"/repo"⟩, state), m') := by
  rcases hr : prepared repo with ⟨e | ⟨⟨root⟩, state⟩, m'⟩
  · rw [hr] at h
    cases h
  · rw [hr] at h
    cases h
    exact ⟨state, m', rfl⟩

theorem exists_planned {root : String} {done : StringSet} {ids : List String}
    (hc : Planning.completed surveyed.files root {} { items := surveyedItems } ∅ = .ok done)
    (hp : ((Graph.build surveyedItems done .block).bind fun g => (Plan.build g done).map Plan.ids) = .ok ids) :
    ∃ p, Planning.outcome surveyed.files root {} "items.json" = .ok p ∧ p.ids = ids := by
  have hm : Planning.manifest surveyed.files "items.json" = .ok { items := surveyedItems } := by decide +kernel
  obtain ⟨g, p, hg, hp, hids⟩ := Plan.exists_of_bind_eq_ok hp
  have hg' : Graph.build surveyedItems done ({} : Settings).scheduler.orphanPolicy = .ok g := hg
  have hdraft : Planning.draft surveyed.files root {} "items.json" ∅ = .ok ⟨{ items := surveyedItems }, done, g, p⟩ :=
    Planning.draft_eq_ok.mpr ⟨hm, hc, hg', hp⟩
  refine ⟨p, ?_, hids⟩
  unfold Planning.outcome
  rw [hdraft]
  rfl

theorem completed_surveyed :
    Planning.completed surveyed.files "/repo" {} { items := surveyedItems } ∅ = .ok (.ofList ["A-1"]) := by
  decide +kernel

/-- A path to the top goes through `sub`. Both commands see the archive, and plan the second item alone. -/
theorem plans_by_detour : ∃ p state,
    PlanArguments.Shows ⟨"items.json", some "sub/.."⟩ {} true surveyed (.ok p) ∧
      (surveyedFrom "sub/..").Follows {} true false surveyed ⟨"/repo"⟩ state (.ok p) ∧ p.ids = ["A-2"] := by
  have hroot : (prepared "sub/..").1.toOption.map (·.1.root) = some "/repo" := by decide +kernel
  have hsub : surveyed.files.directory (Planning.directory (some "sub/..") surveyed) = .ok ["repo"] := by decide +kernel
  have htop : surveyed.files.directory "/repo" = .ok ["repo"] := by decide +kernel
  have hfault : FileTree.pathFault? (Planning.archive (Planning.directory (some "sub/..") surveyed) {}) =
      FileTree.pathFault? (Planning.archive "/repo" {}) := by decide +kernel
  have harchive : Planning.SameArchive surveyed.files {} (Planning.directory (some "sub/..") surveyed) "/repo" :=
    .inr ⟨["repo"], hsub, htop, hfault⟩
  obtain ⟨state, m', hprepared⟩ := exists_prepared hroot
  obtain ⟨p, hp, hids⟩ := exists_planned completed_surveyed (by cbv)
  have hplan : Planning.outcome surveyed.files "/repo" {} (surveyedFrom "sub/..").items = .ok p := hp
  have hall := plans_of_prepared (surveyedFrom "sub/..") {} true looks_surveyor (not_isLog_surveyed _) hprepared
  rw [hall.2.2 harchive, hplan] at hall
  exact ⟨p, state, hall.1, hall.2.1, hids⟩

/-- From a directory further down, `plan` sees no archive, and shows the first item as well. -/
theorem differs_below : ∃ p q state,
    PlanArguments.Shows ⟨"items.json", some "sub"⟩ {} true surveyed (.ok p) ∧
      (surveyedFrom "sub").Follows {} true false surveyed ⟨"/repo"⟩ state (.ok q) ∧
      p.ids = ["A-1", "A-2"] ∧ q.ids = ["A-2"] := by
  have hroot : (prepared "sub").1.toOption.map (·.1.root) = some "/repo" := by decide +kernel
  have hnone : Planning.completed surveyed.files "sub" {} { items := surveyedItems } ∅ = .ok ∅ := by decide +kernel
  obtain ⟨state, m', hprepared⟩ := exists_prepared hroot
  obtain ⟨p, hp, hpids⟩ := exists_planned hnone (by cbv)
  obtain ⟨q, hq, hqids⟩ := exists_planned completed_surveyed (by cbv)
  have hshows := PlanArguments.shows ⟨"items.json", some "sub"⟩ {} true surveyed
  have hfollows : (surveyedFrom "sub").Follows {} true false surveyed ⟨"/repo"⟩ state
      (Planning.outcome surveyed.files "/repo" {} (surveyedFrom "sub").items) :=
    follows_of_prepared true looks_surveyor (not_isLog_surveyed _) hprepared
  have hp' : Planning.outcome surveyed.files (Planning.directory (some "sub") surveyed) {} "items.json" = .ok p := hp
  have hq' : Planning.outcome surveyed.files "/repo" {} (surveyedFrom "sub").items = .ok q := hq
  rw [hp'] at hshows
  rw [hq'] at hfollows
  exact ⟨p, q, state, hshows, hfollows, hpids, hqids⟩

end RunArguments

end WorkWaves
