import WorkWaves.Proofs.Files
import WorkWaves.Proofs.State.Text
import WorkWaves.State.Store

/-!
# A saved state is loaded again

A save that succeeds has written the text of the state beside the file and moved it there, so the state is what is
loaded afterwards (`load_of_save`), also where the medium could have refused a step (`load_of_saveWith`). What is
loaded can be saved again (`writable_of_load`).
-/

namespace WorkWaves.StateStore

variable {s : StateStore} {state : RunState} {files files' : FileTree} {fault : SaveStep → Option FileFault}

/-! ### What a save that succeeds has done -/

theorem answer_of_answerWith {c : FileCall} (h : answerWith fault c files = (.ok (), files')) :
    files.answer c = (.ok (), files') := by
  unfold answerWith at h
  split at h
  · cases h
  · exact h

theorem makingParent_eq_ok (h : s.makingParent.run (answerWith fault) files = (.ok (), files')) :
    files' = files ∨ ∃ path, files.makeDirectories path = (files', .ok ()) := by
  unfold makingParent at h
  split at h
  · exact .inl (congrArg Prod.snd h).symm
  · exact .inl (congrArg Prod.snd h).symm
  · next parent _ _ =>
    cases hmade : answerWith fault (.makeDirectories parent) files with
    | mk r t =>
      rw [Dialogue.run, hmade] at h
      cases r with
      | error e => cases h
      | ok _ =>
        obtain rfl : t = files' := congrArg Prod.snd h
        exact .inr ⟨parent, Prod.swap_inj.mp (answer_of_answerWith hmade)⟩

theorem writingBeside_eq_ok {text : String}
    (h : (s.writingBeside text).run (answerWith fault) files = (.ok (), files')) :
    ∃ created, files.write s.temporary "" = .ok created ∧ created.write s.temporary text = .ok files' := by
  unfold writingBeside at h
  cases hcreate : answerWith fault (.create s.temporary) files with
  | mk r created =>
    rw [Dialogue.run, hcreate] at h
    cases r with
    | error e => cases h
    | ok _ =>
      cases hwrite : answerWith fault (.write s.temporary text) created with
      | mk r written =>
        dsimp only at h
        rw [Dialogue.run, hwrite] at h
        cases r with
        | error e => cases h
        | ok _ =>
          have hsync := answer_of_answerWith h
          obtain rfl : written = files' := congrArg Prod.snd hsync
          exact ⟨created, FileTree.settle_eq_ok (answer_of_answerWith hcreate),
            FileTree.settle_eq_ok (answer_of_answerWith hwrite)⟩

theorem saveWith_eq_ok (h : s.saveWith fault state files = (files', .ok ())) : ∃ parent created written,
    (parent = files ∨ ∃ path, files.makeDirectories path = (parent, .ok ())) ∧
      parent.write s.temporary "" = .ok created ∧ created.write s.temporary state.fileText = .ok written ∧
      written.rename s.temporary s.path = .ok files' := by
  have hrun : (s.saving state).run (answerWith fault) files = (.ok (), files') := Prod.swap_inj.mp h
  rw [saving, Dialogue.run_andThen] at hrun
  cases hparent : s.makingParent.run (answerWith fault) files with
  | mk r parent =>
    rw [hparent] at hrun
    cases r with
    | error e => cases hrun
    | ok _ =>
      dsimp only at hrun
      rw [Dialogue.run_andThen] at hrun
      cases hbeside : (s.writingBeside state.fileText).run (answerWith fault) parent with
      | mk r beside =>
        rw [hbeside] at hrun
        cases r with
        | error e => cases hrun
        | ok _ =>
          cases hrename : answerWith fault (.rename s.temporary s.path) beside with
          | mk r moved =>
            dsimp only at hrun
            rw [Dialogue.run, hrename] at hrun
            cases r with
            | error e => cases hrun
            | ok _ =>
              obtain rfl : moved = files' := congrArg Prod.snd hrun
              obtain ⟨created, hcreate, hwrite⟩ := writingBeside_eq_ok hbeside
              exact ⟨parent, created, beside, makingParent_eq_ok hparent, hcreate, hwrite,
                FileTree.settle_eq_ok (answer_of_answerWith hrename)⟩

/-- What comes of a save when the text could be written beside the file depends on the move. -/
theorem save_eq_of_steps {parent created written : FileTree}
    (hparent : s.makingParent.run (answerWith fun _ => none) files = (.ok (), parent))
    (hcreate : parent.write s.temporary "" = .ok created)
    (hwrite : created.write s.temporary state.fileText = .ok written) :
    s.save state files = match written.rename s.temporary s.path with
      | .ok moved => (moved, .ok ())
      | .error e => (written.removeFile s.temporary, .error (.write s.path e)) := by
  have hc : answerWith (fun _ => none) (.create s.temporary) parent = (.ok (), created) :=
    congrArg parent.settle hcreate
  have hw : answerWith (fun _ => none) (.write s.temporary state.fileText) created = (.ok (), written) :=
    congrArg created.settle hwrite
  have hbeside : (s.writingBeside state.fileText).run (answerWith fun _ => none) parent = (.ok (), written) := by
    unfold writingBeside
    simp only [Dialogue.run, hc, hw]
    rfl
  have hr : answerWith (fun _ => none) (.rename s.temporary s.path) written =
      written.settle (written.rename s.temporary s.path) := rfl
  unfold save saveWith
  rw [saving, Dialogue.run_andThen, hparent]
  dsimp only
  rw [Dialogue.run_andThen, hbeside]
  simp only [Dialogue.run, hr]
  cases written.rename s.temporary s.path <;> rfl

/-- A save whose steps are all done. -/
theorem save_of_steps {parent created written : FileTree}
    (hparent : s.makingParent.run (answerWith fun _ => none) files = (.ok (), parent))
    (hcreate : parent.write s.temporary "" = .ok created)
    (hwrite : created.write s.temporary state.fileText = .ok written)
    (hrename : written.rename s.temporary s.path = .ok files') : s.save state files = (files', .ok ()) := by
  rw [save_eq_of_steps hparent hcreate hwrite, hrename]

/-- After a save on any medium, the file holds the text of the state. -/
theorem read_of_saveWith (hfiles : files.Anchored) (h : s.saveWith fault state files = (files', .ok ())) :
    files'.read s.path = .ok state.fileText := by
  obtain ⟨parent, created, written, hparent, hcreate, hwrite, hrename⟩ := saveWith_eq_ok h
  have hparent : parent.Anchored := by
    rcases hparent with rfl | ⟨path, hmade⟩
    · exact hfiles
    · have hanchored : (files.makeDirectories path).1.Anchored := FileTree.makeDirectories_anchored hfiles
      rwa [hmade] at hanchored
  obtain ⟨hcreated, -⟩ := FileTree.read_write hparent hcreate
  obtain ⟨hwritten, hread⟩ := FileTree.read_write hcreated hwrite
  exact FileTree.read_rename hwritten hrename hread

theorem read_of_save (hfiles : files.Anchored) (h : s.save state files = (files', .ok ())) :
    files'.read s.path = .ok state.fileText := read_of_saveWith hfiles h

theorem load_of_read (hstate : state.Writable) (h : files.read s.path = .ok state.fileText) :
    s.load files = .ok (some state) := by
  simp only [load, loaded, h, RunState.ofText_fileText hstate]

/-- A state that was saved is what is loaded. -/
theorem load_of_save (hfiles : files.Anchored) (hstate : state.Writable) (h : s.save state files = (files', .ok ())) :
    s.load files' = .ok (some state) :=
  load_of_read hstate (read_of_save hfiles h)

/-- What a save on any medium kept is loaded just as it was, whatever the ids, the reasons and the statuses are, and
whatever the file held before. -/
theorem load_of_saveWith {fault : SaveStep → Option FileFault} (hfiles : files.Anchored) (hstate : state.Writable)
    (h : s.saveWith fault state files = (files', .ok ())) : s.load files' = .ok (some state) :=
  load_of_read hstate (read_of_saveWith hfiles h)

section Awkward

/-- A state at the ends of its counters and of the years of four digits, with ids and reasons that have to be escaped. -/
def awkward : RunState where
  waveIndex := 18446744073709551615
  statuses := .ofList [("", .pending), ("a\"b\\c", .running), ("\u0000\n\u007f", .completed), ("𝄞", .failed),
    ("é/ü", .skipped), ("t", .timeout), ("i", .interrupted)]
  reasons := .ofList [("𝄞", "said \"no\"\r\n\u001b[0m"), ("gone", "")]
  attempt := 4294967295
  startedAt := ⟨0, 2, 29, 23, 59, 60, 1⟩
  updatedAt := ⟨9999, 12, 31, 23, 59, 59, 120000000⟩

theorem awkward_writable : awkward.Writable where
  waveIndex := by decide
  attempt := by decide
  startedAt := by constructor <;> decide
  updatedAt := by constructor <;> decide

/-- A working directory below the root, where the file of the state holds something else. -/
def staleTree : FileTree where
  entries := [(["w"], .directory), (["w", "run"], .directory), (["w", "run", "s.json"], .file "no state")]
  here := ["w"]

theorem staleTree_anchored : staleTree.Anchored := by
  intro p hp
  obtain rfl | ⟨q, rfl, hq⟩ := List.prefix_cons_iff.mp hp
  · rfl
  · rw [List.prefix_nil.mp hq]
    rfl

theorem load_of_awkward : ∃ files',
    (StateStore.mk "run/s.json").saveWith (fun _ => none) awkward staleTree = (files', .ok ()) ∧
      (StateStore.mk "run/s.json").load files' = .ok (some awkward) := by
  obtain ⟨files', h⟩ : ∃ files',
      (StateStore.mk "run/s.json").save awkward staleTree = (files', .ok ()) := ⟨_, save_of_steps rfl rfl rfl rfl⟩
  exact ⟨files', h, load_of_saveWith staleTree_anchored awkward_writable h⟩

end Awkward

theorem writable_of_load (h : s.load files = .ok (some state)) : state.Writable := by
  unfold load loaded at h
  split at h
  · cases h
  · cases h
  · split at h
    · next hread =>
      cases h
      exact RunState.ofText_writable hread
    · cases h

end WorkWaves.StateStore
