import WorkWaves.Merge.Integration
import WorkWaves.Proofs.Dialogue

/-!
# What a merge puts aside

`Exclusions.Guards` says which paths are to be left alone. A merge puts aside the paths of the changes that it was
told of and that are not excluded (`integrate_puts`). A change is judged by where the file is now, so a guarded path
is put aside when its file was moved away from it to a place that is not guarded, and only then; the archive alone
is guarded on both ends of a move (`mem_stash_of_leads`).
-/

namespace WorkWaves

open Dialogue

namespace Exclusions

variable {x : Exclusions} {present : String → Bool} {files : List DirtyFile} {f : DirtyFile} {path : String}

/-- A path lies in the archive. -/
def Archives (x : Exclusions) (path : String) : Prop := ∃ dir, x.archiveDir = some dir ∧ Path.Within path dir

/-- A path whose changes are to be left alone: the state file, a state file of another program, or what lies in an
extra exclusion or in the archive. -/
def Guards (x : Exclusions) (path : String) : Prop :=
  x.stateFile = some path ∨ path ∈ x.externalFiles ∨ (∃ dir ∈ x.extra, Path.Within path dir) ∨ x.Archives path

theorem inArchive_iff : x.inArchive path = true ↔ x.Archives path := by
  unfold inArchive Archives
  cases x.archiveDir <;> simp [Path.isWithin_iff]

theorem protects_iff : x.protects path = true ↔ x.Guards path := by
  simp only [protects, Guards, Bool.or_eq_true, beq_iff_eq, List.contains_iff_mem, List.any_eq_true,
    Path.isWithin_iff, inArchive_iff, or_assoc]

theorem excludes_eq_false : x.excludes present f = false ↔ ¬ x.Guards f.path ∧ (match f.change with
    | .renamed source => x.inArchive source
    | .deleted => x.hasArchived present f.path
    | .modified | .added => false) = false := by
  rw [excludes, Bool.or_eq_false_iff, ← Bool.not_eq_true (x.protects f.path)]
  exact and_congr (not_congr protects_iff) Iff.rfl

/-- A guarded path is put aside just when a file was moved away from it, out of everything that is guarded. -/
theorem mem_stashPaths_iff (h : x.Guards path) : path ∈ x.stashPaths present files ↔
    ¬ x.Archives path ∧ ∃ f ∈ files, f.change = .renamed path ∧ ¬ x.Guards f.path := by
  simp only [stashPaths, toStash, List.mem_flatMap, List.mem_filter, Bool.not_eq_true', excludes_eq_false]
  constructor
  · rintro ⟨f, ⟨hf, hpath, hchange⟩, hmem⟩
    cases hc : f.change with
    | renamed source =>
      simp only [DirtyFile.paths, hc, List.mem_cons, List.not_mem_nil, or_false] at hmem
      rcases hmem with rfl | rfl
      · rw [hc, ← Bool.not_eq_true, inArchive_iff] at hchange
        exact ⟨hchange, f, hf, hc, hpath⟩
      · exact absurd h hpath
    | modified | added | deleted =>
      simp only [DirtyFile.paths, hc, List.mem_singleton] at hmem
      exact absurd (hmem ▸ h) hpath
  · rintro ⟨harchive, f, hf, hc, hpath⟩
    refine ⟨f, ⟨hf, hpath, ?_⟩, by simp [DirtyFile.paths, hc]⟩
    rwa [hc, ← Bool.not_eq_true, inArchive_iff]

end Exclusions

namespace Merge

/-- What a merge was told of local changes, if it was. -/
structure Told where
  files : Option (List DirtyFile) := none
  present : Option (String → Bool) := none

namespace Told

def next (t : Told) : Exchange MergeCall MergeCall.Answer → Told
  | ⟨.repository .dirtyFiles, (.ok files : Except Failure (List DirtyFile))⟩ => { t with files := some files }
  | ⟨.repository .existing, (present : String → Bool)⟩ => { t with present := some present }
  | _ => t

/-- Nothing is put aside but what the exclusions leave of the changes that the merge was told of. -/
def Allows (x : Exclusions) (t : Told) : MergeCall → Prop
  | .repository (.stashPush paths _) =>
    ∃ files present, t = ⟨some files, some present⟩ ∧ paths = x.stashPaths present files
  | _ => True

theorem mem_of_foldl {h : List (Exchange MergeCall MergeCall.Answer)} {t : Told} {files : List DirtyFile}
    (ht : (h.foldl next t).files = some files) :
    t.files = some files ∨
      (⟨.repository .dirtyFiles, (.ok files : Except Failure (List DirtyFile))⟩ :
        Exchange MergeCall MergeCall.Answer) ∈ h := by
  induction h generalizing t with
  | nil => exact .inl ht
  | cons e h ih =>
    rcases ih ht with he | he
    · unfold next at he
      split at he
      · cases he
        exact .inr (List.mem_cons_self ..)
      · exact .inl he
      · exact .inl he
    · exact .inr (List.mem_cons_of_mem e he)

end Told

/-- A part of a merge that puts aside no more than the exclusions leave. -/
abbrev Puts {α : Type} (x : Exclusions) (t : Told) (d : Talk α) : Prop :=
  Safe (Told.Allows x) Told.next (fun _ _ => True) t d

variable {x : Exclusions} {t : Told}

theorem returnTo_puts (head : String) : Puts x t (returnTo head) := by
  refine ⟨trivial, ?_⟩
  rintro (e | now)
  · trivial
  · exact Safe.ite (fun _ => trivial) fun _ => ⟨trivial, fun _ => trivial⟩

theorem rollback_puts (head : String) (c : Bool) : Puts x t (rollback head c) := by
  refine ⟨trivial, ?_⟩
  rintro (e | ⟨⟩)
  · refine Safe.ite (fun _ => ?_) fun _ => ?_
    · exact ⟨trivial, fun _ => ⟨trivial, fun _ => trivial⟩⟩
    · exact ⟨trivial, fun _ => returnTo_puts head⟩
  · exact returnTo_puts head

theorem attempt_puts (head branch message : String) : Puts x t (attempt head branch message) := by
  refine ⟨trivial, ?_⟩
  rintro (e | (_ | files))
  · exact ⟨trivial, fun _ => (rollback_puts head false).andThen (by rintro _ (e | ⟨⟩) _ <;> trivial)⟩
  · exact ⟨trivial, fun _ => trivial⟩
  · exact ⟨trivial, fun _ => (rollback_puts head true).andThen (by rintro _ (e | ⟨⟩) _ <;> trivial)⟩

theorem restore_puts (head : String) : Puts x t (restore head) := by
  refine ⟨trivial, ?_⟩
  rintro (e | ⟨⟩)
  · trivial
  · refine ⟨trivial, ?_⟩
    rintro (e | ⟨⟩) <;> trivial

theorem bringBack_puts (head : String) (paths : List String) (result : Except Failure MergeOutcome) :
    Puts x t (bringBack head paths result) := by
  refine ⟨trivial, ?_⟩
  rintro (e | ⟨⟩)
  · refine ⟨trivial, fun _ => (restore_puts head).andThen ?_⟩
    rintro _ (e' | ⟨⟩) -
    · trivial
    · match result with
      | .ok .merged | .ok (.conflict _) | .ok .interrupted | .error _ => trivial
  · trivial

theorem withoutChanges_puts (w : Workspace) (message head : String) {files : List DirtyFile}
    {present : String → Bool} (ht : t = ⟨some files, some present⟩) :
    Puts x t (withoutChanges w message head (x.stashPaths present files)) := by
  refine Safe.ite (fun _ => attempt_puts head w.branch message) fun _ => ⟨⟨files, present, ht, rfl⟩, ?_⟩
  rintro (e | ⟨⟩)
  · trivial
  · refine ⟨trivial, fun _ => (attempt_puts head w.branch message).andThen fun _ result _ => ?_⟩
    exact bringBack_puts head _ result

theorem around_puts (w : Workspace) (message head : String) : Puts x t (around x w message head) := by
  refine ⟨trivial, ?_⟩
  rintro (e | files)
  · trivial
  · refine ⟨trivial, fun present => Safe.ite (fun _ => ?_) fun _ => ⟨trivial, fun _ => ?_⟩⟩
    · exact withoutChanges_puts w message head rfl
    · exact withoutChanges_puts w message head rfl

theorem underLock_puts (w : Workspace) (message : String) : Puts x t (underLock x w message) := by
  refine ⟨trivial, ?_⟩
  rintro (_ | _)
  · refine ⟨trivial, ?_⟩
    rintro (e | head)
    · trivial
    · exact around_puts w message head
  · exact ⟨trivial, fun _ => trivial⟩

theorem integrate_puts (w : Workspace) (message : String) : Puts x t (integrate x w message) :=
  ⟨trivial, fun _ => (underLock_puts w message).andThen fun _ _ _ => ⟨trivial, fun _ => trivial⟩⟩

/-- Of the paths that are guarded, a merge puts aside just those from which a file was moved to a place that is not
guarded, apart from the archive: of that it puts nothing aside. -/
theorem mem_stash_of_leads {w : Workspace} {message : String} {h : List (Exchange MergeCall MergeCall.Answer)}
    {rest : Talk (Except Failure MergeOutcome)} (hl : Leads (integrate x w message) h rest) {paths : List String}
    {name : String} {a : Except Failure Unit}
    (hp : (⟨.repository (.stashPush paths name), a⟩ : Exchange MergeCall MergeCall.Answer) ∈ h) :
    ∃ files : List DirtyFile, (⟨.repository .dirtyFiles, (.ok files : Except Failure (List DirtyFile))⟩ :
        Exchange MergeCall MergeCall.Answer) ∈ h ∧
      ∀ path, x.Guards path → (path ∈ paths ↔
        ¬ x.Archives path ∧ ∃ f ∈ files, f.change = .renamed path ∧ ¬ x.Guards f.path) := by
  obtain ⟨pre, post, rfl⟩ := List.append_of_mem hp
  obtain ⟨files, present, htold, rfl⟩ := (integrate_puts (x := x) (t := {}) w message).allowed hl
  refine ⟨files, ?_, fun path hg => Exclusions.mem_stashPaths_iff hg⟩
  rcases Told.mem_of_foldl (congrArg Told.files htold) with h | h
  · cases h
  · exact List.mem_append_left _ h

/-- Exclusions of nothing but a state file. -/
def onlyState : Exclusions := { stateFile := some "state.json" }

/-- A course in which the state file was renamed, and is put aside under both its names. -/
theorem exists_renamed : ∃ (h : List (Exchange MergeCall MergeCall.Answer))
      (rest : Talk (Except Failure MergeOutcome)) (a : Except Failure Unit),
    Leads (integrate onlyState ⟨"item", "branch", "dir"⟩ "message") h rest ∧
    (⟨.repository (.stashPush ["state.json", "kept.json"] "wavesmith: before merging item"), a⟩ :
      Exchange MergeCall MergeCall.Answer) ∈ h :=
  ⟨[⟨.lock, ()⟩, ⟨.interrupted, false⟩, ⟨.repository .head, (.ok "old" : Except Failure String)⟩,
      ⟨.repository .dirtyFiles, (.ok [⟨"kept.json", .renamed "state.json"⟩] : Except Failure (List DirtyFile))⟩,
      ⟨.repository .existing, (fun _ => false : String → Bool)⟩,
      ⟨.repository (.stashPush ["state.json", "kept.json"] "wavesmith: before merging item"),
        (.ok () : Except Failure Unit)⟩], _, .ok (),
    .ask <| .ask <| .ask <| .ask <| .ask <| .ask <| .refl _, by simp⟩

/-- A renamed state file is put aside although it is guarded. -/
theorem stash_of_renamed_state_file : ∃ (h : List (Exchange MergeCall MergeCall.Answer))
      (rest : Talk (Except Failure MergeOutcome)) (paths : List String) (name path : String)
      (a : Except Failure Unit),
    Leads (integrate onlyState ⟨"item", "branch", "dir"⟩ "message") h rest ∧
    (⟨.repository (.stashPush paths name), a⟩ : Exchange MergeCall MergeCall.Answer) ∈ h ∧
    path ∈ paths ∧ onlyState.Guards path := by
  obtain ⟨h, rest, a, hl, hp⟩ := exists_renamed
  exact ⟨h, rest, _, _, "state.json", a, hl, hp, by simp, .inl rfl⟩

theorem mem_stash_of_renamed : ∃ (h : List (Exchange MergeCall MergeCall.Answer)) (files : List DirtyFile),
    (⟨.repository .dirtyFiles, (.ok files : Except Failure (List DirtyFile))⟩ :
      Exchange MergeCall MergeCall.Answer) ∈ h ∧
    ∀ path, onlyState.Guards path → (path ∈ ["state.json", "kept.json"] ↔
      ¬ onlyState.Archives path ∧ ∃ f ∈ files, f.change = .renamed path ∧ ¬ onlyState.Guards f.path) := by
  obtain ⟨h, rest, a, hl, hp⟩ := exists_renamed
  exact ⟨h, mem_stash_of_leads hl hp⟩

end Merge

end WorkWaves
