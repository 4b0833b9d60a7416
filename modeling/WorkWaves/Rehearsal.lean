import WorkWaves.Run.Execution

/-!
# Rehearsals

Surroundings that follow a script and write down what is asked of them. A rehearsal shows what a run does
when the fixer is slow, a merge conflicts or an interrupt comes at a given moment, without touching anything.
-/

namespace WorkWaves

/-- What the fixer does with an item. -/
structure FixScript where
  delayMs : Nat := 0
  error : Option Failure := none
  code : Int := 0
  stdout : String := ""
  stderr : String := ""

/-- What happens to the workspace of an item. -/
structure WorkspaceScript where
  createDelayMs : Nat := 0
  createError : Option Failure := none
  /-- Its branch; if none is given, it is named after the item. -/
  branch : Option String := none
  /-- Whether there is something to commit. -/
  commit : Bool := true
  commitError : Option Failure := none
  removeError : Option Failure := none

/-- What the repository answers. Lists are used up call by call; then calls succeed. -/
structure RepositoryScript where
  dirty : List DirtyFile := []
  head : List (Except Failure String) := []
  status : List (Option Failure) := []
  stashPush : List (Option Failure) := []
  stashPop : List (Option Failure) := []
  abort : List (Option Failure) := []
  resetHard : List (Option Failure) := []
  resetMerge : List (Option Failure) := []
  /-- By branch; a branch of which nothing is said is merged. -/
  merge : StringMap (Except Failure MergeAttempt) := ∅
  mergeDelayMs : Nat := 0

/-- What is written down: a call by its key and the rest of it, or an event. -/
inductive LogEntry where
  | call (key detail : String)
  | event (e : Event)

namespace LogEntry

/-- By what an entry can be referred to. -/
def key : LogEntry → String
  | call key _ => key
  | event (.waveStart n ..) => "wave.start:" ++ toString n
  | event (.itemStart id _) => "item.start:" ++ id
  | event (.itemEnd o) => "item.end:" ++ o.itemId
  | event (.waveEnd n _) => "wave.end:" ++ toString n
  | event e => e.name

end LogEntry

/-- A rehearsal on its way. -/
structure Rehearsal where
  fixes : StringMap FixScript := ∅
  workspaces : StringMap WorkspaceScript := ∅
  repository : RepositoryScript := {}
  /-- Whether someone listens to the events. -/
  listening : Bool := true
  /-- The entry with which an interrupt comes. -/
  interruptOn : Option String := none
  /-- The moment at which an interrupt comes. -/
  interruptAt : Option Nat := none
  files : FileTree := {}
  store : StateStore
  /-- What the clock on the wall shows all the time. -/
  moment : Timestamp
  interrupted : Bool := false
  elapsedMs : Nat := 0
  /-- The latest entry first. -/
  log : List LogEntry := []

namespace Rehearsal

/-- Writes an entry down. -/
def note (e : LogEntry) (r : Rehearsal) : Rehearsal :=
  { r with
    log := e :: r.log
    interrupted := r.interrupted || r.interruptOn == some e.key }

/-- Writes a call down. -/
def noteCall (key : String) (r : Rehearsal) (detail : String := "") : Rehearsal := r.note (.call key detail)

/-- The first answer of a list, and the list without it. -/
def take : List (Option Failure) → Except Failure Unit × List (Option Failure)
  | some e :: rest => (.error e, rest)
  | none :: rest => (.ok (), rest)
  | [] => (.ok (), [])

/-- The commit on which the repository is when the script does not say. -/
def baseCommit : String := "base"

/-- What the repository answers to a call. -/
def answer (r : Rehearsal) : (c : RepositoryCall) → c.Answer × Rehearsal
  | .head =>
    let r := r.noteCall "head"
    match r.repository.head with
    | h :: rest => (h, { r with repository := { r.repository with head := rest } })
    | [] => (.ok baseCommit, r)
  | .dirtyFiles =>
    let r := r.noteCall "status"
    let t := take r.repository.status
    (t.1.map fun _ => r.repository.dirty, { r with repository := { r.repository with status := t.2 } })
  | .existing => (r.files.pathExists, r)
  | .stashPush paths message =>
    let r := r.noteCall ("stash_push:" ++ ",".intercalate paths) message
    let t := take r.repository.stashPush
    (t.1, { r with repository := { r.repository with stashPush := t.2 } })
  | .stashPop =>
    let r := r.noteCall "stash_pop"
    let t := take r.repository.stashPop
    (t.1, { r with repository := { r.repository with stashPop := t.2 } })
  | .merge branch message =>
    ((r.repository.merge.get? branch).getD (.ok .merged), r.noteCall ("merge:" ++ branch) message)
  | .abort =>
    let r := r.noteCall "abort"
    let t := take r.repository.abort
    (t.1, { r with repository := { r.repository with abort := t.2 } })
  | .resetHard rev =>
    let r := r.noteCall ("reset_hard:" ++ rev)
    let t := take r.repository.resetHard
    (t.1, { r with repository := { r.repository with resetHard := t.2 } })
  | .resetMerge rev =>
    let r := r.noteCall ("reset_merge:" ++ rev)
    let t := take r.repository.resetMerge
    (t.1, { r with repository := { r.repository with resetMerge := t.2 } })

/-- What a merge is answered that nothing competes with. -/
def answerMerge (c : MergeCall) (r : Rehearsal) : c.Answer × Rehearsal :=
  match c with
  | .lock | .unlock | .write _ => ((), r)
  | .interrupted => (r.interrupted, r)
  | .repository c => r.answer c

/-- The script for the workspace of an item. -/
def workspace (r : Rehearsal) (id : String) : WorkspaceScript := (r.workspaces.get? id).getD {}

/-- Nothing, or the failure that there is. -/
def unlessFailed {α : Type} (a : α) : Option Failure → Except Failure α
  | none => .ok a
  | some e => .error e

/-- Does an errand. -/
def errand (e : Errand) (r : Rehearsal) : Timed e.Answer × Rehearsal :=
  match e with
  | .create id =>
    let w := r.workspace id
    (⟨unlessFailed ⟨id, w.branch.getD ("b/" ++ id), "ws/" ++ id⟩ w.createError, w.createDelayMs⟩,
      r.noteCall ("create:" ++ id))
  | .commit w message =>
    let s := r.workspace w.itemId
    (⟨unlessFailed s.commit s.commitError, 0⟩, r.noteCall ("commit:" ++ w.itemId) message)
  | .remove w =>
    (⟨unlessFailed () (r.workspace w.itemId).removeError, 0⟩, r.noteCall ("remove:" ++ w.itemId))
  | .repository _ (.merge branch message) =>
    let (a, r) := r.answer (.merge branch message)
    (⟨a, r.repository.mergeDelayMs⟩, r)
  | .repository _ c =>
    let (a, r) := r.answer c
    (⟨a, 0⟩, r)

/-- Lets the fixer work. -/
def fix (q : FixRequest) (r : Rehearsal) : Timed (Except Failure FixResult) × Rehearsal :=
  let s := (r.fixes.get? q.itemId).getD {}
  let detail := "|".intercalate [q.workspace, q.title.getD "-", q.description]
  (⟨unlessFailed ⟨s.code, s.stdout, s.stderr⟩ s.error, s.delayMs⟩,
    r.noteCall ("fix:" ++ q.itemId) detail)

/-- Lets time pass. -/
def pass (goal : Nat) (r : Rehearsal) : Rehearsal :=
  match r.interruptAt with
  | some t =>
    if !r.interrupted && t < goal then
      { r with elapsedMs := max t r.elapsedMs, interrupted := true }
    else { r with elapsedMs := max goal r.elapsedMs }
  | none => { r with elapsedMs := max goal r.elapsedMs }

/-- Saves a state among the files of the rehearsal. -/
def save (state : RunState) (r : Rehearsal) : Except StateError Unit × Rehearsal :=
  let (files, result) := r.store.save state r.files
  (result, { r with files := files })

/-- What a rehearsed run takes place in. -/
def surroundings : Surroundings Rehearsal where
  errand := errand
  fix := fix
  tell e r := if r.listening then r.note (.event e) else r
  write _ r := r
  save := save
  interrupted := (·.interrupted)
  elapsed := (·.elapsedMs)
  pass := pass
  now := (·.moment)

end Rehearsal

end WorkWaves
