import WorkWaves.State.Json
import WorkWaves.Dialogue
import WorkWaves.Files.Tree

/-!
# Keeping the state in a file

The file is replaced as a whole: the new text goes into a file beside it, which then takes its place. A save is a
dialogue (`StateStore.saving`) whose calls each may be refused; a failed save leaves the file as it was.
-/

namespace WorkWaves

/-- Why a state cannot be kept or found. -/
inductive StateError where
  | write (path : String) (fault : FileFault)
  | read (path : String) (fault : FileFault)
  | corrupt (path : String) (fault : Json.Fault)
  | invalidMove (move : InvalidMove)
  deriving DecidableEq, Repr

def StateError.message : StateError → String
  | .write path fault => "failed to write state file " ++ path ++ ": " ++ fault.message
  | .read path fault => "failed to read state file " ++ path ++ ": " ++ fault.message
  | .corrupt path fault => "state file " ++ path ++ " is not valid: " ++ fault.message
  | .invalidMove move => move.message

/-- The steps of a save. -/
inductive SaveStep where
  | makeParent
  | create
  | writeText
  | sync
  | rename
  deriving DecidableEq, Repr

/-- The step that a call makes; taking away what was written is none. -/
def SaveStep.of? : FileCall → Option SaveStep
  | .makeDirectories _ => some makeParent
  | .create _ => some create
  | .write .. => some writeText
  | .sync _ => some sync
  | .rename .. => some rename
  | .removeFile _ => none

/-- Where the state is kept. -/
structure StateStore where
  path : String
  deriving DecidableEq, Repr

namespace StateStore

/-- The file that receives the new text. -/
def temporary (s : StateStore) : String :=
  Path.withFileName s.path ("." ++ (Path.fileName? s.path).getD "state.json" ++ ".tmp")

/-- Makes the directory of the file, if it has one. -/
def makingParent (s : StateStore) : Dialogue FileCall FileCall.Answer (Except StateError Unit) :=
  match Path.parent? s.path with
  | none | some "" => .done (.ok ())
  | some parent => .ask (.makeDirectories parent) fun r => .done (r.mapError (.write parent))

/-- Writes a text into the file beside. -/
def writingBeside (s : StateStore) (text : String) : Dialogue FileCall FileCall.Answer (Except FileFault Unit) :=
  .ask (.create s.temporary) fun
    | .error e => .done (.error e)
    | .ok () => .ask (.write s.temporary text) fun
      | .error e => .done (.error e)
      | .ok () => .ask (.sync s.temporary) .done

/-- Takes away the file beside, if that can be, and gives up. -/
def givingUp (s : StateStore) (e : StateError) : Dialogue FileCall FileCall.Answer (Except StateError Unit) :=
  .ask (.removeFile s.temporary) fun _ => .done (.error e)

/-- Replaces the file by the text of a state: a save, as a dialogue with what answers for the files. -/
def saving (s : StateStore) (state : RunState) : Dialogue FileCall FileCall.Answer (Except StateError Unit) :=
  s.makingParent.andThen fun
    | .error e => .done (.error e)
    | .ok () => (s.writingBeside state.fileText).andThen fun
      | .error e => s.givingUp (.write s.temporary e)
      | .ok () => .ask (.rename s.temporary s.path) fun
        | .error e => s.givingUp (.write s.path e)
        | .ok () => .done (.ok ())

/-- What a tree answers when the medium refuses some steps, as `fault` says. -/
def answerWith (fault : SaveStep → Option FileFault) (c : FileCall) (files : FileTree) : c.Answer × FileTree :=
  match (SaveStep.of? c).bind fault with
  | some e => (.error e, files)
  | none => files.answer c

/-- Replaces the file by the text of a state. `fault` says which steps the medium refuses, and how. -/
def saveWith (fault : SaveStep → Option FileFault) (s : StateStore) (state : RunState)
    (files : FileTree) : FileTree × Except StateError Unit :=
  ((s.saving state).run (answerWith fault) files).swap

/-- Replaces the file on a medium that refuses nothing by itself. -/
def save (s : StateStore) (state : RunState) (files : FileTree) :
    FileTree × Except StateError Unit :=
  s.saveWith (fun _ => none) state files

/-- What is kept, by what was read; nothing if there is no file. -/
def loaded (s : StateStore) : Except FileFault String → Except StateError (Option RunState)
  | .error .notFound => .ok none
  | .error e => .error (.read s.path e)
  | .ok text =>
    match RunState.ofText text with
    | .ok state => .ok (some state)
    | .error e => .error (.corrupt s.path e)

/-- The kept state; none if there is no file. -/
def load (s : StateStore) (files : FileTree) : Except StateError (Option RunState) := s.loaded (files.read s.path)

/-- The state to go on from: the kept one in a new attempt, or that of a run that begins now. -/
def resume (s : StateStore) (now : Timestamp) (files : FileTree) : Except StateError RunState :=
  (s.load files).map fun
    | some state => state.beginAttempt now
    | none => .new now

end StateStore

end WorkWaves
