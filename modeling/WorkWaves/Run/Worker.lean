import WorkWaves.Merge.Integration
import WorkWaves.Run.Event
import WorkWaves.Text.Blank
import WorkWaves.Text.Lines

/-!
# Workers

A worker takes one item through its life: it gets a workspace, has the fixer work in it, commits what that
changed, merges the branch, and takes the workspace away. It asks its surroundings for each step, and every
way in which a step can fail becomes an outcome.
-/

namespace WorkWaves

/-- What the fixer is to do. -/
structure FixRequest where
  itemId : String
  workspace : String
  title : Option String
  description : String
  deriving DecidableEq, Repr

/-- How the fixer ended, and the last lines of what it said. -/
structure FixResult where
  exitCode : Int
  stdoutTail : String
  stderrTail : String
  deriving DecidableEq, Repr

def FixResult.success (r : FixResult) : Bool := r.exitCode == 0

/-- How a worker stops waiting for the fixer. -/
inductive FixEnd where
  | finished (r : FixResult)
  | failed (e : Failure)
  /-- The time budget was spent. -/
  | timedOut
  | interrupted
  deriving DecidableEq, Repr

/-- What others do for a worker, and may fail at. -/
inductive Errand where
  | create (itemId : String)
  | commit (w : Workspace) (message : String)
  | remove (w : Workspace)
  /-- A call on the repository for the merge of a workspace. -/
  | repository (w : Workspace) (c : RepositoryCall)
  deriving DecidableEq, Repr

def Errand.Answer : Errand → Type
  | .create _ => Except Failure Workspace
  | .commit _ _ => Except Failure Bool
  | .remove _ => Except Failure Unit
  | .repository _ c => c.Answer

/-- What a worker asks for. -/
inductive WorkerCall where
  /-- Whether to stop. -/
  | interrupted
  /-- The milliseconds that have passed. -/
  | time
  | tell (e : Event)
  | write (r : LogRecord)
  /-- To be the only one who works on the repository. -/
  | lock
  | unlock
  | fix (r : FixRequest)
  | errand (e : Errand)

def WorkerCall.Answer : WorkerCall → Type
  | .interrupted => Bool
  | .time => Nat
  | .tell _ | .write _ | .lock | .unlock => Unit
  | .fix _ => FixEnd
  | .errand e => e.Answer

namespace Worker

/-- A dialogue of a worker with its surroundings. -/
abbrev Talk := Dialogue WorkerCall WorkerCall.Answer

/-- Asks for something. -/
def call (c : WorkerCall) : Talk c.Answer := .ask c .done

def interrupted : Talk Bool := call .interrupted

def time : Talk Nat := call .time

def tell (e : Event) : Talk Unit := call (.tell e)

/-- Writes down what is done. -/
def write (level : LogLevel) (text : String) (fields : LogFields) : Talk Unit :=
  call (.write { level := level, area := .run, text := text, fields := fields })

def fix (r : FixRequest) : Talk FixEnd := call (.fix r)

def errand (e : Errand) : Talk e.Answer := call (.errand e)

/-- How the merge of a workspace asks through the worker. -/
def mergeCall (w : Workspace) : (c : MergeCall) → Talk c.Answer
  | .lock => call .lock
  | .unlock => call .unlock
  | .interrupted => interrupted
  | .repository c => errand (.repository w c)
  | .write r => call (.write (r.within (Merge.span w)))

/-- What a worker has to know besides its item. -/
structure Setting where
  waveIndex : Nat
  limits : RunLimits
  exclusions : Exclusions

/-- How an item ends: the fields of its outcome that say so. -/
structure End where
  status : Status
  reason : Option String := none
  exitCode : Option Int := none
  deriving DecidableEq, Repr

namespace End

/-- An item for which no fixer ended. -/
def early (status : Status) (reason : String) : End := { status := status, reason := some reason }

/-- An item whose fixer ended with success. -/
def fixed (status : Status) (reason : Option String := none) : End :=
  { status := status, reason := reason, exitCode := some 0 }

/-- An item whose fixer ended without success. -/
def unfixed (r : FixResult) : End :=
  let detail := Text.trim ((Text.lines r.stderrTail).getLastD "")
  { status := .failed
    reason := some ("fixer exited with code " ++ toString r.exitCode ++
      (if detail.isEmpty then "" else ": " ++ detail))
    exitCode := some r.exitCode }

/-- An item whose branch was given to the merge. -/
def ofMerge : Except Failure MergeOutcome → End
  | .ok .merged => fixed .completed
  | .ok (.conflict files) => fixed .failed (some ("merge conflict in " ++ ", ".intercalate files))
  | .ok .interrupted => fixed .interrupted (some "interrupted before merge")
  | .error e => fixed .failed (some ("merge failed: " ++ e.full))

end End

/-- The request to the fixer for an item. -/
def request (item : Item) (w : Workspace) : FixRequest :=
  ⟨item.id, w.path, item.title, item.description⟩

/-- Commits what the fixer changed and merges it. -/
def record (s : Setting) (item : Item) (w : Workspace) : Talk End := do
  match ← errand (.commit w (item.displayName ++ ": automated fix")) with
  | .error e => return .fixed .failed (some ("commit failed: " ++ e.full))
  | .ok false => return .fixed .completed (some "no changes to merge")
  | .ok true =>
    let result ← (Merge.integrate s.exclusions w
      ("Merge " ++ w.branch ++ " (" ++ item.id ++ ")")).within (mergeCall w)
    return .ofMerge result

/-- Has the fixer work in a workspace, and records what it did. -/
def fixAndRecord (s : Setting) (item : Item) (w : Workspace) : Talk End := do
  match ← fix (request item w) with
  | .interrupted => return .early .interrupted "interrupted while the fixer was running"
  | .timedOut =>
    return .early .timeout ("exceeded time budget of " ++ toString (s.limits.budgetMs / 1000) ++ "s")
  | .failed e => return .early .failed ("fixer error: " ++ e.full)
  | .finished r => if r.success then record s item w else return .unfixed r

/-- Whether the workspace of an item that ended so stays. -/
def keeps (s : Setting) (e : End) : Bool := e.status != .completed && s.limits.keepFailed

/-- Works on an item in a workspace of its own. Whether the workspace can be taken away does not matter. -/
def execute (s : Setting) (item : Item) : Talk End := do
  match ← errand (.create item.id) with
  | .error e => return .early .failed ("workspace creation failed: " ++ e.full)
  | .ok w =>
    write .debug "Workspace ready" [("item_id", .text item.id), ("path", .text w.path)]
    let ending ← fixAndRecord s item w
    if keeps s ending then
      write .info "Keeping workspace of unsuccessful item" [("item_id", .text item.id), ("path", .text w.path)]
    else if let .error e ← errand (.remove w) then
      write .warn "Workspace cleanup failed" [("item_id", .text item.id), ("error", .text e.headline)]
    return ending

/-- The outcome of an item that ended after some time. -/
def outcome (s : Setting) (item : Item) (e : End) (durationMs : Nat) : Outcome :=
  { itemId := item.id, waveIndex := some s.waveIndex, status := e.status, reason := e.reason
    exitCode := e.exitCode, durationMs := durationMs }

/-- What is written down of an outcome. -/
def fields (s : Setting) (o : Outcome) : LogFields :=
  [("item_id", .text o.itemId), ("wave", .count s.waveIndex), ("status", .text o.status.text),
    ("duration_ms", .count o.durationMs), ("reason", .text (o.reason.getD ""))]

/-- Takes an item through its life. -/
def work (s : Setting) (item : Item) : Talk Outcome := do
  if ← interrupted then return .notStarted item.id s.waveIndex
  let start ← time
  tell (.itemStart item.id s.waveIndex)
  let ending ← execute s item
  let stop ← time
  let o := outcome s item ending (stop - start)
  write .info "Item finished" (fields s o)
  tell (.itemEnd o)
  return o

/-- No worker asks more often. -/
def patience : Nat := 32

end Worker

end WorkWaves
