import WorkWaves.Graph.Basic

/-!
# Settings

All that can be configured, with the values that hold when nothing is said.
-/

namespace WorkWaves

/-- What is logged, and where to. -/
structure LoggingSettings where
  enabled : Bool := true
  console : Bool := true
  file : Bool := false
  level : String := "info"
  directory : Option String := none
  deriving DecidableEq, Repr

/-- How work is scheduled. -/
structure SchedulerSettings where
  maxWorkers : Nat := 3
  workerTimeoutSecs : Nat := 1800
  orphanPolicy : OrphanPolicy := .block
  progressBar : Bool := true
  deriving DecidableEq, Repr

/-- Where workspaces are made. -/
structure WorkspaceSettings where
  root : String := ".wavesmith/worktrees"
  branchPrefix : String := "wavesmith"
  keepFailed : Bool := false
  deriving DecidableEq, Repr

/-- How branches are merged, and what is left alone by it. -/
structure MergeSettings where
  targetBranch : Option String := none
  archiveDir : String := ".issues/completed"
  externalStateFiles : List String := [".claude/ll-state.json"]
  extraExclusions : List String := []
  deriving DecidableEq, Repr

/-- The program that is run for each item. -/
structure FixerSettings where
  command : String := "claude"
  args : List String := ["--print", "Fix issue \x7bitem_id\x7d in this repository."]
  env : StringMap String := ∅
  deriving DecidableEq, Repr

structure StateSettings where
  path : String := ".wavesmith/state.json"
  deriving DecidableEq, Repr

/-- How events are written. -/
inductive OutputFormat where
  | text
  | jsonl
  deriving DecidableEq, Repr

structure OutputSettings where
  format : OutputFormat := .text
  prettyPrint : Bool := false
  deriving DecidableEq, Repr

/-- All settings. -/
structure Settings where
  logging : LoggingSettings := {}
  scheduler : SchedulerSettings := {}
  workspace : WorkspaceSettings := {}
  merge : MergeSettings := {}
  fixer : FixerSettings := {}
  state : StateSettings := {}
  output : OutputSettings := {}
  deriving DecidableEq, Repr

/-- What a run needs to know of the settings. -/
structure RunLimits where
  /-- How many workers may be busy at once. -/
  maxWorkers : Nat := 3
  /-- The time that a fixer has, in milliseconds. -/
  budgetMs : Nat := 1800000
  /-- Whether workspaces of items that were not completed stay. -/
  keepFailed : Bool := false
  deriving DecidableEq, Repr

/-- The number of workers for a wave. -/
def RunLimits.workersFor (l : RunLimits) (items : Nat) : Nat := max (min l.maxWorkers items) 1

/-- The limits that settings give; at least one worker is allowed. -/
def Settings.limits (s : Settings) : RunLimits where
  maxWorkers := max s.scheduler.maxWorkers 1
  budgetMs := s.scheduler.workerTimeoutSecs * 1000
  keepFailed := s.workspace.keepFailed

end WorkWaves
