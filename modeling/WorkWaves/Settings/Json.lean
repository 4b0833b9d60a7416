import WorkWaves.Json.Value
import WorkWaves.Settings.Basic

/-!
# Settings as JSON

All settings that hold, in the groups and under the names of the files they come from.
-/

namespace WorkWaves

open Json (nat strs)

def textOrNull : Option String → Json
  | some s => .str s
  | none => .null

def SchedulerSettings.toJson (s : SchedulerSettings) : Json :=
  .obj [("max_workers", nat s.maxWorkers), ("worker_timeout_secs", nat s.workerTimeoutSecs),
    ("orphan_policy", .str s.orphanPolicy.text), ("progress_bar", .bool s.progressBar)]

def OutputFormat.label : OutputFormat → String
  | .text => "text"
  | .jsonl => "jsonl"

def Settings.toJson (s : Settings) : Json :=
  .obj [
    ("logging", .obj [("enabled", .bool s.logging.enabled), ("console", .bool s.logging.console),
      ("file", .bool s.logging.file), ("level", .str s.logging.level),
      ("directory", textOrNull s.logging.directory)]),
    ("scheduler", s.scheduler.toJson),
    ("workspace", .obj [("root", .str s.workspace.root), ("branch_prefix", .str s.workspace.branchPrefix),
      ("keep_failed", .bool s.workspace.keepFailed)]),
    ("merge", .obj [("target_branch", textOrNull s.merge.targetBranch),
      ("archive_dir", .str s.merge.archiveDir),
      ("external_state_files", strs s.merge.externalStateFiles),
      ("extra_exclusions", strs s.merge.extraExclusions)]),
    ("fixer", .obj [("command", .str s.fixer.command), ("args", strs s.fixer.args),
      ("env", .obj (s.fixer.env.entries.map fun e => (e.1, .str e.2)))]),
    ("state", .obj [("path", .str s.state.path)]),
    ("output", .obj [("format", .str s.output.format.label), ("pretty_print", .bool s.output.prettyPrint)])]

/-- The limits of a run; the time in seconds. -/
def RunLimits.members (l : RunLimits) : List (String × Json) :=
  [("max_workers", nat l.maxWorkers), ("timeout_secs", nat (l.budgetMs / 1000)),
    ("keep_failed", .bool l.keepFailed)]

end WorkWaves
