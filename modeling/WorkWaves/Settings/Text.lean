import WorkWaves.Settings.Basic
import WorkWaves.Toml.Text

/-!
# Settings from a text

A document has a table for each group of settings. What it does not say keeps its value, what it says besides
is passed over, and a value of the wrong kind refuses the whole document. A group may also be written as the
list of its values.
-/

namespace WorkWaves

namespace Toml

def text? : Toml → Option String
  | .string s => some s
  | _ => none

def flag? : Toml → Option Bool
  | .boolean b => some b
  | _ => none

def natural? : Toml → Option Nat
  | .integer (.ofNat n) => some n
  | _ => none

def texts? : Toml → Option (List String)
  | .array l => l.mapM text?
  | .tables [] => some []
  | _ => none

/-- The name under which a date passes for a table. -/
def dateKey : String := "$__toml_private_datetime"

/-- A table of texts. -/
def textMap? : Toml → Option (StringMap String)
  | .table _ entries => (entries.mapM fun e => (text? e.2).map (e.1, ·)).map StringMap.ofList
  | .datetime s => some (StringMap.ofList [(dateKey, s)])
  | _ => none

def isEmptyGroup : Toml → Bool
  | .table _ entries => entries.isEmpty
  | .array l => l.isEmpty
  | .tables l => l.isEmpty
  | _ => false

/-- One of a few names; also a table whose only key has that name and holds nothing. -/
def choice? {α : Type} (choices : List (String × α)) : Toml → Option α
  | .string s => choices.lookup s
  | .table _ [(key, v)] => if isEmptyGroup v then choices.lookup key else none
  | _ => none

/-- Settings of a group by name, each with what writes it. -/
abbrev ValueGroup (ρ : Type) := List (String × (Toml → ρ → Option ρ))

/-- Reads a group over given values. -/
def ValueGroup.read? {ρ : Type} (g : ValueGroup ρ) (start : ρ) : Toml → Option ρ
  | .table _ entries =>
    entries.foldlM (fun r e =>
      match g.lookup e.1 with
      | some set => set e.2 r
      | none => some r) start
  | .array l => (g.zip l).foldlM (fun r p => p.1.2 p.2 r) start
  | .tables l => (g.zip l).foldlM (fun r p => p.1.2 (.table .defined p.2) r) start
  | .datetime _ => some start
  | _ => none

end Toml

namespace Settings

open Toml

def loggingGroup : ValueGroup LoggingSettings :=
  [("enabled", fun v s => (flag? v).map ({ s with enabled := · })),
   ("console", fun v s => (flag? v).map ({ s with console := · })),
   ("file", fun v s => (flag? v).map ({ s with file := · })),
   ("level", fun v s => (text? v).map ({ s with level := · })),
   ("directory", fun v s => (text? v).map ({ s with directory := some · }))]

def schedulerGroup : ValueGroup SchedulerSettings :=
  [("max_workers", fun v s => (natural? v).map ({ s with maxWorkers := · })),
   ("worker_timeout_secs", fun v s => (natural? v).map ({ s with workerTimeoutSecs := · })),
   ("orphan_policy", fun v s =>
     (choice? [("block", OrphanPolicy.block), ("satisfy", .satisfy)] v).map
       ({ s with orphanPolicy := · })),
   ("progress_bar", fun v s => (flag? v).map ({ s with progressBar := · }))]

def workspaceGroup : ValueGroup WorkspaceSettings :=
  [("root", fun v s => (text? v).map ({ s with root := · })),
   ("branch_prefix", fun v s => (text? v).map ({ s with branchPrefix := · })),
   ("keep_failed", fun v s => (flag? v).map ({ s with keepFailed := · }))]

def mergeGroup : ValueGroup MergeSettings :=
  [("target_branch", fun v s => (text? v).map ({ s with targetBranch := some · })),
   ("archive_dir", fun v s => (text? v).map ({ s with archiveDir := · })),
   ("external_state_files", fun v s => (texts? v).map ({ s with externalStateFiles := · })),
   ("extra_exclusions", fun v s => (texts? v).map ({ s with extraExclusions := · }))]

def fixerGroup : ValueGroup FixerSettings :=
  [("command", fun v s => (text? v).map ({ s with command := · })),
   ("args", fun v s => (texts? v).map ({ s with args := · })),
   ("env", fun v s => (textMap? v).map ({ s with env := · }))]

def stateGroup : ValueGroup StateSettings :=
  [("path", fun v s => (text? v).map ({ s with path := · }))]

def outputGroup : ValueGroup OutputSettings :=
  [("format", fun v s =>
     (choice? [("text", OutputFormat.text), ("jsonl", .jsonl)] v).map ({ s with format := · })),
   ("pretty_print", fun v s => (flag? v).map ({ s with prettyPrint := · }))]

/-- The groups of a document. -/
def groups : ValueGroup Settings :=
  [("logging", fun v s => (loggingGroup.read? {} v).map ({ s with logging := · })),
   ("scheduler", fun v s => (schedulerGroup.read? {} v).map ({ s with scheduler := · })),
   ("workspace", fun v s => (workspaceGroup.read? {} v).map ({ s with workspace := · })),
   ("merge", fun v s => (mergeGroup.read? {} v).map ({ s with merge := · })),
   ("fixer", fun v s => (fixerGroup.read? {} v).map ({ s with fixer := · })),
   ("state", fun v s => (stateGroup.read? {} v).map ({ s with state := · })),
   ("output", fun v s => (outputGroup.read? {} v).map ({ s with output := · }))]

/-- Reads settings from a document; nothing if it is no document or a value is of the wrong kind. -/
def ofText? (text : String) : Option Settings :=
  (Toml.ofText? text).bind fun entries => groups.read? {} (.table .defined entries)

end Settings

end WorkWaves
