import WorkWaves.Cli.Arguments
import WorkWaves.Manifest.Archive
import WorkWaves.Machine
import WorkWaves.Plan
import WorkWaves.Render

/-!
# Planning from files

A plan is made from the manifest, the archive of finished items and what is complete besides. The command
`plan` shows it and does nothing else.
-/

namespace WorkWaves

variable {μ : Type}

namespace Planning

/-- Reads a manifest from a file. -/
def manifest (files : FileTree) (path : String) : Except CommandError Manifest :=
  match files.read path with
  | .error e => .error (.unreadable path e)
  | .ok text => (Manifest.ofText text).mapError fun e => .input ("invalid manifest: " ++ e.message)

/-- The directory of finished items. -/
def archive (root : String) (s : Settings) : String := Path.join root s.merge.archiveDir

/-- All ids that are complete. -/
def completed (files : FileTree) (root : String) (s : Settings) (m : Manifest) (besides : StringSet) :
    Except CommandError StringSet :=
  match m.completedIds files (some (archive root s)) with
  | .ok ids => .ok (ids ∪ besides)
  | .error e => .error (.io e.message)

/-- A plan with what it was made from. -/
structure Draft where
  manifest : Manifest
  completed : StringSet
  graph : Graph
  plan : Plan

/-- Plans the items in a file, as seen from the top of a repository. -/
def draft (files : FileTree) (root : String) (s : Settings) (items : String) (besides : StringSet) :
    Except CommandError Draft := do
  let m ← manifest files items
  let done ← completed files root s m besides
  let g ← (Graph.build m.items done s.scheduler.orphanPolicy).mapError fun e => .run (.graph e)
  let p ← (Plan.build g done).mapError fun e => .run (.graph e)
  return ⟨m, done, g, p⟩

namespace Draft

/-- Planning as a piece of work. -/
def span (d : Draft) : LogSpan :=
  ⟨"build", .planning, [("items", .count d.graph.size), ("completed", .count d.completed.toList.length)]⟩

/-- What there is to be written down about the graph. -/
def graphRecords (d : Draft) : List LogRecord :=
  (d.graph.items.flatMap fun i =>
    (i.blocks.toList.filter fun id => !d.graph.contains id).map fun id =>
      { level := .debug, area := .graph, text := "ignoring blocks declaration for unknown item"
        fields := [("item_id", .text i.id), ("blocks", .text id)] }) ++
  d.graph.orphans.map fun o =>
    { level := .warn, area := .graph, text := "unresolved blocker"
      fields := [("item_id", .text o.itemId), ("blocker", .text o.blockerId),
        ("policy", .text d.graph.policy.text)] }

/-- What there is to be written down about the waves. -/
def waveRecords (d : Draft) : List LogRecord :=
  (d.plan.waves.filterMap fun w =>
    match w.note with
    | some n =>
      if n.subWaveIndex = 1 then
        some { level := .info, area := .contention, text := "Splitting wave over contended paths"
               fields := [("wave", .count w.parentIndex), ("sub_waves", .count n.totalSubWaves),
                 ("paths", .text (", ".intercalate n.contendedPaths))] }
      else none
    | none => none) ++
  [{ level := .info, area := .planning, text := "Execution plan built"
     fields := [("dependency_waves", .count (d.plan.waves.map (·.parentIndex)).eraseDups.length),
       ("refined_waves", .count d.plan.waves.length)] }]

/-- What there is to be written down about a plan. -/
def records (d : Draft) : List LogRecord :=
  d.graphRecords ++ d.waveRecords.map (·.within d.span) ++
    [{ level := .info, area := .planCommand, text := "Plan ready"
       fields := [("items", .count d.manifest.items.length), ("waves", .count d.plan.waves.length),
         ("blocked", .count d.plan.blocked.length),
         ("already_completed", .count d.plan.alreadyCompleted.length)] }]

end Draft

/-- What there is to be written down about the finished items, if there is a directory of them. -/
def archiveRecords (files : FileTree) (dir : String) (m : Manifest) : List LogRecord :=
  match files.list dir, Archive.ids files dir m.knownIds with
  | .ok _, .ok ids =>
    [{ level := .debug, area := .manifest, text := "Archived items found"
       fields := [("dir", .text dir), ("count", .count ids.toList.length)] }]
  | _, _ => []

/-- Makes the plan and writes down what there is to be said about it. -/
def make (root : String) (s : Settings) (items : String) (besides : StringSet) :
    Task μ CommandError Plan := fun m =>
  match draft m.files root s items besides with
  | .ok d =>
    let records := archiveRecords m.files (archive root s) d.manifest ++ d.records
    (.ok d.plan, records.foldl Machine.record m)
  | .error e => (.error e, m)

/-- The directory that is meant by the option for it. -/
def directory (repo : Option String) (m : Machine μ) : String :=
  match repo with
  | some path => Path.expandHome m.home? path
  | none => m.currentDirectory

end Planning

/-- Shows an event. -/
def Machine.show (r : Renderer) (e : Event) (m : Machine μ) : Machine μ :=
  m.print (r.render m.now m.runId e)

/-- Carries out `plan`. -/
def PlanArguments.execute (a : PlanArguments) (s : Settings) (ascii : Bool) :
    Task μ CommandError ExitCode := do
  let p ← Planning.make (Planning.directory a.repo (← get)) s a.items ∅
  modify (Machine.show (.ofSettings s.output ascii) (.plan p))
  return .success

end WorkWaves
