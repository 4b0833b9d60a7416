import WorkWaves.Rehearsal
import WorkWaves.Rehearsal.Programs

/-!
# What was written down, as JSON

The log of a rehearsal without what the clock says, and the calls of programs with places as seen from a
directory.
-/

namespace WorkWaves

open Json (nat)

/-- An outcome without its duration. -/
def Outcome.record (o : Outcome) : Json :=
  .obj ([("item_id", .str o.itemId), ("status", .str o.status.text), ("started", .bool o.started)] ++
    (o.waveIndex.map fun n => ("wave_index", nat n)).toList ++
    (o.reason.map fun r => ("reason", Json.str r)).toList ++
    (o.exitCode.map fun c => ("exit_code", Json.int c)).toList)

/-- What an event says besides its name. -/
def Event.members : Event → List (String × Json)
  | .runStart attempt items waves =>
    [("attempt", nat attempt), ("total_items", nat items), ("total_waves", nat waves)]
  | .plan p => [("waves", .arr (p.waves.map fun w => .strs w.ids))]
  | .waveStart index total ids note =>
    [("wave_index", nat index), ("total_waves", nat total), ("items", .strs ids),
      ("note", match note with
        | some n => n.toJson
        | none => .null)]
  | .itemStart id wave => [("item_id", .str id), ("wave_index", nat wave)]
  | .itemEnd o => [("outcome", o.record)]
  | .waveEnd index counts => [("wave_index", nat index), ("counts", counts.toJson)]
  | .runEnd s => [("exit_code", .int s.exitCode.toInt)]

def LogEntry.toJson : LogEntry → Json
  | .call key detail => .str (if detail.isEmpty then key else key ++ "|" ++ detail)
  | .event e => .obj (("event", .str e.name) :: e.members)

namespace Rehearsal

/-- A place as seen from a directory that it lies in. -/
def seenFrom (directory place : Place) : String :=
  match place.drop directory.length with
  | [] => "."
  | names => "/".intercalate names

def ProgramCall.toJson (directory : Place) (c : ProgramCall) : Json :=
  match c.program with
  | .git => .obj [("git", .strs c.args), ("cwd", .str (seenFrom directory c.place))]
  | .fixer => .obj [("fixer", .strs c.args), ("cwd", .str (seenFrom directory c.place)),
      ("env", .obj (c.env.entries.map fun e => (e.1, .str e.2)))]

end Rehearsal

end WorkWaves
