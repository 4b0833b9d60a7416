import WorkWaves.State.Basic
import WorkWaves.Json.Reader

/-!
# The text of a state

How a state stands in its file, and what is read from one. Reasons are left out when there are none.
-/

namespace WorkWaves

namespace Timestamp

/-- Reads a point in time. -/
def read : Json.Read Timestamp
  | .string (some s) =>
    match ofText? s with
    | some t => .ok t
    | none => .error .malformed
  | n => n.mismatch "an RFC 3339 formatted date and time string"

def toJson (t : Timestamp) : Json := .str t.text

end Timestamp

def Status.read : Json.Read Status := Json.Read.variant (Status.all.map fun s => (s.text, s))

namespace RunState

def toJson (s : RunState) : Json :=
  .obj ([("wave_index", .nat s.waveIndex),
      ("items", .obj (s.statuses.entries.map fun e => (e.1, .str e.2.text)))] ++
    (if s.reasons.isEmpty then []
     else [("reasons", .obj (s.reasons.entries.map fun e => (e.1, .str e.2)))]) ++
    [("attempt", .nat s.attempt), ("started_at", s.startedAt.toJson),
     ("updated_at", s.updatedAt.toJson)])

/-- The text of the state file. -/
def fileText (s : RunState) : String := s.toJson.pretty

/-- The fields of a state read so far. -/
structure Parts where
  waveIndex : Option Nat := none
  statuses : Option (StringMap Status) := none
  reasons : Option (StringMap String) := none
  attempt : Option Nat := none
  startedAt : Option Timestamp := none
  updatedAt : Option Timestamp := none

def fields : List (Json.Read.Field Parts) :=
  [⟨"wave_index", true, (·.waveIndex.isSome),
     fun n p => (Json.Read.natural (Nat.pow 2 64) "usize" n).map fun v => { p with waveIndex := v }⟩,
   ⟨"items", false, (·.statuses.isSome),
     fun n p => (Json.Read.map Status.read n).map fun v => { p with statuses := v }⟩,
   ⟨"reasons", false, (·.reasons.isSome),
     fun n p => (Json.Read.map Json.Read.string n).map fun v => { p with reasons := v }⟩,
   ⟨"attempt", false, (·.attempt.isSome),
     fun n p => (Json.Read.natural attemptLimit "u32" n).map fun v => { p with attempt := v }⟩,
   ⟨"started_at", true, (·.startedAt.isSome),
     fun n p => (Timestamp.read n).map fun v => { p with startedAt := v }⟩,
   ⟨"updated_at", true, (·.updatedAt.isSome),
     fun n p => (Timestamp.read n).map fun v => { p with updatedAt := v }⟩]

def Parts.state (p : Parts) : RunState where
  waveIndex := p.waveIndex.getD 0
  statuses := p.statuses.getD ∅
  reasons := p.reasons.getD ∅
  attempt := p.attempt.getD 1
  startedAt := p.startedAt.getD default
  updatedAt := p.updatedAt.getD default

def read : Json.Read RunState := fun n =>
  (Json.Read.record "ExecutionState" fields {} n).map Parts.state

/-- Reads a state from the text of its file. -/
def ofText (text : String) : Except Json.Fault RunState := Json.readText read text

end RunState

end WorkWaves
