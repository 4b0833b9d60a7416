import WorkWaves.Run.Event

/-!
# Events for programs

Each event is one JSON object with its keys in order.
-/

namespace WorkWaves.Render

/-- What an event says besides its name and its run. -/
def fields : Event → List (String × Json)
  | .runStart attempt items waves =>
    [("metadata", .obj [("attempt", .nat attempt), ("total_items", .nat items),
      ("total_waves", .nat waves)])]
  | .plan p => [("metadata", p.toJson)]
  | .waveStart index total ids note =>
    [("metadata", .obj [("wave_index", .nat index), ("total_waves", .nat total), ("items", .strs ids),
      ("contention", match note with
        | some n => n.toJson
        | none => .null)])]
  | .itemStart id wave => [("item_id", .str id), ("metadata", .obj [("wave_index", .nat wave)])]
  | .itemEnd o =>
    [("item_id", .str o.itemId),
     ("code", match o.exitCode with
       | some c => .int c
       | none => .null),
     ("metadata", o.toJson)]
  | .waveEnd index c =>
    [("metadata", .obj [("wave_index", .nat index), ("counts", c.toJson)])]
  | .runEnd s =>
    [("code", .int s.exitCode.toInt),
     ("metadata", .obj [("attempt", .nat s.attempt), ("total_items", .nat s.totalItems),
       ("waves_run", .nat s.wavesRun), ("counts", s.counts.toJson), ("interrupted", .bool s.interrupted),
       ("duration_ms", .nat s.durationMs)])]

/-- The record of an event, with the time at which it is written. -/
def record (time runId : String) (e : Event) : Json :=
  (Json.obj ([("v", .nat 1), ("event_type", .str e.name), ("ts", .str time), ("run_id", .str runId)] ++
    fields e)).sortKeys

end WorkWaves.Render
