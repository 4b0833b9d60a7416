import WorkWaves.Run.Event

/-!
# Events for people

One line for each event, and several for a plan.
-/

namespace WorkWaves.Render

/-- A mark for how an item ended, in plain letters or as a sign. -/
def mark (ascii : Bool) : Status → String
  | .completed => if ascii then "OK" else "✔"
  | .skipped => if ascii then "SKIP" else "⤼"
  | .interrupted => if ascii then "INT" else "⏸"
  | _ => if ascii then "FAIL" else "✘"

def commas (l : List String) : String := ", ".intercalate l

/-- The line of a wave in a plan. -/
def waveLine (w : RefinedWave) : String :=
  "  wave " ++ toString w.wave.index ++ ": " ++ commas w.ids ++
    match w.note with
    | some n =>
      "  [split " ++ toString n.subWaveIndex ++ "/" ++ toString n.totalSubWaves ++ " over " ++
        commas n.contendedPaths ++ "]"
    | none => ""

/-- The lines of a plan. -/
def planLines (p : Plan) : List String :=
  p.waves.map waveLine ++
    p.orphans.map (fun o => "  warning: " ++ o.itemId ++ " references unknown item " ++ o.blockerId) ++
    p.blocked.map (fun b => "  blocked " ++ b.itemId ++ ": " ++ b.reason.message) ++
    if p.alreadyCompleted.isEmpty then [] else ["  already completed: " ++ commas p.alreadyCompleted]

/-- An event of a run in words. -/
def text (ascii : Bool) (runId : String) : Event → String
  | .runStart attempt items waves =>
    "RUN START " ++ runId ++ " (attempt " ++ toString attempt ++ ", items: " ++ toString items ++
      ", waves: " ++ toString waves ++ ")"
  | .plan p => "\n".intercalate (("PLAN " ++ runId ++ ":") :: planLines p)
  | .waveStart index total ids note =>
    "WAVE START " ++ runId ++ " (wave " ++ toString (index + 1) ++ "/" ++ toString total ++
      ", items: " ++ commas ids ++ ")" ++
      match note with
      | some n => " contended: " ++ commas n.contendedPaths
      | none => ""
  | .itemStart id wave =>
    "ITEM START " ++ runId ++ " (wave " ++ toString (wave + 1) ++ ", item " ++ id ++ ")"
  | .itemEnd o =>
    "ITEM END " ++ runId ++ " " ++ mark ascii o.status ++ " " ++ o.itemId ++ " (" ++ o.status.text ++
      ", " ++ toString o.durationMs ++ "ms)" ++
      match o.reason with
      | some r => ": " ++ r
      | none => ""
  | .waveEnd index c =>
    "WAVE END " ++ runId ++ " (wave " ++ toString (index + 1) ++ ", completed " ++
      toString c.completed ++ ", unsuccessful " ++ toString c.unsuccessful ++ ")"
  | .runEnd s =>
    "RUN END " ++ runId ++ " (completed " ++ toString s.counts.completed ++ ", failed " ++
      toString s.counts.failed ++ ", timeout " ++ toString s.counts.timeout ++ ", skipped " ++
      toString s.counts.skipped ++ ", pending " ++ toString s.counts.pending ++ ", duration " ++
      toString s.durationMs ++ "ms)" ++ if s.interrupted then " interrupted" else ""

end WorkWaves.Render
