import WorkWaves.Plan
import WorkWaves.Run.Outcome

/-!
# Events

What a run tells while it goes on.
-/

namespace WorkWaves

/-- What a run tells. -/
inductive Event where
  | runStart (attempt totalItems totalWaves : Nat)
  | plan (p : Plan)
  | waveStart (waveIndex totalWaves : Nat) (ids : List String) (note : Option ContentionNote)
  | itemStart (itemId : String) (waveIndex : Nat)
  | itemEnd (outcome : Outcome)
  | waveEnd (waveIndex : Nat) (counts : StatusCounts)
  | runEnd (summary : Summary)
  deriving Repr

/-- The name of an event for those who read events line by line. -/
def Event.name : Event → String
  | runStart .. => "run.start"
  | plan .. => "plan"
  | waveStart .. => "wave.start"
  | itemStart .. => "item.start"
  | itemEnd .. => "item.end"
  | waveEnd .. => "wave.end"
  | runEnd .. => "run.end"

end WorkWaves
