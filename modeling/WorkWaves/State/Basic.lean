import WorkWaves.Status
import WorkWaves.StringMap
import WorkWaves.Timestamp

/-!
# The state of a run

Where every item stands, why, and which wave comes next. Statuses only move forward within an attempt; a new
attempt puts everything that is not completed back to pending.
-/

namespace WorkWaves

/-- The progress of a run. -/
structure RunState where
  /-- The next wave of the current plan. -/
  waveIndex : Nat := 0
  statuses : StringMap Status := ∅
  /-- Why an item got its status. -/
  reasons : StringMap String := ∅
  attempt : Nat := 1
  startedAt : Timestamp
  updatedAt : Timestamp
  deriving DecidableEq, Repr

/-- A move between statuses that is not allowed. -/
structure InvalidMove where
  itemId : String
  source : Status
  target : Status
  deriving DecidableEq, Repr

def InvalidMove.message (m : InvalidMove) : String :=
  "invalid status transition for '" ++ m.itemId ++ "': " ++ m.source.text ++ " -> " ++ m.target.text

/-- A call that is refused, and the state that it leaves. -/
structure Refusal where
  move : InvalidMove
  state : RunState
  deriving DecidableEq, Repr

instance : Coe Refusal InvalidMove := ⟨Refusal.move⟩

namespace RunState

/-- The state of a run that begins now. -/
def new (now : Timestamp) : RunState := { startedAt := now, updatedAt := now }

def status? (s : RunState) (id : String) : Option Status := s.statuses.get? id

def reason? (s : RunState) (id : String) : Option String := s.reasons.get? id

/-- Makes an item known; one that is known keeps its status. -/
def register (s : RunState) (id : String) : RunState :=
  if s.statuses.contains id then s else { s with statuses := s.statuses.insert id .pending }

/-- Moves an item to a status; an unknown one counts as pending. -/
def setStatus (now : Timestamp) (s : RunState) (id : String) (target : Status) :
    Except Refusal RunState := do
  let source := (s.status? id).getD .pending
  if !source.allows target then .error ⟨⟨id, source, target⟩, s⟩
  let s := { s with statuses := s.statuses.insert id target }
  return { s with updatedAt := now }

/-- Moves an item to a status for a reason. -/
def setStatusFor (now : Timestamp) (s : RunState) (id : String) (target : Status) (reason : String) :
    Except Refusal RunState := do
  let s ← s.setStatus now id target
  return { s with reasons := s.reasons.insert id reason }

section Moves

variable {s s' : RunState} {r : Refusal} {now : Timestamp} {id reason : String} {target : Status}

theorem setStatus_eq : s.setStatus now id target =
    if ((s.status? id).getD .pending).allows target then
      .ok { s with statuses := s.statuses.insert id target, updatedAt := now }
    else .error ⟨⟨id, (s.status? id).getD .pending, target⟩, s⟩ := by
  unfold setStatus
  dsimp only
  cases ((s.status? id).getD .pending).allows target <;> rfl

theorem setStatusFor_eq_ok_iff :
    s.setStatusFor now id target reason = .ok s' ↔
      ∃ t, s.setStatus now id target = .ok t ∧ { t with reasons := t.reasons.insert id reason } = s' := by
  unfold setStatusFor
  cases s.setStatus now id target <;> simp [bind, Except.bind, pure, Except.pure]

theorem setStatusFor_eq_error_iff :
    s.setStatusFor now id target reason = .error r ↔ s.setStatus now id target = .error r := by
  unfold setStatusFor
  cases s.setStatus now id target <;> simp [bind, Except.bind, pure, Except.pure]

/-- A call that is refused leaves the state as it is, whatever it would have changed. -/
theorem setStatus_eq_error_iff : s.setStatus now id target = .error r ↔
    ((s.status? id).getD .pending).allows target = false ∧
      r = ⟨⟨id, (s.status? id).getD .pending, target⟩, s⟩ := by
  rw [setStatus_eq]
  cases ((s.status? id).getD .pending).allows target <;> simp [eq_comm]

theorem state_of_refused (h : s.setStatus now id target = .error r) : r.state = s := by
  rw [(setStatus_eq_error_iff.mp h).2]

end Moves

/-- The items in a status, by id. -/
def idsWith (s : RunState) (status : Status) : List String :=
  (s.statuses.entries.filter (·.2 == status)).map (·.1)

def completed (s : RunState) : StringSet := .ofList (s.idsWith .completed)

def counts (s : RunState) : StatusCounts := .ofList (s.statuses.entries.map (·.2))

/-- The number of values an attempt counter has. -/
def attemptLimit : Nat := Nat.pow 2 32

/-- Begins another attempt: what is not completed is pending again, and forgets why it was not. -/
def beginAttempt (now : Timestamp) (s : RunState) : RunState :=
  { waveIndex := 0
    statuses := s.statuses.map fun _ st => if st = .completed then st else .pending
    reasons := s.reasons.filter fun id _ =>
      match s.status? id with
      | some .completed | none => true
      | some _ => false
    attempt := (s.attempt + 1) % attemptLimit
    startedAt := s.startedAt
    updatedAt := now }

end RunState

end WorkWaves
