/-!
# Statuses

The life of an item within one attempt: pending, running, and one of the ways to end. A status only moves
forward; `Status.allows` lists the moves.
-/

namespace WorkWaves

/-- Where an item stands. -/
inductive Status where
  | pending
  | running
  | completed
  | failed
  | skipped
  | timeout
  | interrupted
  deriving DecidableEq, Repr, Inhabited

namespace Status

def text : Status → String
  | pending => "pending"
  | running => "running"
  | completed => "completed"
  | failed => "failed"
  | skipped => "skipped"
  | timeout => "timeout"
  | interrupted => "interrupted"

def all : List Status := [pending, running, completed, failed, skipped, timeout, interrupted]

def ofText? (s : String) : Option Status := all.find? (·.text == s)

/-- Whether an item in this status is done with, for good or ill. -/
def isTerminal : Status → Bool
  | pending | running => false
  | _ => true

/-- Ended, but not completed. -/
def isUnsuccessful (s : Status) : Bool := s.isTerminal && s != completed

/-- The moves from one status to another. -/
def allows : Status → Status → Bool
  | pending, running | pending, skipped => true
  | running, completed | running, failed | running, timeout | running, interrupted => true
  | _, _ => false

end Status

/-- How many items stand where. -/
structure StatusCounts where
  pending : Nat := 0
  running : Nat := 0
  completed : Nat := 0
  failed : Nat := 0
  skipped : Nat := 0
  timeout : Nat := 0
  interrupted : Nat := 0
  deriving DecidableEq, Repr

namespace StatusCounts

def add (c : StatusCounts) : Status → StatusCounts
  | .pending => { c with pending := c.pending + 1 }
  | .running => { c with running := c.running + 1 }
  | .completed => { c with completed := c.completed + 1 }
  | .failed => { c with failed := c.failed + 1 }
  | .skipped => { c with skipped := c.skipped + 1 }
  | .timeout => { c with timeout := c.timeout + 1 }
  | .interrupted => { c with interrupted := c.interrupted + 1 }

def ofList (l : List Status) : StatusCounts := l.foldl add {}

def total (c : StatusCounts) : Nat :=
  c.pending + c.running + c.completed + c.failed + c.skipped + c.timeout + c.interrupted

def unsuccessful (c : StatusCounts) : Nat := c.failed + c.skipped + c.timeout + c.interrupted

end StatusCounts

end WorkWaves
