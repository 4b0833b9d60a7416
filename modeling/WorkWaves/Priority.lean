import WorkWaves.Text.Blank
import WorkWaves.Json.Reader

/-!
# Priorities

Ten levels of urgency, `P0` before `P9`. A label is read with or without its letter; a document may also
give the bare level.
-/

namespace WorkWaves

/-- A level of urgency; lower levels go first. -/
structure Priority where
  level : Nat
  level_le : level ≤ 9 := by decide
  deriving DecidableEq

namespace Priority

instance : Repr Priority := ⟨fun p n => reprPrec p.level n⟩

/-- The level that items have when none is given. -/
def standard : Priority := ⟨3, by decide⟩

instance : Inhabited Priority := ⟨standard⟩

/-- The given level, or the least urgent one if there is no such level. -/
def clamp (level : Nat) : Priority := ⟨min level 9, Nat.min_le_right level 9⟩

def label (p : Priority) : String := "P" ++ toString p.level

/-- Why a priority cannot be read. -/
inductive Fault where
  | invalid (label : String)
  | labelOutOfRange (label : String)
  | levelOutOfRange (level : Nat)
  deriving Repr, DecidableEq

def Fault.message : Fault → String
  | .invalid s => "invalid priority '" ++ s ++ "' (expected P0..P9)"
  | .labelOutOfRange s => "priority '" ++ s ++ "' out of range (expected P0..P9)"
  | .levelOutOfRange n => "priority " ++ toString n ++ " out of range"

/-- A number of one byte: digits, perhaps with a plus sign in front. -/
def byte? (cs : List Char) : Option Nat :=
  let ds := match cs with
    | '+' :: r => r
    | r => r
  if ds ≠ [] ∧ ds.all Char.isDigit then
    let n := ds.foldl (fun n c => 10 * n + (c.toNat - 48)) 0
    if n < 256 then some n else none
  else none

/-- A label without the letter in front, if it has one. -/
def dropLetter : List Char → List Char
  | 'P' :: r => r
  | 'p' :: r => r
  | r => r

/-- Reads a label; blanks around it do not count. -/
def ofLabel (s : String) : Except Fault Priority :=
  match byte? (dropLetter (Text.strip Text.isBlank s.toList)) with
  | none => .error (.invalid s)
  | some n => if h : n ≤ 9 then .ok ⟨n, h⟩ else .error (.labelOutOfRange s)

def ofLevel (n : Nat) : Except Fault Priority :=
  if h : n ≤ 9 then .ok ⟨n, h⟩ else .error (.levelOutOfRange n)

def noMatch : String := "data did not match any variant of untagged enum PriorityRepr"

/-- Reads a level or a label that stands inside `depth` arrays and objects. -/
def read (depth : Nat) : Json.Read Priority := fun n =>
  if !n.fits (Json.nestingLimit - depth) then .error .malformed
  else match n with
    | .number m =>
      match m.amount? with
      | some (.integer (.ofNat k)) =>
        if k < 256 then (ofLevel k).mapError fun e => .refused e.message
        else .error (.refused noMatch)
      | _ => .error (.refused noMatch)
    | .string (some s) => (ofLabel s).mapError fun e => .refused e.message
    | _ => .error (.refused noMatch)

def toJson (p : Priority) : Json := .str p.label

end Priority

end WorkWaves
