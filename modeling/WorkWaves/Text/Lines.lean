import WorkWaves.Text.Scan

/-!
# Lines

A text as its lines. A line feed ends a line, with a carriage return before it if there is one; behind the
last line feed there is a line only if there is something.
-/

namespace WorkWaves.Text

/-- A line that a line feed ended, without the carriage return before it. -/
def dropReturn (line : List Char) : List Char :=
  match line.reverse with
  | '\r' :: r => r.reverse
  | _ => line

/-- The lines among pieces between line feeds. -/
def linesOfPieces : List (List Char) → List (List Char)
  | [] => []
  | [last] => if last.isEmpty then [] else [last]
  | piece :: pieces => dropReturn piece :: linesOfPieces pieces

/-- The lines of a text. -/
def lines (s : String) : List String :=
  (linesOfPieces (splitAt (· == '\n') s.toList)).map String.ofList

/-- The last lines of a text, `n` at most. -/
def lastLines (n : Nat) (s : String) : String :=
  let all := lines s
  "\n".intercalate (all.drop (all.length - n))

end WorkWaves.Text
