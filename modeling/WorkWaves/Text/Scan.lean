/-!
# Occurrences in a text

Finding a pattern again and again, from left to right and without overlap.
-/

namespace WorkWaves.Text

/-- What `find` finds in a text, from left to right. At each place `find` gets the character before the
place and the text from it on; when it finds something it tells how many characters that takes, at least
one, and the search goes on behind them. `skip` counts the characters that are taken already. -/
def occurrences {α : Type} (find : Option Char → List Char → Option (α × Nat)) :
    Option Char → Nat → List Char → List α
  | _, _, [] => []
  | _, skip + 1, c :: r => occurrences find (some c) skip r
  | before, 0, c :: r =>
    match find before (c :: r) with
    | some (a, taken) => a :: occurrences find (some c) (taken - 1) r
    | none => occurrences find (some c) 0 r

/-- Splits a list before and behind the last place where `p` holds. -/
def splitLast (p : Char → Bool) (cs : List Char) : Option (List Char × List Char) :=
  let tail := cs.reverse.takeWhile (!p ·)
  match cs.reverse.dropWhile (!p ·) with
  | [] => none
  | _ :: front => some (front.reverse, tail.reverse)

/-- Splits a list at every place where `p` holds. -/
def splitAt (p : Char → Bool) : List Char → List (List Char)
  | [] => [[]]
  | c :: r =>
    if p c then [] :: splitAt p r
    else match splitAt p r with
      | [] => [[c]]
      | piece :: pieces => (c :: piece) :: pieces

end WorkWaves.Text
