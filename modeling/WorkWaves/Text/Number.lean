/-!
# Numbers in a text

Natural numbers of 64 bits, written with decimal digits.
-/

namespace WorkWaves.Text

/-- Why a word is no number. -/
inductive NumberFault where
  | empty
  | invalidDigit
  | tooLarge
  deriving DecidableEq, Repr

def NumberFault.message : NumberFault → String
  | .empty => "cannot parse integer from empty string"
  | .invalidDigit => "invalid digit found in string"
  | .tooLarge => "number too large to fit in target type"

/-- Reads a natural number of 64 bits: digits, perhaps with a plus sign in front. -/
def number (s : String) : Except NumberFault Nat :=
  let ds := match s.toList with
    | ['+'] => ['+']
    | '+' :: r => r
    | r => r
  if ds.isEmpty then .error .empty
  else if !ds.all Char.isDigit then
    .error (if overflowsEarly 0 ds then .tooLarge else .invalidDigit)
  else
    let n := ds.foldl (fun n c => 10 * n + (c.toNat - 48)) 0
    if n < Nat.pow 2 64 then .ok n else .error .tooLarge
where
  /-- Whether the digits before the first character that is none are already too many. -/
  overflowsEarly : Nat → List Char → Bool
    | _, [] => false
    | n, c :: r =>
      if !c.isDigit then false
      else
        let n := 10 * n + (c.toNat - 48)
        if Nat.pow 2 64 ≤ n then true else overflowsEarly n r

end WorkWaves.Text
