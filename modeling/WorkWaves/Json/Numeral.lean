import WorkWaves.Json.Document

/-!
# The amount a numeral writes

A numeral without point and exponent is an integer if it fits in 64 bits; every other one is a binary
fraction. The fraction is formed as a 64-bit significand times or divided by a power of ten; digits that no
longer fit into the significand only count as places.
-/

namespace WorkWaves.Json

/-- An amount as a reader sees it. -/
inductive Amount where
  | integer (n : Int)
  | real (x : Float)

namespace Numeral

/-- The digits taken so far, and the power of ten that they have to be multiplied by. -/
structure Significand where
  value : Nat
  places : Int
  full : Bool

/-- Takes a digit before the point. -/
def Significand.pushWhole (s : Significand) (d : Nat) : Significand :=
  if s.full || Nat.pow 2 64 ≤ 10 * s.value + d then ⟨s.value, s.places + 1, true⟩
  else ⟨10 * s.value + d, s.places, false⟩

/-- Takes a digit behind the point. -/
def Significand.pushFraction (s : Significand) (d : Nat) : Significand :=
  if s.full || Nat.pow 2 64 ≤ 10 * s.value + d then ⟨s.value, s.places, true⟩
  else ⟨10 * s.value + d, s.places - 1, false⟩

/-- `x * 10 ^ k`, in steps that a table of powers of ten up to 308 allows; nothing if it gets infinite. -/
def timesPower : Nat → Float → Int → Option Float
  | 0, x, _ => some x
  | fuel + 1, x, k =>
    if k.natAbs ≤ 308 then
      let power := Float.ofScientific 1 false k.natAbs
      if 0 ≤ k then if (x * power).isInf then none else some (x * power) else some (x / power)
    else if x == 0.0 then some x
    else if 0 ≤ k then none
    else timesPower fuel (x / Float.ofScientific 1 false 308) (k + 308)

/-- The binary fraction of a numeral; nothing if it is out of range. -/
def toFloat? (n : Numeral) : Option Float :=
  let whole := n.whole.foldl Significand.pushWhole ⟨0, 0, false⟩
  let (fraction, exponent) := n.rest.getD ([], 0)
  let s := fraction.foldl Significand.pushFraction ⟨whole.value, whole.places, false⟩
  let x : Option Float :=
    if Nat.pow 2 31 ≤ exponent.natAbs then
      if s.value ≠ 0 ∧ 0 < exponent then none else some 0.0
    else timesPower 40 s.value.toUInt64.toFloat (max (-10000) (s.places + exponent))
  x.map fun x => if n.negative then -x else x

/-- The amount of a numeral; nothing if it is out of range. -/
def amount? (n : Numeral) : Option Amount :=
  let whole := ofDigits n.whole
  match n.rest with
  | none =>
    if !n.negative && whole < Nat.pow 2 64 then some (.integer whole)
    else if n.negative && 0 < whole && whole ≤ Nat.pow 2 63 then some (.integer (-whole))
    else n.toFloat?.map .real
  | some _ => n.toFloat?.map .real

end Numeral

/-- How deep a text may be nested where it is read. -/
def nestingLimit : Nat := 127

mutual

/-- Whether a piece of a document can be taken in whole: nothing is broken, every string has its
content, every number its amount, and it is nested at most `room` deep. -/
def Node.fits (room : Nat) : Node → Bool
  | .null | .bool _ => true
  | .number n => n.amount?.isSome
  | .string content => content.isSome
  | .array es closed => match room with
    | 0 => false
    | room + 1 => closed && Node.allFit room es
  | .object ms closed => match room with
    | 0 => false
    | room + 1 => closed && Node.membersFit room ms
  | .broken => false

def Node.allFit (room : Nat) : List Node → Bool
  | [] => true
  | n :: r => Node.fits room n && Node.allFit room r

def Node.membersFit (room : Nat) : List (Node × Node) → Bool
  | [] => true
  | (k, n) :: r => Node.fits room k && Node.fits room n && Node.membersFit room r

end

end WorkWaves.Json
