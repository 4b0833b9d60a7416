/-!
# The shortest decimal of a binary fraction

`shortest m q even narrow` finds the decimal with the fewest digits that reads back as `m * 2 ^ q`, and of
two such the nearer one. The numbers that read back form an interval around the value; for each number of
digits only the two neighbours of the value on that decimal grid can lie in it first.
-/

namespace WorkWaves

/-- The number `digits * 10 ^ exponent`. -/
structure Decimal where
  digits : Nat
  exponent : Int
  deriving Repr, DecidableEq

namespace Decimal

/-- A positive fraction. -/
structure Fraction where
  num : Nat
  den : Nat

/-- `x * 10 ^ k`. -/
def Fraction.scale (x : Fraction) (k : Int) : Fraction :=
  match k with
  | .ofNat k => ⟨x.num * Nat.pow 10 k, x.den⟩
  | .negSucc k => ⟨x.num, x.den * Nat.pow 10 (k + 1)⟩

/-- `m * 2 ^ q`. -/
def Fraction.ofBinary (m : Nat) (q : Int) : Fraction :=
  match q with
  | .ofNat q => ⟨m * Nat.pow 2 q, 1⟩
  | .negSucc q => ⟨m, Nat.pow 2 (q + 1)⟩

def Fraction.lt (x y : Fraction) : Bool := x.num * y.den < y.num * x.den

/-- Raises the fraction by powers of ten until it reaches one; counts them. -/
def Fraction.raise : Nat → Fraction → Nat
  | 0, _ => 0
  | fuel + 1, x => if x.num < x.den then Fraction.raise fuel (x.scale 1) + 1 else 0

/-- The exponent of the first digit of a fraction. -/
def Fraction.leading (x : Fraction) : Int :=
  if x.num < x.den then -(Fraction.raise x.den.log2.succ x : Int)
  else ((Nat.toDigits 10 (x.num / x.den)).length : Int) - 1

/-- The decimal at `digits * 10 ^ exponent` without zeros at its end. -/
def trimmed : Nat → Nat → Int → Decimal
  | 0, d, e => ⟨d, e⟩
  | fuel + 1, d, e =>
    if d ≠ 0 ∧ d % 10 = 0 then trimmed fuel (d / 10) (e + 1) else ⟨d, e⟩

/-- The shortest decimal that reads back as `m * 2 ^ q`. A value reads back when it lies within half a
step of it, ends included if `m` is even; `narrow` says that the step below is half as wide. -/
def shortest (m : Nat) (q : Int) (narrow : Bool) : Decimal :=
  let x := Fraction.ofBinary (4 * m) (q - 2)
  let low := Fraction.ofBinary (4 * m - (if narrow then 1 else 2)) (q - 2)
  let high := Fraction.ofBinary (4 * m + 2) (q - 2)
  let reads (y : Fraction) : Bool :=
    if (m % 2 : Nat) = 0 then !y.lt low && !high.lt y else low.lt y && y.lt high
  let lead : Int := x.leading
  let onGrid (n : Nat) : Option Decimal :=
    let e := lead - n
    let scaled := x.scale (-e)
    let below : Nat := scaled.num / scaled.den
    let rest : Nat := scaled.num % scaled.den
    let above := below + 1
    let ok (d : Nat) := reads (Fraction.scale ⟨d, 1⟩ e)
    let nearAbove := decide (2 * rest > scaled.den) || (2 * rest == scaled.den && below % 2 == 1)
    match ok below, ok above with
    | true, true => some ⟨if nearAbove then above else below, e⟩
    | true, false => some ⟨below, e⟩
    | false, true => some ⟨above, e⟩
    | false, false => none
  match (List.range 17).findSome? onGrid with
  | some d => trimmed 20 d.digits d.exponent
  | none => ⟨m, q⟩

/-- The shortest decimal of a positive finite number. -/
def ofFloat (x : Float) : Decimal :=
  let bits := x.toBits.toNat
  let field : Nat := bits / Nat.pow 2 52 % 2048
  let tail : Nat := bits % Nat.pow 2 52
  if field = 0 then shortest tail (-1074) false
  else shortest (Nat.pow 2 52 + tail) ((field : Int) - 1075) (tail == 0 && 1 < field)

/-- Writes a decimal: positional if its first digit has an exponent from -5 to 15, and then with a digit
on both sides of the point; else with an exponent that has a sign. -/
def text (d : Decimal) : String :=
  let ds := Nat.toDigits 10 d.digits
  let lead := d.exponent + ds.length - 1
  if -5 ≤ lead ∧ lead ≤ 15 then
    if 0 ≤ d.exponent then
      String.ofList (ds ++ List.replicate d.exponent.toNat '0') ++ ".0"
    else if 0 ≤ lead then
      String.ofList (ds.take (lead.toNat + 1) ++ '.' :: ds.drop (lead.toNat + 1))
    else "0." ++ String.ofList (List.replicate ((-lead).toNat - 1) '0' ++ ds)
  else
    let first := String.ofList (ds.take 1)
    let more := String.ofList (ds.drop 1)
    first ++ (if more.isEmpty then "" else "." ++ more) ++ (if lead < 0 then "e-" else "e+") ++
      String.ofList (Nat.toDigits 10 lead.natAbs)

/-- The text of a finite number. -/
def floatText (x : Float) : String :=
  let sign := if x.toBits.toNat / Nat.pow 2 63 = 1 then "-" else ""
  let x := x.abs
  sign ++ (if x == 0.0 then "0.0" else text (ofFloat x))

end Decimal

end WorkWaves
