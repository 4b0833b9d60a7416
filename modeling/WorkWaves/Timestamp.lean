import WorkWaves.Text.Blank

/-!
# Points in time

A point in time is kept in universal time by its calendar fields, with nanoseconds; second 60 is a leap
second. `text` writes the fraction with 0, 3, 6 or 9 digits. `ofText?` reads that form and looser ones: blanks
around the parts, few digits, an offset.
-/

namespace WorkWaves

/-- A point in universal time. -/
structure Timestamp where
  year : Int
  month : Nat
  day : Nat
  hour : Nat
  minute : Nat
  second : Nat
  nanos : Nat
  deriving DecidableEq, Repr, Inhabited

namespace Timestamp

def isLeapYear (y : Int) : Bool := (y % 4 == 0 && y % 100 != 0) || y % 400 == 0

def daysInMonth (y : Int) (m : Nat) : Nat :=
  if m = 2 then if isLeapYear y then 29 else 28
  else if m = 4 ∨ m = 6 ∨ m = 9 ∨ m = 11 then 30
  else 31

/-- Digits of a number, with zeros in front up to a width. -/
def padded (width n : Nat) : List Char :=
  let ds := Nat.toDigits 10 n
  List.replicate (width - ds.length) '0' ++ ds

/-- A year; outside of four digits it has a sign. -/
def yearText (y : Int) : List Char :=
  if 0 ≤ y ∧ y ≤ 9999 then padded 4 y.toNat
  else (if y < 0 then '-' else '+') :: padded 4 y.natAbs

/-- A fraction of a second, with as few groups of three digits as it takes. -/
def fractionText (nanos : Nat) : List Char :=
  if nanos = 0 then []
  else if nanos % 1000000 = 0 then '.' :: padded 3 (nanos / 1000000)
  else if nanos % 1000 = 0 then '.' :: padded 6 (nanos / 1000)
  else '.' :: padded 9 nanos

def chars (t : Timestamp) : List Char :=
  yearText t.year ++ '-' :: padded 2 t.month ++ '-' :: padded 2 t.day ++ 'T' :: padded 2 t.hour ++
    ':' :: padded 2 t.minute ++ ':' :: padded 2 t.second ++ fractionText t.nanos ++ ['Z']

def text (t : Timestamp) : String := String.ofList t.chars

/-! ### Days by number -/

/-- The number of a day, counted from the first of March of the year 0. -/
def dayNumber (y : Int) (m d : Nat) : Int :=
  let y := if m ≤ 2 then y - 1 else y
  let m : Int := if m ≤ 2 then m + 9 else m - 3
  365 * y + y / 4 - y / 100 + y / 400 + (153 * m + 2) / 5 + (d - 1)

/-- The year, month and day of a day number. -/
def ofDayNumber (n : Int) : Int × Nat × Nat :=
  let era := n / 146097
  let inEra := n % 146097
  let yearOfEra := (inEra - inEra / 1460 + inEra / 36524 - inEra / 146096) / 365
  let inYear := inEra - (365 * yearOfEra + yearOfEra / 4 - yearOfEra / 100)
  let shifted := (5 * inYear + 2) / 153
  let day := inYear - (153 * shifted + 2) / 5 + 1
  let month := if shifted < 10 then shifted + 3 else shifted - 9
  (yearOfEra + 400 * era + (if month ≤ 2 then 1 else 0), month.toNat, day.toNat)

/-- The point in time some nanoseconds after the start of the year 1970. -/
def ofNanoseconds (n : Int) : Timestamp :=
  let seconds := n / 1000000000
  let (y, m, d) := ofDayNumber (dayNumber 1970 1 1 + seconds / 86400)
  let inDay := (seconds % 86400).toNat
  ⟨y, m, d, inDay / 3600, inDay / 60 % 60, inDay % 60, (n % 1000000000).toNat⟩

/-- The years that can be told apart. -/
def yearInRange (y : Int) : Bool := -262143 ≤ y && y ≤ 262142

/-- The point in universal time of a local time that is ahead by some minutes. -/
def ofLocal? (t : Timestamp) (ahead : Int) : Option Timestamp :=
  if ahead = 0 then some t
  else
    let minutes := dayNumber t.year t.month t.day * 1440 + t.hour * 60 + t.minute - ahead
    let (y, m, d) := ofDayNumber (minutes / 1440)
    let rest := (minutes % 1440).toNat
    if yearInRange y then
      some { t with year := y, month := m, day := d, hour := rest / 60, minute := rest % 60 }
    else none

/-! ### Reading -/

def skipBlanks (cs : List Char) : List Char := cs.dropWhile Text.isBlank

/-- Reads a number of one digit up to `width`, blanks before it passed over. -/
def number? (width : Nat) (cs : List Char) : Option (Nat × List Char) :=
  let cs := skipBlanks cs
  let ds := (cs.take width).takeWhile Char.isDigit
  if ds.isEmpty then none
  else some (ds.foldl (fun n c => 10 * n + (c.toNat - 48)) 0, cs.drop ds.length)

/-- Reads a number and sees that it lies within bounds. -/
def bounded? (low high width : Nat) (cs : List Char) : Option (Nat × List Char) :=
  (number? width cs).bind fun p => if low ≤ p.1 ∧ p.1 ≤ high then some p else none

/-- Reads a year: up to four digits, or any number of them behind a sign. -/
def year? (cs : List Char) : Option (Int × List Char) :=
  let signed (negative : Bool) (r : List Char) : Option (Int × List Char) :=
    if (r.head?.map Char.isDigit).getD false then
      (number? r.length r).map fun p => (if negative then -(p.1 : Int) else p.1, p.2)
    else none
  match skipBlanks cs with
  | '-' :: r => signed true r
  | '+' :: r => signed false r
  | r => (number? 4 r).map fun p => (p.1, p.2)

/-- Takes a separator off the front of a text, blanks before it passed over. -/
def mark? (c : Char) (cs : List Char) : Option (List Char) :=
  match skipBlanks cs with
  | d :: r => if c = d then some r else none
  | [] => none

/-- Reads the fraction of a second, if there is one; digits beyond the ninth do not count. -/
def fraction? : List Char → Option (Nat × List Char)
  | '.' :: r =>
    let ds := r.takeWhile Char.isDigit
    if ds.isEmpty then none
    else
      let ns := (ds ++ List.replicate 9 '0').take 9
      some (ns.foldl (fun n c => 10 * n + (c.toNat - 48)) 0, r.drop ds.length)
  | r => some (0, r)

/-- Reads two digits behind a sign or a separator. -/
def twoDigits? : List Char → Option (Nat × List Char)
  | a :: b :: r =>
    if a.isDigit && b.isDigit then some (10 * (a.toNat - 48) + (b.toNat - 48), r) else none
  | _ => none

/-- Reads an offset from universal time, in minutes. -/
def offset? (cs : List Char) : Option (Int × List Char) :=
  let signed (negative : Bool) (r : List Char) : Option (Int × List Char) := do
    let (hours, r) ← twoDigits? r
    let (minutes, r) ← twoDigits? (r.dropWhile fun c => c == ':' || Text.isBlank c)
    if 60 ≤ minutes ∨ 24 ≤ hours then none
    else
      let n : Int := hours * 60 + minutes
      some (if negative then -n else n, r)
  match cs with
  | 'Z' :: r | 'z' :: r => some (0, r)
  | a :: b :: c :: r =>
    if [a, b, c].map Char.toLower = ['u', 't', 'c'] then some (0, r)
    else if a = '+' then signed false (b :: c :: r)
    else if a = '-' ∨ a = '−' then signed true (b :: c :: r)
    else none
  | _ => none

/-- Reads a point in time. -/
def ofText? (text : String) : Option Timestamp := do
  let (year, cs) ← year? text.toList
  let (month, cs) ← bounded? 1 12 2 (← mark? '-' cs)
  let (day, cs) ← bounded? 1 31 2 (← mark? '-' cs)
  let cs ← match cs with
    | 't' :: r | 'T' :: r | ' ' :: r => some r
    | _ => none
  let (hour, cs) ← bounded? 0 23 2 cs
  let (minute, cs) ← bounded? 0 59 2 (← mark? ':' cs)
  let (second, cs) ← bounded? 0 60 2 (← mark? ':' cs)
  let (nanos, cs) ← fraction? cs
  let (ahead, cs) ← offset? (skipBlanks cs)
  if yearInRange year && day ≤ daysInMonth year month && (skipBlanks cs).isEmpty then
    ofLocal? ⟨year, month, day, hour, minute, second, nanos⟩ ahead
  else none

end Timestamp

end WorkWaves
