import WorkWaves.Logging.Record
import WorkWaves.Regex.Reader
import WorkWaves.Text.Number
import WorkWaves.Text.Scan

/-!
# Directives on logging

A directive says how much is wanted of a part of the program, in the course of some work, or with some field:
`part[work{field=value}]=limit`, where everything may be left out but something has to be said.
-/

namespace WorkWaves

/-- How much is wanted: all levels up to one, or none. -/
abbrev LogLimit := Option LogLevel

namespace LogLimit

def rank (limit : LogLimit) : Nat := (limit.map LogLevel.rank).getD 0

def admits (limit : LogLimit) (l : LogLevel) : Bool := l.rank ≤ limit.rank

/-- The wider of two limits. -/
def max (a b : LogLimit) : LogLimit := if a.rank ≤ b.rank then b else a

/-- The limits from the narrowest, which is also how they are numbered. -/
def all : List LogLimit := [none, some .error, some .warn, some .info, some .debug, some .trace]

def names : List (String × LogLimit) :=
  [("off", none), ("error", some .error), ("warn", some .warn), ("info", some .info),
    ("debug", some .debug), ("trace", some .trace)]

/-- Reads a limit: its number, or its name in letters of any case. -/
def ofText? (s : String) : Option LogLimit :=
  let named := names.lookup (String.ofList (s.toList.map Char.toLower))
  match Text.number s with
  | .ok n => all[n]?.or named
  | .error _ => named

end LogLimit

/-- What the value of a field has to be. -/
inductive LogPattern where
  | flag (b : Bool)
  | count (n : Nat)
  /-- A number that no field holds. -/
  | otherNumber
  | text (source : String) (e : Regex)
  deriving DecidableEq, Repr

namespace LogPattern

/-- Whether a text is a number with a point, an exponent or a sign, or one of those that have names. -/
def isNumber (cs : List Char) : Bool :=
  let cs := match cs with
    | '+' :: r | '-' :: r => r
    | r => r
  if ["inf", "infinity", "nan"].contains (String.ofList (cs.map Char.toLower)) then true
  else
    let (whole, r) := cs.span Char.isDigit
    let (fraction, r) := match r with
      | '.' :: r => r.span Char.isDigit
      | r => ([], r)
    let ends := match r with
      | [] => true
      | e :: r =>
        let digits := match r with
          | '+' :: r | '-' :: r => r
          | r => r
        e.toLower == 'e' && !digits.isEmpty && digits.all Char.isDigit
    !(whole ++ fraction).isEmpty && ends

/-- Reads a pattern: a truth value, a number or a regular expression. -/
def ofText? (s : String) : Option LogPattern :=
  match s, Text.number s with
  | "true", _ => some (.flag true)
  | "false", _ => some (.flag false)
  | _, .ok n => some (.count n)
  | _, .error _ =>
    if isNumber s.toList then some .otherNumber else (Regex.ofText? s).map (.text s)

def fits : LogPattern → LogValue → Bool
  | .flag a, .flag b => a == b
  | .count a, .count b => a == b
  | .text _ e, .text s => e.matchesEnd s
  | _, _ => false

end LogPattern

/-- A field that is asked for. -/
structure LogFieldTest where
  name : String
  pattern : Option LogPattern := none
  deriving DecidableEq, Repr

namespace LogFieldTest

/-- Reads a name and the pattern that may follow it; what stands behind another equals sign does not count. -/
def ofText? (cs : List Char) : Option LogFieldTest :=
  match Text.splitAt (· == '=') cs with
  | name :: value :: _ =>
    (LogPattern.ofText? (String.ofList value)).map fun p => ⟨String.ofList name, some p⟩
  | _ => some ⟨String.ofList cs, none⟩

/-- Whether there is such a field. -/
def isAmong (t : LogFieldTest) (names : List String) : Bool := names.contains t.name

/-- Whether a field has the value that is asked for. -/
def holds (t : LogFieldTest) (fields : LogFields) : Bool :=
  match t.pattern with
  | none => true
  | some p => (fields.lookup t.name).any p.fits

end LogFieldTest

/-- What a filter says of one part or piece of work. -/
structure LogDirective where
  /-- What the name of a part has to begin with. -/
  target : Option String := none
  /-- The name of a piece of work. -/
  span : Option String := none
  field : Option LogFieldTest := none
  limit : LogLimit := some .trace
  deriving DecidableEq, Repr

namespace LogDirective

/-- Whether a word may begin so. -/
def opens (c : Char) : Bool := c == '-' || c == ':' || c == '_' || Text.isAlphanumeric c

/-- Reads what stands behind an equals sign; nothing there means everything. -/
def limit? (cs : List Char) : Option LogLimit :=
  if cs.isEmpty then some (some .trace) else LogLimit.ofText? (String.ofList cs)

/-- Reads a directive from a word. The places of the signs are those in the word without the blanks around
it, and the word is cut there as it is written. -/
def ofWord? (word : List Char) : Option LogDirective :=
  let bare := Text.strip Text.isBlank word
  let cut (start stop : List Char) : List Char :=
    (word.drop (bare.length - start.length)).take (start.length - stop.length)
  let limited (d : LogDirective) : List Char → Option LogDirective
    | [] => some d
    | '=' :: r => (limit? (word.drop (bare.length - r.length))).map fun l => { d with limit := l }
    | _ => none
  let spanned (d : LogDirective) (cs : List Char) : Option LogDirective :=
    match cs.dropWhile fun c => c != ']' && c != '\x7b' with
    | ']' :: r => limited { d with span := some (String.ofList (cut cs (']' :: r))) } r
    | '\x7b' :: r =>
      let name := cut cs ('\x7b' :: r)
      match r.dropWhile (· != '\x7d') with
      | '\x7d' :: ']' :: s =>
        let test := cut r ('\x7d' :: ']' :: s)
        if test.isEmpty then none
        else (LogFieldTest.ofText? test).bind fun t =>
          let span := if name.isEmpty then none else some (String.ofList name)
          limited { d with span := span, field := some t } s
      | _ => none
    | _ => none
  match bare with
  | [] => none
  | '[' :: r => spanned {} r
  | c :: _ =>
    if !opens c then none
    else
      let rest := bare.dropWhile fun c => c != '=' && c != '['
      let name := String.ofList (cut bare rest)
      match rest with
      | '[' :: r => spanned { target := some name } r
      | '=' :: r => limited { target := some name } ('=' :: r)
      | _ =>
        match LogLimit.ofText? (String.ofList word) with
        | some l => some { limit := l }
        | none => some { target := some (String.ofList word) }

/-- Whether a directive speaks of a part. -/
def concernsArea (d : LogDirective) (area : LogArea) : Bool :=
  d.target.all fun t => t.toList.isPrefixOf area.text.toList

/-- Whether it can be told from a record alone, without the work around it, if a directive speaks of it. -/
def isStatic (d : LogDirective) : Bool := d.span.isNone && d.field.all (·.pattern.isNone)

/-- Whether a directive speaks of pieces of work. -/
def isDynamic (d : LogDirective) : Bool := d.span.isSome || d.field.isSome

/-- Whether a directive speaks of a record by itself. -/
def concerns (d : LogDirective) (r : LogRecord) : Bool :=
  d.isStatic && d.concernsArea r.area && d.field.all (·.isAmong r.fieldNames)

/-- Whether a directive speaks of a piece of work, whatever the values of its fields are. -/
def concernsSpan (d : LogDirective) (s : LogSpan) : Bool :=
  d.isDynamic && d.concernsArea s.area && d.span.all (· == s.name) &&
    d.field.all (·.isAmong (s.fields.map (·.1)))

/-- How near a directive comes to a part, by the length of the name. -/
def weight (d : LogDirective) : Nat :=
  match d.target with
  | some t => t.length + 1
  | none => 0

/-- Whether the second of two directives on a record decides: it comes nearer to the part, or as near, and
does not ask for less. -/
def yieldsTo (a b : LogDirective) : Bool :=
  if a.weight = b.weight then
    match a.field, b.field with
    | some s, some t => s.name ≤ t.name
    | some _, none => false
    | none, _ => true
  else a.weight < b.weight

/-- Whether two directives ask for the same. -/
def sameQuestion (a b : LogDirective) : Bool :=
  a.target == b.target && a.span == b.span && a.field == b.field

end LogDirective

end WorkWaves
