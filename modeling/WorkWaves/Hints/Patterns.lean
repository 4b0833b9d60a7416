import WorkWaves.Text.Blank
import WorkWaves.Text.CharClass
import WorkWaves.Text.Scan

/-!
# Where descriptions name paths

Three ways to name a path: in a code span (`` `src/app.ts` ``), behind a marker at the start of a line
(`File: src/app.ts`), and as a bare word with a slash and an extension. Each is a function that finds the
named text at one place; `codeSpans`, `marked` and `bareWords` collect what a whole text names.
-/

namespace WorkWaves.Hints

open WorkWaves.Text

/-- A code span: a word without blanks and backticks between two backticks. -/
def codeSpan (_before : Option Char) : List Char → Option (List Char × Nat)
  | '\x60' :: r =>
    let word := r.takeWhile fun c => c != '\x60' && !isBlank c
    match word, r.drop word.length with
    | _ :: _, '\x60' :: _ => some (word, word.length + 2)
    | _, _ => none
  | _ => none

/-- Takes a word off the front of a text, in either case. -/
def dropWord (word : List Char) (cs : List Char) : Option (List Char) :=
  if (cs.take word.length).map Char.toLower = word then some (cs.drop word.length) else none

/-- The words that announce a path. -/
def markerWords : List (List Char) := ["file".toList, "path".toList, "location".toList]

/-- Takes the sign of a plural off the front of a text; the long s counts as one too. -/
def dropPlural : List Char → List Char
  | c :: r => if c = 's' ∨ c = 'S' ∨ c = 'ſ' then r else c :: r
  | [] => []

def dropBlanks (cs : List Char) : List Char := cs.dropWhile isBlank

/-- Takes a pair of asterisks off the front of a text. -/
def dropStars : List Char → List Char
  | '*' :: '*' :: r => r
  | r => r

/-- Takes the sign of a list entry, which blanks follow, off the front of a text. -/
def dropBullet : List Char → List Char
  | c :: d :: r => if (c = '-' ∨ c = '*') ∧ isBlank d then dropBlanks r else c :: d :: r
  | r => r

/-- What a marker announces: a word without blanks, backticks and commas. -/
def announced (cs : List Char) : List Char :=
  cs.takeWhile fun c => !isBlank c && c != '\x60' && c != ','

def dropTick : List Char → List Char
  | '\x60' :: r => r
  | r => r

/-- The path behind the colon of a marker, and the text behind it. Asterisks in front of the path belong
to the marker, unless nothing would be left. -/
def announcement (cs : List Char) : Option (List Char × List Char) :=
  let cs := dropBlanks cs
  let inner := dropTick (dropBlanks (dropStars cs))
  match announced inner with
  | [] =>
    match announced (dropTick cs) with
    | [] => none
    | word => some (word, dropTick ((dropTick cs).drop word.length))
  | word => some (word, dropTick (inner.drop word.length))

/-- A marker at the start of a line, with blanks, a list sign and asterisks where they may stand. -/
def marker (before : Option Char) (cs : List Char) : Option (List Char × Nat) :=
  if before = none ∨ before = some '\n' then
    let head := dropStars (dropBullet (dropBlanks cs))
    match markerWords.findSome? (dropWord · head) with
    | none => none
    | some r =>
      match dropBlanks (dropStars (dropPlural r)) with
      | ':' :: r =>
        (announcement r).map fun p => (p.1, cs.length - p.2.length)
      | _ => none
  else none

/-- Whether a character may stand in a bare path, slashes apart. -/
def isNameChar (c : Char) : Bool := isWordChar c || c == '.' || c == '-'

def isExtensionChar (c : Char) : Bool := c.isAlphanum

/-- The longest start of a name that ends in a point and an extension of up to ten characters, with
something before the point. Gives the length. -/
def fileName? (name : List Char) : Option Nat :=
  let points := (List.range name.length).filter fun i =>
    1 ≤ i && name[i]? == some '.' && (name[i + 1]?.map isExtensionChar).getD false
  points.getLast?.map fun i =>
    i + 1 + ((name.drop (i + 1)).takeWhile isExtensionChar |>.take 10).length

/-- The parts of a path between slashes at the front of a text, as long as none is empty: each part with
what follows it. -/
def parts : Nat → List Char → List (List Char)
  | 0, _ => []
  | fuel + 1, cs =>
    let name := cs.takeWhile isNameChar
    match name, cs.drop name.length with
    | [], _ => []
    | _, '/' :: r => name :: parts fuel r
    | _, _ => [name]

/-- The length of the longest bare path among parts: at least one directory, then a file name. `passed`
is the length of the directories before. -/
def bestPath : Nat → List (List Char) → Option Nat
  | _, [] => none
  | passed, name :: rest =>
    match bestPath (passed + name.length + 1) rest with
    | some n => some n
    | none => if passed = 0 then none else (fileName? name).map (passed + ·)

/-- A bare path at the front of a text. -/
def barePath (cs : List Char) : Option (List Char) :=
  (bestPath 0 (parts (cs.length + 1) cs)).map cs.take

/-- What may stand before a bare path. -/
def opensWord (c : Char) : Bool := isBlank c || c == '(' || c == '[' || c == '"' || c == '\''

/-- A bare path at the very start of the text or behind a character that opens a word. A line number that
may follow it holds no such character, so it need not be taken. -/
def bareWord (before : Option Char) (cs : List Char) : Option (List Char × Nat) :=
  let first := if before = none then barePath cs else none
  match first with
  | some path => some (path, path.length)
  | none =>
    match cs with
    | c :: r =>
      if opensWord c then (barePath r).map fun path => (path, path.length + 1) else none
    | [] => none

def codeSpans (cs : List Char) : List (List Char) := occurrences codeSpan none 0 cs

def marked (cs : List Char) : List (List Char) := occurrences marker none 0 cs

def bareWords (cs : List Char) : List (List Char) := occurrences bareWord none 0 cs

end WorkWaves.Hints
