import WorkWaves.Regex.Basic

/-!
# Reading regular expressions

The common notation: alternatives, groups with flags or names, classes in brackets with their operations,
repetitions, and escapes. What could only match parts of characters is refused, and so are edges of words of
all scripts, which no search can tell by the next character alone.
-/

namespace WorkWaves.Regex

/-- A step of reading: what was read and what is left. -/
abbrev Reader (α : Type) := List Char → Option (α × List Char)

/-- How what follows is meant. -/
structure Flags where
  caseless : Bool := false
  multiLine : Bool := false
  dotAll : Bool := false
  swapGreed : Bool := false
  /-- Whether classes are those of all scripts. -/
  unicode : Bool := true
  carriageReturns : Bool := false
  /-- Whether blanks and comments do not count. -/
  spaced : Bool := false
  deriving DecidableEq, Repr

namespace Flags

/-- Sets a flag by its letter. -/
def set? (f : Flags) (on : Bool) : Char → Option Flags
  | 'i' => some { f with caseless := on }
  | 'm' => some { f with multiLine := on }
  | 's' => some { f with dotAll := on }
  | 'U' => some { f with swapGreed := on }
  | 'u' => some { f with unicode := on }
  | 'R' => some { f with carriageReturns := on }
  | 'x' => some { f with spaced := on }
  | _ => none

/-- Reads letters of flags. Each may come once; those behind a hyphen are taken back, and there are some. -/
def read (f : Flags) (on : Bool) (seen : List Char) : Reader Flags
  | [] => none
  | c :: r =>
    if c = ':' ∨ c = ')' then if seen.head? = some '-' then none else some (f, c :: r)
    else if seen.contains c then none
    else if c = '-' then read f false (c :: seen) r
    else (f.set? on c).bind fun f => read f on (c :: seen) r

/-- Leaves out what does not count. -/
def skip (f : Flags) : List Char → List Char
  | [] => []
  | c :: r =>
    if !f.spaced then c :: r
    else if Text.isBlank c then skip f r
    else if c = '#' then skipComment r
    else c :: r
where
  skipComment : List Char → List Char
    | [] => []
    | c :: r => if c = '\n' then skip f r else skipComment r

/-- A set of characters as the flags mean it; none if it holds parts of characters. -/
def charSet? (f : Flags) (s : CharSet) : Option CharSet :=
  if f.unicode || s.isAscii then some s else none

/-- One character as the flags mean it. -/
def single? (f : Flags) (c : Char) : Option CharSet :=
  if f.unicode || c.toNat < 128 then
    some (if f.caseless then .folded (.single c) else .single c)
  else none

end Flags

/-! ### Classes -/

/-- The classes with names, by their ranges. -/
def namedClasses : List (String × List (Char × Char)) :=
  [("alnum", [('0', '9'), ('A', 'Z'), ('a', 'z')]), ("alpha", [('A', 'Z'), ('a', 'z')]),
    ("ascii", [('\x00', '\x7f')]), ("blank", [('\t', '\t'), (' ', ' ')]),
    ("cntrl", [('\x00', '\x1f'), ('\x7f', '\x7f')]), ("digit", [('0', '9')]), ("graph", [('!', '~')]),
    ("lower", [('a', 'z')]), ("print", [(' ', '~')]),
    ("punct", [('!', '/'), (':', '@'), ('[', '\x60'), ('\x7b', '~')]), ("space", [('\t', '\r'), (' ', ' ')]),
    ("upper", [('A', 'Z')]), ("word", [('0', '9'), ('A', 'Z'), ('_', '_'), ('a', 'z')]),
    ("xdigit", [('0', '9'), ('A', 'F'), ('a', 'f')])]

def named? (name : String) : Option CharSet := (namedClasses.lookup name).map CharSet.ofRanges

/-- The class of an escaped small letter. -/
def smallClass? (f : Flags) : Char → Option CharSet
  | 'd' => if f.unicode then some .digit else named? "digit"
  | 's' => if f.unicode then some .blank else named? "space"
  | 'w' => if f.unicode then some .word else named? "word"
  | _ => none

/-- The class of an escaped letter; a capital letter takes all but that of the small one. -/
def letterClass? (f : Flags) (c : Char) : Option CharSet :=
  if c.isUpper then (smallClass? f c.toLower).map .compl else smallClass? f c

/-- The general categories by their letters. Punctuation, symbols, marks and other characters are told apart
in the first blocks only. -/
def category? (c : Char) : Option CharSet :=
  let separators := CharSet.diff .blank (.ofRanges [('\t', '\r'), ('\x85', '\x85')])
  let symbols := CharSet.ofRanges [('$', '$'), ('+', '+'), ('<', '>'), ('^', '^'), ('\x60', '\x60'),
    ('|', '|'), ('~', '~')]
  match c.toLower with
  | 'l' => some .letter
  | 'n' => some .number
  | 'z' => some separators
  | 's' => some symbols
  | 'p' => (named? "punct").map fun p => p.diff symbols
  | 'm' => some (.range '\u0300' '\u036F')
  | 'c' => some (.ofRanges [('\x00', '\x1f'), ('\x7f', '\u009F')])
  | _ => none

/-! ### Escapes -/

/-- What an escape stands for. -/
inductive Escape where
  | char (c : Char)
  | chars (s : CharSet)
  | look (a : Assertion)
  deriving DecidableEq, Repr

/-- A character by its hexadecimal digits. -/
def hexChar? (digits : List Char) : Option Char :=
  let value? (c : Char) : Option Nat :=
    if c.isDigit then some (c.toNat - 48)
    else if 'a' ≤ c.toLower ∧ c.toLower ≤ 'f' then some (c.toLower.toNat - 87) else none
  (digits.mapM value?).bind fun ds =>
    let n := ds.foldl (fun n d => 16 * n + d) 0
    if h : n.isValidChar then some (Char.ofNatAux n h) else none

/-- Reads a character written by a number of hexadecimal digits. -/
def readHex (count : Nat) : Reader Escape := fun cs =>
  if (cs.take count).length = count then
    (hexChar? (cs.take count)).map fun c => (.char c, cs.drop count)
  else none

/-- The characters that stand for others behind a backslash. -/
def controls : List (Char × Char) :=
  [('a', '\x07'), ('f', '\x0c'), ('t', '\t'), ('n', '\n'), ('r', '\r'), ('v', '\x0b')]

/-- The assertions that are written as escapes. -/
def assertion? (f : Flags) : Char → Option Assertion
  | 'A' => some .textStart
  | 'z' => some .textEnd
  | 'b' => if f.unicode then none else some .wordEdge
  | 'B' => if f.unicode then none else some .noWordEdge
  | '<' => if f.unicode then none else some .wordStart
  | '>' => if f.unicode then none else some .wordEnd
  | _ => none

/-- Reads what follows a backslash. -/
def readEscape (f : Flags) : Reader Escape
  | [] => none
  | 'x' :: r => readHex 2 r
  | 'u' :: r => readHex 4 r
  | 'U' :: r => readHex 8 r
  | 'p' :: c :: r => if f.unicode then (category? c).map fun s => (.chars s, r) else none
  | 'P' :: c :: r => if f.unicode then (category? c).map fun s => (.chars (.compl s), r) else none
  | c :: r =>
    match letterClass? f c, assertion? f c, controls.lookup c with
    | some s, _, _ => some (.chars s, r)
    | _, some a, _ => some (.look a, r)
    | _, _, some d => some (.char d, r)
    | none, none, none =>
      if c.toNat < 128 && !c.isAlphanum && c != '<' && c != '>' then some (.char c, r) else none

/-! ### Classes in brackets -/

/-- Reads a class by its name, with the bracket and colon in front left out. -/
def readNamed (cs : List Char) : Option (CharSet × List Char) :=
  let (negated, cs) := match cs with
    | '^' :: r => (true, r)
    | r => (false, r)
  match cs.span (· != ':') with
  | (name, ':' :: ']' :: r) =>
    (named? (String.ofList name)).map fun s => (if negated then .compl s else s, r)
  | _ => none

/-- Reads a character or an escape in brackets. -/
def readMember (f : Flags) (cs : List Char) : Option (Escape × List Char) := do
  let (e, r) ← match cs with
    | [] => none
    | '\\' :: r => readEscape f r
    | c :: r => some (.char c, r)
  match e with
  | .char c => if f.unicode || c.toNat < 128 then some (e, r) else none
  | _ => some (e, r)

/-- Reads a member of a class or a range. -/
def readRange (f : Flags) (cs : List Char) : Option (CharSet × List Char) := do
  let (first, r) ← readMember f cs
  let alone : Option (CharSet × List Char) := match first with
    | .char c => some (.single c, r)
    | .chars s => some (s, r)
    | .look _ => none
  match f.skip r with
  | '-' :: s =>
    match f.skip s with
    | ']' :: _ | '-' :: _ => alone
    | s =>
      let (last, r) ← readMember f s
      match first, last with
      | .char low, .char high => if low ≤ high then some (.range low high, r) else none
      | _, _ => none
  | _ => alone

/-- The operations on classes. -/
inductive SetOp where
  | inter
  | diff
  | symmDiff
  deriving DecidableEq, Repr

/-- Does an operation with what was read of a class before. -/
def SetOp.apply (f : Flags) (before : Option (CharSet × SetOp)) (s : CharSet) : CharSet :=
  let fold (s : CharSet) := if f.caseless then CharSet.folded s else s
  match before with
  | none => s
  | some (a, .inter) => .inter (fold a) (fold s)
  | some (a, .diff) => .diff (fold a) (fold s)
  | some (a, .symmDiff) => .symmDiff (fold a) (fold s)

/-- Reads the hyphens and the closing bracket that stand for themselves at the start of a class. -/
def readFront : List Char → CharSet × List Char
  | '-' :: r =>
    let rest := r.dropWhile (· == '-')
    (.single '-', rest)
  | ']' :: r => (.single ']', r)
  | r => (.empty, r)

/-- Reads a class up to its closing bracket, given what was read of it. -/
def readClass (f : Flags) : Nat → Option (CharSet × SetOp) → CharSet → Reader CharSet
  | 0, _, _, _ => none
  | fuel + 1, before, s, cs =>
    match f.skip cs with
    | [] => none
    | ']' :: r => some (SetOp.apply f before s, r)
    | '&' :: '&' :: r => readClass f fuel (some (SetOp.apply f before s, .inter)) .empty r
    | '-' :: '-' :: r => readClass f fuel (some (SetOp.apply f before s, .diff)) .empty r
    | '~' :: '~' :: r => readClass f fuel (some (SetOp.apply f before s, .symmDiff)) .empty r
    | '[' :: r =>
      let named := match r with
        | ':' :: r => readNamed r
        | _ => none
      match named with
      | some (t, r) => readClass f fuel before (.union s t) r
      | none => do
        let (negated, r) := match f.skip r with
          | '^' :: r => (true, f.skip r)
          | r => (false, r)
        let (front, r) := readFront r
        let (t, r) ← readClass f fuel none front r
        let t := if f.caseless then .folded t else t
        readClass f fuel before (.union s (if negated then .compl t else t)) r
    | cs => do
      let (t, r) ← readRange f cs
      readClass f fuel before (.union s t) r

/-- Reads a class from its opening bracket on. -/
def readBrackets (f : Flags) (cs : List Char) : Option (CharSet × List Char) := do
  let (negated, r) := match f.skip cs with
    | '^' :: r => (true, f.skip r)
    | r => (false, r)
  let (front, r) := readFront r
  let (s, r) ← readClass f (2 * r.length + 1) none front r
  let s := if f.caseless then .folded s else s
  let s ← f.charSet? (if negated then .compl s else s)
  return (s, r)

/-! ### Expressions -/

/-- What is known while an expression is read. -/
structure Reading where
  flags : Flags := {}
  /-- The names of groups so far. -/
  names : List (List Char) := []

/-- How a group begins. -/
inductive Opening where
  | group
  /-- Flags for the rest of the group around. -/
  | flags

/-- Reads the name of a group. -/
def readName (d : Reading) (cs : List Char) : Option (Reading × List Char) :=
  match cs.span (· != '>') with
  | (c :: name, '>' :: r) =>
    let fits := (c == '_' || Text.isAlphabetic c) &&
      name.all fun c => c == '_' || c == '.' || c == '[' || c == ']' || Text.isAlphanumeric c
    if fits && !d.names.contains (c :: name) then some ({ d with names := (c :: name) :: d.names }, r)
    else none
  | _ => none

/-- Reads the start of a group behind its parenthesis. -/
def readOpening (d : Reading) (cs : List Char) : Option (Opening × Reading × List Char) :=
  match d.flags.skip cs with
  | '?' :: '=' :: _ | '?' :: '!' :: _ | '?' :: '<' :: '=' :: _ | '?' :: '<' :: '!' :: _ => none
  | '?' :: 'P' :: '<' :: r | '?' :: '<' :: r => (readName d r).map fun p => (.group, p)
  | '?' :: r =>
    match d.flags.read true [] r with
    | some (f, ')' :: s) => if s.length + 1 = r.length then none else some (.flags, { d with flags := f }, s)
    | some (f, _ :: s) => some (.group, { d with flags := f }, s)
    | _ => none
  | r => some (.group, d, r)

/-- Applies the repetitions that follow an expression. Those with numbers are not for one line of a filter:
their braces are its own. -/
def repeated (f : Flags) : Nat → Regex → List Char → Option (Regex × List Char)
  | 0, _, _ => none
  | fuel + 1, e, cs =>
    let go (r : List Char) (make : Bool → Regex) : Option (Regex × List Char) :=
      match r with
      | '?' :: r => repeated f fuel (make f.swapGreed) r
      | r => repeated f fuel (make !f.swapGreed) r
    match f.skip cs with
    | '?' :: r => go r fun greedy => optional greedy e
    | '*' :: r => go r fun greedy => star greedy e
    | '+' :: r => go r fun greedy => e.andThen (star greedy e)
    | '\x7b' :: _ => none
    | r => some (e, r)

/-- Reads one character, class, assertion or escape. -/
def readPiece (f : Flags) : Reader Regex
  | [] => none
  | '[' :: r => (readBrackets f r).map fun p => (.char p.1, p.2)
  | '.' :: r =>
    if !f.unicode then none
    else some (.char (if f.dotAll then .all
      else if f.carriageReturns then .compl (.ofRanges [('\n', '\n'), ('\r', '\r')])
      else .compl (.single '\n')), r)
  | '^' :: r => some (.look (if f.multiLine then .lineStart else .textStart), r)
  | '$' :: r => some (.look (if f.multiLine then .lineEnd else .textEnd), r)
  | '\\' :: r => (readEscape f r).bind fun
    | (.char c, r) => (f.single? c).map fun s => (.char s, r)
    | (.chars s, r) => (f.charSet? s).map fun s => (.char s, r)
    | (.look a, r) => some (.look a, r)
  | c :: r => (f.single? c).map fun s => (.char s, r)

mutual

/-- Reads alternatives up to the end of their group. -/
def readAlternatives : Nat → Reading → List Char → Option (Regex × Reading × List Char)
  | 0, _, _ => none
  | fuel + 1, d, cs => do
    let (e, d, r) ← readSequence fuel d .empty cs
    match r with
    | '|' :: r => do
      let (e', d, r) ← readAlternatives fuel d r
      return (.alt e e', d, r)
    | r => return (e, d, r)

/-- Reads what follows an expression in the same alternative. -/
def readSequence : Nat → Reading → Regex → List Char → Option (Regex × Reading × List Char)
  | 0, _, _, _ => none
  | fuel + 1, d, e, cs =>
    match d.flags.skip cs with
    | [] => some (e, d, [])
    | ')' :: r => some (e, d, ')' :: r)
    | '|' :: r => some (e, d, '|' :: r)
    | '*' :: _ | '+' :: _ | '?' :: _ | '\x7b' :: _ => none
    | '(' :: r => do
      match ← readOpening d r with
      | (.flags, d, r) => readSequence fuel d e r
      | (.group, inner, r) =>
        match ← readAlternatives fuel inner r with
        | (g, inner, ')' :: r) =>
          let d := { d with names := inner.names }
          let (g, r) ← repeated d.flags (r.length + 1) g r
          readSequence fuel d (e.andThen g) r
        | _ => none
    | cs => do
      let (p, r) ← readPiece d.flags cs
      let (p, r) ← repeated d.flags (r.length + 1) p r
      readSequence fuel d (e.andThen p) r

end

/-- Reads a regular expression. -/
def ofText? (s : String) : Option Regex :=
  match readAlternatives (2 * s.length + 2) {} s.toList with
  | some (e, _, []) => some e
  | _ => none

end WorkWaves.Regex
