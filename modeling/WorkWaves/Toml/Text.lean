import WorkWaves.Toml.Value
import WorkWaves.Timestamp

/-!
# Reading TOML

`Toml.ofText?` reads a document. Each reader takes a value off the front of a text and answers what is left;
nothing is said about where a bad text goes wrong.
-/

namespace WorkWaves.Toml

/-- Reads something off the front of a text. -/
abbrev Reader (α : Type) := List Char → Option (α × List Char)

def isGap (c : Char) : Bool := c == ' ' || c == '\t'

def skipGap (cs : List Char) : List Char := cs.dropWhile isGap

/-- Whether a character may stand in a comment. -/
def isCommentChar (c : Char) : Bool := c == '\t' || (32 ≤ c.toNat && c.toNat != 127)

def skipComment : List Char → List Char
  | '#' :: r => r.dropWhile isCommentChar
  | r => r

/-- Passes over a line end. -/
def lineEnd? : List Char → Option (List Char)
  | '\n' :: r => some r
  | '\r' :: '\n' :: r => some r
  | _ => none

/-- Passes over gaps, comments and line ends. Every round takes at least one character. -/
def skipLines : Nat → List Char → List Char
  | 0, cs => cs
  | fuel + 1, cs =>
    let rest := skipComment (skipGap cs)
    match lineEnd? rest with
    | some r => skipLines fuel r
    | none => rest

def skipAll (cs : List Char) : List Char := skipLines (cs.length + 1) cs

/-! ### Strings -/

/-- The character with a code point written in hexadecimal, if it is one. -/
def scalar? (ds : List Char) : Option Char := do
  let n ← ds.foldlM (fun (n : Nat) c =>
    if c.isDigit then some (16 * n + (c.toNat - 48))
    else if 'a' ≤ c ∧ c ≤ 'f' then some (16 * n + (c.toNat - 87))
    else if 'A' ≤ c ∧ c ≤ 'F' then some (16 * n + (c.toNat - 55))
    else none) 0
  if n < 0xD800 ∨ (0xDFFF < n ∧ n < 0x110000) then some (Char.ofNat n) else none

/-- The character of an escape, and the text behind it. -/
def escape? : Reader Char
  | 'b' :: r => some ('\x08', r)
  | 't' :: r => some ('\t', r)
  | 'n' :: r => some ('\n', r)
  | 'f' :: r => some ('\x0c', r)
  | 'r' :: r => some ('\r', r)
  | '"' :: r => some ('"', r)
  | '\\' :: r => some ('\\', r)
  | 'u' :: r => if 4 ≤ r.length then (scalar? (r.take 4)).map (·, r.drop 4) else none
  | 'U' :: r => if 8 ≤ r.length then (scalar? (r.take 8)).map (·, r.drop 8) else none
  | _ => none

/-- Whether a character may stand in a string by itself. -/
def isPlainChar (c : Char) : Bool := c == '\t' || (32 ≤ c.toNat && c.toNat != 127)

/-- Reads a string on one line behind its opening quote. -/
def basicString : Nat → List Char → Reader (List Char)
  | 0, _, _ => none
  | fuel + 1, acc, cs =>
    match cs with
    | '"' :: r => some (acc.reverse, r)
    | '\\' :: r => (escape? r).bind fun p => basicString fuel (p.1 :: acc) p.2
    | c :: r => if isPlainChar c then basicString fuel (c :: acc) r else none
    | [] => none

/-- Reads a raw string on one line behind its opening quote. -/
def rawString : List Char → Reader (List Char)
  | _, [] => none
  | acc, c :: r =>
    if c = '\'' then some (acc.reverse, r)
    else if isPlainChar c then rawString (c :: acc) r
    else none

/-- A run of quotes in a string of several lines: fewer than three belong to the string, and so do up to
two before the three that close it. -/
def quoteRun (quote : Char) (cs : List Char) : Nat × List Char :=
  let n := (cs.takeWhile (· == quote)).length
  (n, cs.drop n)

/-- Passes over gaps and line ends. -/
def skipBlankLines : Nat → List Char → List Char
  | 0, cs => cs
  | fuel + 1, cs =>
    match lineEnd? (skipGap cs) with
    | some r => skipBlankLines fuel r
    | none => skipGap cs

/-- What a backslash at the end of a line takes away: the rest of the line and all blank lines. -/
def skipContinuation (cs : List Char) : Option (List Char) :=
  (lineEnd? (skipGap cs)).map fun r => skipBlankLines (r.length + 1) r

/-- Reads a string of several lines behind its opening quotes. -/
def longString (quote : Char) (escapes : Bool) : Nat → List Char → Reader (List Char)
  | 0, _, _ => none
  | fuel + 1, acc, cs =>
    match cs with
    | [] => none
    | c :: r =>
      if c = quote then
        let (n, r) := quoteRun quote (c :: r)
        if n < 3 then longString quote escapes fuel (List.replicate n quote ++ acc) r
        else if n ≤ 5 then some ((List.replicate (n - 3) quote ++ acc).reverse, r)
        else none
      else if c = '\\' ∧ escapes then
        match escape? r with
        | some (d, r) => longString quote escapes fuel (d :: acc) r
        | none => (skipContinuation r).bind (longString quote escapes fuel acc)
      else
        match lineEnd? (c :: r) with
        | some r => longString quote escapes fuel ('\n' :: acc) r
        | none => if isPlainChar c then longString quote escapes fuel (c :: acc) r else none

/-- A line end right behind the opening quotes does not count. -/
def dropFirstLineEnd (cs : List Char) : List Char := (lineEnd? cs).getD cs

def readString : Reader String
  | '"' :: '"' :: '"' :: r =>
    (longString '"' true (r.length + 1) [] (dropFirstLineEnd r)).map fun p => (String.ofList p.1, p.2)
  | '\'' :: '\'' :: '\'' :: r =>
    (longString '\'' false (r.length + 1) [] (dropFirstLineEnd r)).map fun p =>
      (String.ofList p.1, p.2)
  | '"' :: r => (basicString (r.length + 1) [] r).map fun p => (String.ofList p.1, p.2)
  | '\'' :: r => (rawString [] r).map fun p => (String.ofList p.1, p.2)
  | _ => none

/-! ### Keys -/

def isBareChar (c : Char) : Bool := c.isAlphanum || c == '-' || c == '_'

/-- Reads one part of a key. -/
def simpleKey : Reader String
  | '"' :: r => (basicString (r.length + 1) [] r).map fun p => (String.ofList p.1, p.2)
  | '\'' :: r => (rawString [] r).map fun p => (String.ofList p.1, p.2)
  | cs =>
    let name := cs.takeWhile isBareChar
    if name.isEmpty then none else some (String.ofList name, cs.drop name.length)

/-- How deep values and keys may be nested. -/
def depthLimit : Nat := 80

/-- Reads the parts of a key between points. The fuel bounds their number. -/
def dottedKey : Nat → Reader (List String)
  | 0, _ => none
  | fuel + 1, cs => do
    let (name, r) ← simpleKey (skipGap cs)
    match skipGap r with
    | '.' :: r => (dottedKey fuel r).map fun p => (name :: p.1, p.2)
    | r => some ([name], r)

def readKey : Reader (List String) := dottedKey (depthLimit - 1)

/-! ### Numbers and dates -/

/-- Reads digits of a kind with single underscores between them. -/
def digitRun (p : Char → Bool) : Nat → Reader (List Char)
  | 0, _ => none
  | fuel + 1, cs =>
    let ds := cs.takeWhile p
    if ds.isEmpty then none
    else match cs.drop ds.length with
      | '_' :: r => (digitRun p fuel r).map fun q => (ds ++ q.1, q.2)
      | r => some (ds, r)

def readDigits (p : Char → Bool) : Reader (List Char) := fun cs => digitRun p (cs.length + 1) cs

def isHexDigit (c : Char) : Bool := c.isDigit || ('a' ≤ c && c ≤ 'f') || ('A' ≤ c && c ≤ 'F')

def digitValue (c : Char) : Nat :=
  if c.isDigit then c.toNat - 48 else if 'a' ≤ c then c.toNat - 87 else c.toNat - 55

def ofDigits (base : Nat) (ds : List Char) : Nat := ds.foldl (fun n c => base * n + digitValue c) 0

/-- An integer of 64 bits. -/
def integer? (n : Int) : Option Toml :=
  if -Int.pow 2 63 ≤ n ∧ n < Int.pow 2 63 then some (.integer n) else none

def splitSign : List Char → Option Bool × List Char
  | '+' :: r => (some false, r)
  | '-' :: r => (some true, r)
  | r => (none, r)

/-- Reads digits of which a zero in front stands alone. -/
def wholeDigits : Reader (List Char)
  | '0' :: r => some (['0'], r)
  | cs => readDigits Char.isDigit cs

def readInteger (cs : List Char) : Option (Toml × List Char) :=
  let based (base : Nat) (p : Char → Bool) (r : List Char) : Option (Toml × List Char) :=
    (readDigits p r).bind fun q => (integer? (ofDigits base q.1)).map (·, q.2)
  match cs with
  | '0' :: 'x' :: r => based 16 isHexDigit r
  | '0' :: 'o' :: r => based 8 (fun c => '0' ≤ c && c ≤ '7') r
  | '0' :: 'b' :: r => based 2 (fun c => c == '0' || c == '1') r
  | cs =>
    let (sign, r) := splitSign cs
    (wholeDigits r).bind fun q =>
      let n : Int := ofDigits 10 q.1
      (integer? (if sign = some true then -n else n)).map (·, q.2)

/-- Whether `digits * 10 ^ exponent` is too large for a binary fraction of double width. -/
def overflows (digits : Nat) (exponent : Int) : Bool :=
  if digits = 0 then false
  else
    let lead := (Nat.toDigits 10 digits).length + exponent
    if lead < 308 then false
    else if 310 < lead then true
    else
      let limit := Nat.pow 2 1024 - Nat.pow 2 970
      match exponent with
      | .ofNat e => limit ≤ digits * Nat.pow 10 e
      | .negSucc e => limit * Nat.pow 10 (e + 1) ≤ digits

/-- Reads a number with a point, an exponent or both, or one of the named ones. -/
def readFloat (cs : List Char) : Option (Toml × List Char) :=
  let (sign, r) := splitSign cs
  match r with
  | 'i' :: 'n' :: 'f' :: r => some (.float, r)
  | 'n' :: 'a' :: 'n' :: r => some (.float, r)
  | r => do
    let (whole, r) ← wholeDigits r
    let (fraction, r) ← match r with
      | '.' :: r => readDigits Char.isDigit r
      | r => some ([], r)
    let (exponent, r) ← match r with
      | c :: r =>
        if c = 'e' ∨ c = 'E' then
          let (sign, r) := splitSign r
          (readDigits Char.isDigit r).map fun q =>
            let n : Int := ofDigits 10 q.1
            (some (if sign = some true then -n else n), q.2)
        else some (none, c :: r)
      | [] => some (none, [])
    if fraction.isEmpty && exponent.isNone then none
    else if sign ≠ some true ∧
        overflows (ofDigits 10 (whole ++ fraction)) (exponent.getD 0 - fraction.length) then none
    else some (.float, r)

/-- Reads a number of exactly `n` digits within bounds. -/
def fixedNumber (n low high : Nat) : Reader Nat := fun cs =>
  let ds := cs.take n
  if ds.length = n ∧ ds.all Char.isDigit then
    let k := ofDigits 10 ds
    if low ≤ k ∧ k ≤ high then some (k, cs.drop n) else none
  else none

def exactly (c : Char) : List Char → Option (List Char)
  | d :: r => if c = d then some r else none
  | [] => none

/-- Reads a date and gives it in its one form. -/
def readDate (cs : List Char) : Option (List Char × List Char) := do
  let (y, r) ← fixedNumber 4 0 9999 cs
  let (m, r) ← fixedNumber 2 1 12 (← exactly '-' r)
  let (d, r) ← fixedNumber 2 1 (Timestamp.daysInMonth y m) (← exactly '-' r)
  return (Timestamp.padded 4 y ++ '-' :: Timestamp.padded 2 m ++ '-' :: Timestamp.padded 2 d, r)

/-- Reads a time of day and gives it in its one form. -/
def readTime (cs : List Char) : Option (List Char × List Char) := do
  let (h, r) ← fixedNumber 2 0 23 cs
  let (m, r) ← fixedNumber 2 0 59 (← exactly ':' r)
  let (s, r) ← fixedNumber 2 0 60 (← exactly ':' r)
  let (fraction, r) ← match r with
    | '.' :: r =>
      let ds := r.takeWhile Char.isDigit
      if ds.isEmpty then none else some (ds.take 9, r.drop ds.length)
    | r => some ([], r)
  let shown := (fraction.reverse.dropWhile (· == '0')).reverse
  return (Timestamp.padded 2 h ++ ':' :: Timestamp.padded 2 m ++ ':' :: Timestamp.padded 2 s ++
    (if shown.isEmpty then [] else '.' :: shown), r)

/-- Reads an offset from universal time and gives it in its one form. -/
def readOffset : Reader (List Char)
  | 'Z' :: r => some (['Z'], r)
  | 'z' :: r => some (['Z'], r)
  | cs =>
    match splitSign cs with
    | (some negative, r) => do
      let (h, r) ← fixedNumber 2 0 23 r
      let (m, r) ← fixedNumber 2 0 59 (← exactly ':' r)
      let sign := if negative && (h != 0 || m != 0) then '-' else '+'
      return (sign :: Timestamp.padded 2 h ++ ':' :: Timestamp.padded 2 m, r)
    | _ => none

/-- Reads a date, a time of day, or both with an offset perhaps. -/
def readDatetime (cs : List Char) : Option (Toml × List Char) :=
  match readDate cs with
  | none => (readTime cs).map fun p => (.datetime (String.ofList p.1), p.2)
  | some (date, r) =>
    let dateOnly := (Toml.datetime (String.ofList date), r)
    match r with
    | c :: s =>
      if c = 'T' ∨ c = 't' ∨ c = ' ' then
        match readTime s with
        | none => some dateOnly
        | some (time, r) =>
          let (offset, r) := (readOffset r).getD ([], r)
          some (.datetime (String.ofList (date ++ 'T' :: time ++ offset)), r)
      else some dateOnly
    | [] => some dateOnly

/-! ### Values and documents -/

mutual

/-- Reads a value. -/
def readValue : Nat → Nat → Reader Toml
  | 0, _, _ => none
  | fuel + 1, depth, cs =>
    match cs with
    | '"' :: _ | '\'' :: _ => (readString cs).map fun p => (.string p.1, p.2)
    | '[' :: r =>
      if depthLimit ≤ depth + 1 then none
      else (readElements fuel (depth + 1) (skipAll r)).map fun p => (.array p.1, p.2)
    | '\x7b' :: r =>
      if depthLimit ≤ depth + 1 then none
      else match skipGap r with
        | '\x7d' :: r => some (.table .inline [], r)
        | r => (readPairs fuel (depth + 1) [] r).map fun p => (.table .inline p.1, p.2)
    | 't' :: 'r' :: 'u' :: 'e' :: r => some (.boolean true, r)
    | 'f' :: 'a' :: 'l' :: 's' :: 'e' :: r => some (.boolean false, r)
    | cs => (readDatetime cs).or ((readFloat cs).or (readInteger cs))

/-- Reads the elements of an array up to its end. -/
def readElements : Nat → Nat → Reader (List Toml)
  | 0, _, _ => none
  | fuel + 1, depth, cs =>
    match cs with
    | ']' :: r => some ([], r)
    | cs => do
      let (v, r) ← readValue fuel depth cs
      match skipAll r with
      | ',' :: r => (readElements fuel depth (skipAll r)).map fun p => (v :: p.1, p.2)
      | ']' :: r => some ([v], r)
      | _ => none

/-- Reads the assignments of an inline table up to its end. -/
def readPairs : Nat → Nat → Entries → Reader Entries
  | 0, _, _, _ => none
  | fuel + 1, depth, t, cs => do
    let (key, r) ← readKey cs
    let r ← exactly '=' r
    let (v, r) ← readValue fuel depth (skipGap r)
    let t ← assign .defined v key t
    match skipGap r with
    | ',' :: r => readPairs fuel depth t r
    | '\x7d' :: r => some (t, r)
    | _ => none

end

/-- A document read so far: its tables, and the header under which assignments stand. -/
structure Reading where
  root : Entries := []
  header : List String := []

/-- Reads a header or an assignment. -/
def readLine (d : Reading) : Reader Reading
  | '[' :: '[' :: r => do
    let (path, r) ← readKey r
    let r ← exactly ']' (← exactly ']' r)
    return (⟨← extend path d.root, path⟩, r)
  | '[' :: r => do
    let (path, r) ← readKey r
    let r ← exactly ']' r
    return (⟨← define path d.root, path⟩, r)
  | cs => do
    let (key, r) ← readKey cs
    let r := skipGap (← exactly '=' r)
    let (v, r) ← readValue (2 * r.length + 2) 0 r
    return ({ d with root := ← assignUnder d.header key v d.root }, r)

/-- Reads lines up to the end of the text; each takes at least one character. -/
def readLines : Nat → Reading → List Char → Option Reading
  | 0, _, _ => none
  | fuel + 1, d, cs =>
    match skipAll cs with
    | [] => some d
    | cs => do
      let (d, r) ← readLine d cs
      match skipComment (skipGap r) with
      | [] => some d
      | r => readLines fuel d (← lineEnd? r)

/-- The top-level table of a document. A byte order mark in front of it does not count. -/
def ofText? (text : String) : Option Entries :=
  let cs := match text.toList with
    | '\uFEFF' :: r => r
    | r => r
  (readLines (cs.length + 1) {} cs).map (·.root)

end WorkWaves.Toml
