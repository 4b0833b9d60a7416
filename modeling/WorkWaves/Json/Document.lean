/-!
# What can be read of a JSON text

`Document.ofText` keeps everything that stands before the first place where a text stops being JSON, and
marks that place. A reader can then walk the document in order and report whichever comes first, a value
of the wrong kind or the broken place.
-/

namespace WorkWaves.Json

/-- How a number is written: its sign, the digits before the point, and, if there is a point or an
exponent, the digits after the point and the exponent. -/
structure Numeral where
  negative : Bool
  whole : List Nat
  rest : Option (List Nat × Int)
  deriving Repr, DecidableEq

/-- A piece of a document. -/
inductive Node where
  | null
  | bool (b : Bool)
  | number (n : Numeral)
  /-- A string; without content when an escape in it names half of a surrogate pair. -/
  | string (content : Option String)
  /-- The elements that could be read, and whether the array ends properly after them. -/
  | array (elements : List Node) (closed : Bool)
  /-- The members that could be read, each with its key, and whether the object ends properly. -/
  | object (members : List (Node × Node)) (closed : Bool)
  /-- The text is no JSON from here on. -/
  | broken
  deriving Repr, Inhabited

namespace Node

mutual

/-- Whether nothing in the piece is broken. -/
def isIntact : Node → Bool
  | .null | .bool _ | .number _ | .string _ => true
  | .array es closed => closed && areIntact es
  | .object ms closed => closed && membersIntact ms
  | .broken => false

def areIntact : List Node → Bool
  | [] => true
  | n :: r => isIntact n && areIntact r

/-- As `areIntact`, for the values of members. -/
def membersIntact : List (Node × Node) → Bool
  | [] => true
  | (_, n) :: r => isIntact n && membersIntact r

end

end Node

/-- The characters that may stand between the parts of a text. -/
def isGap (c : Char) : Bool := c == ' ' || c == '\n' || c == '\t' || c == '\r'

def skipGap (cs : List Char) : List Char := cs.dropWhile isGap

/-- The value of a hexadecimal digit. -/
def hexValue (c : Char) : Option Nat :=
  let n := c.toNat
  if 48 ≤ n ∧ n ≤ 57 then some (n - 48)
  else if 97 ≤ n ∧ n ≤ 102 then some (n - 87)
  else if 65 ≤ n ∧ n ≤ 70 then some (n - 55)
  else none

/-- A code unit written as four hexadecimal digits. -/
def hex4 (a b c d : Char) : Option Nat :=
  match hexValue a, hexValue b, hexValue c, hexValue d with
  | some a, some b, some c, some d => some (((a * 16 + b) * 16 + c) * 16 + d)
  | _, _, _, _ => none

/-- The character that a one-letter escape stands for. -/
def unescape : Char → Option Char
  | '"' => some '"'
  | '\\' => some '\\'
  | '/' => some '/'
  | 'b' => some '\x08'
  | 'f' => some '\x0c'
  | 'n' => some '\n'
  | 'r' => some '\r'
  | 't' => some '\t'
  | _ => none

/-- One unit of a quoted string: a character, or a code unit written in hexadecimal. -/
inductive Unit16 where
  | char (c : Char)
  | code (n : Nat)
  deriving Repr, DecidableEq

/-- The units of a string up to its closing quote, and the text behind it. -/
def stringUnits : List Char → Option (List Unit16 × List Char)
  | [] => none
  | '"' :: r => some ([], r)
  | '\\' :: 'u' :: a :: b :: c :: d :: r =>
    match hex4 a b c d with
    | none => none
    | some n => (stringUnits r).map fun p => (.code n :: p.1, p.2)
  | '\\' :: e :: r =>
    match unescape e with
    | none => none
    | some c => (stringUnits r).map fun p => (.char c :: p.1, p.2)
  | c :: r =>
    if c.toNat < 32 || c == '\\' then none
    else (stringUnits r).map fun p => (.char c :: p.1, p.2)

/-- The characters that units stand for: code units pair up as surrogates, and none is left alone. -/
def charsOfUnits : List Unit16 → Option (List Char)
  | [] => some []
  | .char c :: r => (charsOfUnits r).map (c :: ·)
  | .code h :: .code l :: r =>
    if 0xD800 ≤ h ∧ h ≤ 0xDBFF then
      if 0xDC00 ≤ l ∧ l ≤ 0xDFFF then
        (charsOfUnits r).map (Char.ofNat (0x10000 + (h - 0xD800) * 0x400 + (l - 0xDC00)) :: ·)
      else none
    else if 0xDC00 ≤ h ∧ h ≤ 0xDFFF then none
    else (charsOfUnits (.code l :: r)).map (Char.ofNat h :: ·)
  | .code h :: r =>
    if 0xD800 ≤ h ∧ h ≤ 0xDFFF then none else (charsOfUnits r).map (Char.ofNat h :: ·)

/-- Reads a string behind its opening quote: its content, if it has one, and the text behind it. -/
def readQuoted (cs : List Char) : Option (Option String × List Char) :=
  (stringUnits cs).map fun p => ((charsOfUnits p.1).map String.ofList, p.2)

def digitsOf (cs : List Char) : List Nat × List Char :=
  ((cs.takeWhile Char.isDigit).map fun c => c.toNat - 48, cs.dropWhile Char.isDigit)

/-- The number that digits write. -/
def ofDigits (ds : List Nat) : Nat := ds.foldl (fun n d => 10 * n + d) 0

/-- Reads an exponent, if there is one. -/
def readExponent : List Char → Option (Option Int × List Char)
  | c :: r =>
    if c = 'e' ∨ c = 'E' then
      let (negative, r) := match r with
        | '-' :: r => (true, r)
        | '+' :: r => (false, r)
        | r => (false, r)
      match digitsOf r with
      | ([], _) => none
      | (ds, r) => some (some (if negative then -(ofDigits ds : Int) else ofDigits ds), r)
    else some (none, c :: r)
  | [] => some (none, [])

/-- Reads a number without its sign. A zero in front stands alone. -/
def readUnsigned (negative : Bool) (cs : List Char) : Option (Numeral × List Char) :=
  match digitsOf cs with
  | ([], _) => none
  | (0 :: _ :: _, _) => none
  | (whole, '.' :: r) =>
    match digitsOf r with
    | ([], _) => none
    | (fraction, r) =>
      (readExponent r).map fun p => (⟨negative, whole, some (fraction, p.1.getD 0)⟩, p.2)
  | (whole, r) => (readExponent r).map fun p => (⟨negative, whole, p.1.map ([], ·)⟩, p.2)

def readNumeral : List Char → Option (Numeral × List Char)
  | '-' :: r => readUnsigned true r
  | r => readUnsigned false r

mutual

/-- Reads one value and answers the text behind it. -/
def readNode : Nat → List Char → Node × List Char
  | 0, cs => (.broken, cs)
  | fuel + 1, cs =>
    match skipGap cs with
    | [] => (.broken, [])
    | 'n' :: 'u' :: 'l' :: 'l' :: r => (.null, r)
    | 't' :: 'r' :: 'u' :: 'e' :: r => (.bool true, r)
    | 'f' :: 'a' :: 'l' :: 's' :: 'e' :: r => (.bool false, r)
    | '"' :: r =>
      match readQuoted r with
      | some (content, r) => (.string content, r)
      | none => (.broken, r)
    | '[' :: r =>
      match skipGap r with
      | ']' :: r => (.array [] true, r)
      | r => let p := readElements fuel r; (.array p.1 p.2.1, p.2.2)
    | '\x7b' :: r =>
      match skipGap r with
      | '\x7d' :: r => (.object [] true, r)
      | r => let p := readMembers fuel r; (.object p.1 p.2.1, p.2.2)
    | cs =>
      match readNumeral cs with
      | some (n, r) => (.number n, r)
      | none => (.broken, cs)

/-- Reads an element of an array and those behind it; says whether the array ends properly. -/
def readElements : Nat → List Char → List Node × Bool × List Char
  | 0, cs => ([], false, cs)
  | fuel + 1, cs =>
    let (n, r) := readNode fuel cs
    if n.isIntact then
      match skipGap r with
      | ',' :: r => let p := readElements fuel r; (n :: p.1, p.2)
      | ']' :: r => ([n], true, r)
      | r => ([n], false, r)
    else ([n], false, r)

/-- Reads a member of an object and those behind it; says whether the object ends properly. A key that
is no string breaks the text, but is kept. -/
def readMembers : Nat → List Char → List (Node × Node) × Bool × List Char
  | 0, cs => ([], false, cs)
  | fuel + 1, cs =>
    match readNode fuel cs with
    | (.string key, r) =>
      match skipGap r with
      | ':' :: r =>
        let (n, r) := readNode fuel r
        if n.isIntact then
          match skipGap r with
          | ',' :: r => let p := readMembers fuel r; ((.string key, n) :: p.1, p.2)
          | '\x7d' :: r => ([(.string key, n)], true, r)
          | r => ([(.string key, n)], false, r)
        else ([(.string key, n)], false, r)
      | r => ([(.string key, .broken)], false, r)
    | (n, r) => ([(n, .broken)], false, r)

end

/-- A text as a document: its value, and whether nothing but gaps follows it. -/
structure Document where
  root : Node
  ends : Bool
  deriving Repr

/-- Each value takes at least one character, and is reached by at most two calls. -/
def Document.ofText (text : String) : Document :=
  let cs := text.toList
  let p := readNode (2 * cs.length + 2) cs
  ⟨p.1, (skipGap p.2).isEmpty⟩

end WorkWaves.Json
