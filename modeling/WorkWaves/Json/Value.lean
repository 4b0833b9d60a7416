/-!
# JSON values and their text

The values this library writes, and the two ways it writes them: on one line, or spread over lines with
two blanks of indentation. Members keep the order in which they are given.
-/

namespace WorkWaves

/-- A JSON value. All numbers written are integers. -/
inductive Json where
  | null
  | bool (b : Bool)
  | int (n : Int)
  | str (s : String)
  | arr (elements : List Json)
  | obj (members : List (String × Json))
  deriving Repr, Inhabited

namespace Json

def nat (n : Nat) : Json := .int n

def strs (l : List String) : Json := .arr (l.map .str)

/-- A hexadecimal digit in lower case. -/
def hexDigit (n : Nat) : Char :=
  if n < 10 then Char.ofNat (48 + n) else Char.ofNat (87 + n)

/-- A character as it stands in a quoted string: only quotes, backslashes and controls are escaped. -/
def escapeChar (c : Char) : List Char :=
  if c = '"' then ['\\', '"']
  else if c = '\\' then ['\\', '\\']
  else if c = '\x08' then ['\\', 'b']
  else if c = '\t' then ['\\', 't']
  else if c = '\n' then ['\\', 'n']
  else if c = '\x0c' then ['\\', 'f']
  else if c = '\r' then ['\\', 'r']
  else if c.toNat < 32 then
    ['\\', 'u', '0', '0', hexDigit (c.toNat / 16), hexDigit (c.toNat % 16)]
  else [c]

def quote (s : String) : List Char :=
  '"' :: (s.toList.flatMap escapeChar ++ ['"'])

def digits (n : Int) : List Char := (toString n).toList

mutual

/-- The text of a value on one line, without blanks. -/
def compactChars : Json → List Char
  | .null => ['n', 'u', 'l', 'l']
  | .bool true => ['t', 'r', 'u', 'e']
  | .bool false => ['f', 'a', 'l', 's', 'e']
  | .int n => digits n
  | .str s => quote s
  | .arr [] => ['[', ']']
  | .arr (v :: r) => '[' :: (compactChars v ++ compactElements r)
  | .obj [] => ['\x7b', '\x7d']
  | .obj ((k, v) :: r) => '\x7b' :: (quote k ++ ':' :: (compactChars v ++ compactMembers r))

/-- The further elements of an array, and its end. -/
def compactElements : List Json → List Char
  | [] => [']']
  | v :: r => ',' :: (compactChars v ++ compactElements r)

/-- The further members of an object, and its end. -/
def compactMembers : List (String × Json) → List Char
  | [] => ['\x7d']
  | (k, v) :: r => ',' :: (quote k ++ ':' :: (compactChars v ++ compactMembers r))

end

/-- The start of a line at a depth of nesting. -/
def newline (depth : Nat) : List Char := '\n' :: List.replicate (2 * depth) ' '

mutual

/-- The text of a value spread over lines, for a value that stands at the given depth. -/
def prettyChars (depth : Nat) : Json → List Char
  | .arr (v :: r) =>
    '[' :: (newline (depth + 1) ++ prettyChars (depth + 1) v ++ prettyElements depth r)
  | .obj ((k, v) :: r) =>
    '\x7b' :: (newline (depth + 1) ++ quote k ++ ':' :: ' ' :: (prettyChars (depth + 1) v ++
      prettyMembers depth r))
  | .arr [] => ['[', ']']
  | .obj [] => ['\x7b', '\x7d']
  | .null => ['n', 'u', 'l', 'l']
  | .bool true => ['t', 'r', 'u', 'e']
  | .bool false => ['f', 'a', 'l', 's', 'e']
  | .int n => digits n
  | .str s => quote s

/-- The further elements of an array that stands at the given depth, and its end. -/
def prettyElements (depth : Nat) : List Json → List Char
  | [] => newline depth ++ [']']
  | v :: r => ',' :: (newline (depth + 1) ++ prettyChars (depth + 1) v ++ prettyElements depth r)

/-- The further members of an object that stands at the given depth, and its end. -/
def prettyMembers (depth : Nat) : List (String × Json) → List Char
  | [] => newline depth ++ ['\x7d']
  | (k, v) :: r =>
    ',' :: (newline (depth + 1) ++ quote k ++ ':' :: ' ' :: (prettyChars (depth + 1) v ++
      prettyMembers depth r))

end

/-- A value on one line. -/
def compact (v : Json) : String := String.ofList v.compactChars

/-- A value over several lines. -/
def pretty (v : Json) : String := String.ofList (v.prettyChars 0)

mutual

/-- Orders the members of every object by key. -/
def sortKeys : Json → Json
  | .arr l => .arr (sortElements l)
  | .obj l => .obj ((sortMembers l).mergeSort fun a b => a.1 ≤ b.1)
  | v => v

def sortElements : List Json → List Json
  | [] => []
  | v :: r => sortKeys v :: sortElements r

def sortMembers : List (String × Json) → List (String × Json)
  | [] => []
  | (k, v) :: r => (k, sortKeys v) :: sortMembers r

end

end Json

end WorkWaves
