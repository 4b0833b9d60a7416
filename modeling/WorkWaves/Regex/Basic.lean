import WorkWaves.Text.Alphanumeric
import WorkWaves.Text.Blank

/-!
# Regular expressions

Sets of characters, and expressions over them. A search goes through a text once and keeps the expressions
that may still go on, in the order of preference: earlier starts, first alternatives and longer greedy
repetitions come first. Once one of them can end, those behind it are given up.
-/

namespace WorkWaves

/-- A set of characters. -/
inductive CharSet where
  | range (low high : Char)
  | word
  | digit
  | blank
  | letter
  | number
  | union (a b : CharSet)
  | inter (a b : CharSet)
  | compl (a : CharSet)
  /-- The characters of a set in letters of any case. -/
  | folded (a : CharSet)
  deriving DecidableEq, Repr

namespace CharSet

/-- The other characters that differ from one in case alone. -/
def variants (c : Char) : List Char :=
  let others := if c = '\u017F' then ['s', 'S'] else if c = '\u212A' then ['k', 'K']
    else if c.toLower = 's' then ['\u017F'] else if c.toLower = 'k' then ['\u212A'] else []
  c.toLower :: c.toUpper :: others

def contains : CharSet → Char → Bool
  | range low high, c => low ≤ c && c ≤ high
  | word, c => Text.isWordChar c
  | digit, c => Text.isDecimalDigit c
  | blank, c => Text.isBlank c
  | letter, c => Text.isAlphabetic c
  | number, c => Text.isAlphanumeric c && !Text.isAlphabetic c
  | union a b, c => a.contains c || b.contains c
  | inter a b, c => a.contains c && b.contains c
  | compl a, c => !a.contains c
  | folded a, c => a.contains c || (variants c).any fun d => a.contains d

def single (c : Char) : CharSet := range c c

def all : CharSet := range '\x00' (Char.ofNat 0x10FFFF)

def empty : CharSet := compl all

def ofRanges (rs : List (Char × Char)) : CharSet := rs.foldl (fun s r => union s (range r.1 r.2)) empty

/-- Those of a set that are not in another. -/
def diff (a b : CharSet) : CharSet := inter a (compl b)

/-- Those in just one of two sets. -/
def symmDiff (a b : CharSet) : CharSet := union (diff a b) (diff b a)

/-- Whether a set leaves out all characters beyond ASCII that fit into a byte. -/
def isAscii (s : CharSet) : Bool := (List.range 128).all fun n => !s.contains (Char.ofNat (n + 128))

end CharSet

/-- What may have to hold between two characters. -/
inductive Assertion where
  | textStart
  | textEnd
  | lineStart
  | lineEnd
  /-- A word begins or ends. The words of assertions are of ASCII characters. -/
  | wordEdge
  | noWordEdge
  | wordStart
  | wordEnd
  deriving DecidableEq, Repr

namespace Assertion

def isAsciiWord (c : Char) : Bool := c.isAlphanum || c == '_'

/-- Whether an assertion holds between two characters, or at an end of the text. -/
def holds (before after : Option Char) : Assertion → Bool
  | textStart => before.isNone
  | textEnd => after.isNone
  | lineStart => before.isNone || before == some '\n'
  | lineEnd => after.isNone || after == some '\n'
  | wordEdge => before.any isAsciiWord != after.any isAsciiWord
  | noWordEdge => before.any isAsciiWord == after.any isAsciiWord
  | wordStart => !before.any isAsciiWord && after.any isAsciiWord
  | wordEnd => before.any isAsciiWord && !after.any isAsciiWord

end Assertion

/-- A regular expression. -/
inductive Regex where
  | empty
  | char (s : CharSet)
  | look (a : Assertion)
  | seq (a b : Regex)
  /-- The first is preferred. -/
  | alt (a b : Regex)
  | star (greedy : Bool) (a : Regex)
  deriving DecidableEq, Repr

namespace Regex

/-- An expression followed by another. -/
def andThen (a b : Regex) : Regex := if a = empty then b else seq a b

/-- An expression or nothing. -/
def optional (greedy : Bool) (a : Regex) : Regex := if greedy then alt a empty else alt empty a

/-- How an expression can begin, in the order of preference: with a character, and what has to follow it, or
by ending at once. -/
def heads (holds : Assertion → Bool) : Regex → List (Option (CharSet × Regex))
  | empty => [none]
  | char s => [some (s, empty)]
  | look a => if holds a then [none] else []
  | seq a b => (heads holds a).flatMap fun
    | none => heads holds b
    | some (s, r) => [some (s, r.andThen b)]
  | alt a b => heads holds a ++ heads holds b
  | star greedy a =>
    let once := (heads holds a).map fun h => h.map fun p => (p.1, p.2.andThen (star greedy a))
    if greedy then once ++ [none] else none :: once

/-- What stands before the first end, and whether there is an end. -/
def upToEnd {α : Type} : List (Option α) → List α × Bool
  | [] => ([], false)
  | none :: _ => ([], true)
  | some a :: r =>
    let (front, ends) := upToEnd r
    (a :: front, ends)

/-- Whether a search that has come to some expressions ends with the text. -/
def endsWithText : List Regex → Option Char → List Char → Bool
  | rs, before, [] => (upToEnd (rs.flatMap (heads (Assertion.holds before none)))).2
  | rs, before, c :: r =>
    let (front, _) := upToEnd (rs.flatMap (heads (Assertion.holds before (some c))))
    let next := front.filterMap fun p => if p.1.contains c then some p.2 else none
    endsWithText next.eraseDups (some c) r

/-- Whether the first find of an expression in a text goes on to the end of the text. -/
def matchesEnd (e : Regex) (text : String) : Bool :=
  endsWithText [seq (star false (char .all)) e] none text.toList

end Regex

end WorkWaves
