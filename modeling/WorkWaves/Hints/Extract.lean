import WorkWaves.Hints.Basic
import WorkWaves.Hints.Patterns
import WorkWaves.Item

/-!
# Hints of a description

`Hints.ofText` takes every path that a text names, brings it into one form and sorts it into files and
directories. `normalize` drops punctuation, line numbers and `./`, and refuses what is no plain path.
-/

namespace WorkWaves

namespace Hints

open WorkWaves.Text

def endsPhrase (c : Char) : Bool := ".,;)]\x7d\"'".toList.contains c

def startsPhrase (c : Char) : Bool := "([\x7b\"'".toList.contains c

/-- Whether a text is one or more decimal digits. -/
def isDigits (cs : List Char) : Bool := !cs.isEmpty && cs.all isDecimalDigit

/-- Whether a text is a line reference: `:12`, `:12:5`, `:3-9`, `#L3`, `#L3-9` or `#L3-L9`. -/
def isLineReference : List Char → Bool
  | ':' :: r => (splitAt (fun c => c == ':' || c == '-') r).all isDigits
  | '#' :: 'L' :: r =>
    match splitAt (· == '-') r with
    | [a] => isDigits a
    | [a, 'L' :: b] => isDigits a && isDigits b
    | [a, b] => isDigits a && isDigits b
    | _ => false
  | _ => false

/-- A text without the line reference at its end. -/
def dropLineReference : List Char → List Char
  | [] => []
  | c :: r => if isLineReference (c :: r) then [] else c :: dropLineReference r

/-- Whether a text names a place on the network. -/
def hasScheme : List Char → Bool
  | [] => false
  | c :: r => [':', '/', '/'].isPrefixOf (c :: r) || hasScheme r

def isPathChar (c : Char) : Bool := isNameChar c || c == '/'

/-- A path without any `./` at its start. -/
def dropHere : List Char → List Char
  | '.' :: '/' :: r => dropHere r
  | r => r

/-- The one form of a named path; nothing if it is no plain path. -/
def normalize (raw : List Char) : Option (List Char) :=
  let token := (dropEnd endsPhrase raw).dropWhile startsPhrase
  let path := dropLineReference token
  if hasScheme token || path.isEmpty || !path.all isPathChar then none
  else
    let path := dropHere path
    if path.all fun c => c == '.' || c == '/' then none else some path

/-- The extension of a file name; a name may start with its extension. -/
def extension? (name : List Char) : Option (List Char) :=
  match splitLast (· == '.') name with
  | some (_, ext) => if !ext.isEmpty && ext.all isExtensionChar then some ext else none
  | none => none

/-- The extensions by which a file name without a directory is known to be one. -/
def knownExtensions : List String :=
  ["c", "cc", "cfg", "cpp", "css", "go", "h", "hpp", "html", "ini", "java", "js", "json", "jsx",
   "kt", "lock", "md", "py", "rb", "rs", "scss", "sh", "sql", "svelte", "swift", "toml", "ts",
   "tsx", "txt", "vue", "yaml", "yml"]

/-- Adds a normal path. One that ends in a slash is a directory, one with an extension is a file if it has
a directory or a known extension; another one is a directory if `bareDirectories` says so. -/
def addPath (bareDirectories : Bool) (h : Hints) (path : List Char) : Hints :=
  match path.getLast? with
  | some '/' =>
    let dir := path.dropLast
    if dir.isEmpty then h else h.addDirectory (String.ofList dir)
  | _ =>
    let (hasParent, name) := match splitLast (· == '/') path with
      | some (_, name) => (true, name)
      | none => (false, path)
    match extension? name with
    | some ext =>
      if hasParent || knownExtensions.contains (String.ofList ext) then h.addFile (String.ofList path)
      else h
    | none =>
      if hasParent && bareDirectories then h.addDirectory (String.ofList path) else h

/-- Adds a path as a text names it. -/
def addNamed (bareDirectories : Bool) (h : Hints) (raw : List Char) : Hints :=
  match normalize raw with
  | some path => h.addPath bareDirectories path
  | none => h

/-- What a text says will be touched. -/
def ofText (text : String) : Hints :=
  let cs := text.toList
  let h := (codeSpans cs).foldl (addNamed true) {}
  let h := (marked cs).foldl (addNamed true) h
  (bareWords cs).foldl (addNamed false) h

end Hints

/-- What an item is expected to touch, by its description. -/
def Item.hints (i : Item) : Hints := Hints.ofText i.description

end WorkWaves
