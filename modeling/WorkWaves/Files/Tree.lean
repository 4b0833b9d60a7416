import WorkWaves.Files.Path

/-!
# A tree of files

Directories and text files by their place, which is the list of names from the root. Operations take paths,
which start at the root or at the working directory, and every directory on the way has to exist. A tree has no
links: a file is at one place only, and no name stands for a path.
-/

namespace WorkWaves

/-- Where something is: the names from the root down to it. -/
abbrev Place := List String

/-- What can be at a place. -/
inductive FileEntry where
  | directory
  | file (text : String)
  deriving DecidableEq, Repr

/-- Why an operation on files fails. -/
inductive FileFault where
  | notFound
  | notDirectory
  | isDirectory
  | exists
  | denied
  | nameTooLong
  | tooManyLinks
  /-- A path, or another text that is handed on, holds the character with the code zero. -/
  | invalidText
  deriving DecidableEq, Repr

/-- The wording of the operating system. -/
def FileFault.message : FileFault → String
  | .notFound => "No such file or directory (os error 2)"
  | .exists => "File exists (os error 17)"
  | .notDirectory => "Not a directory (os error 20)"
  | .isDirectory => "Is a directory (os error 21)"
  | .denied => "Permission denied (os error 13)"
  | .nameTooLong => "File name too long (os error 36)"
  | .tooManyLinks => "Too many levels of symbolic links (os error 40)"
  | .invalidText => "nul byte found in provided data"

/-- Files and directories. The root is always there. -/
structure FileTree where
  entries : List (Place × FileEntry) := []
  /-- The working directory. -/
  here : Place := []
  deriving Repr

namespace FileTree

def entry? (t : FileTree) (place : Place) : Option FileEntry :=
  if place = [] then some .directory else t.entries.lookup place

def isDirectoryAt (t : FileTree) (place : Place) : Bool := t.entry? place == some .directory

def put (t : FileTree) (place : Place) (e : FileEntry) : FileTree :=
  { t with entries := (place, e) :: t.entries.filter (·.1 != place) }

/-- Takes away a place and all that lies below it. -/
def remove (t : FileTree) (place : Place) : FileTree :=
  { t with entries := t.entries.filter fun e => !place.isPrefixOf e.1 }

/-- How many bytes a name can have. -/
def longestName : Nat := 255

/-- Goes on from a directory by one component. -/
def step (t : FileTree) (place : Place) (c : Component) : Except FileFault Place :=
  match t.entry? place with
  | none => .error .notFound
  | some (.file _) => .error .notDirectory
  | some .directory =>
    match c with
    | .root => .ok []
    | .here => .ok place
    | .up => .ok place.dropLast
    | .name s => if s.utf8ByteSize ≤ longestName then .ok (place ++ [s]) else .error .nameTooLong

/-- Whether a path can only be that of a directory. -/
def asksForDirectory (path : String) : Bool :=
  match path.toList.reverse with
  | '/' :: _ | '.' :: '/' :: _ => true
  | _ => false

/-- Whether a path holds the character with the code zero, which ends a text for the operating system. -/
def isInvalid (path : String) : Bool := path.toList.contains '\x00'

/-- How many bytes a path can have. -/
def longestPath : Nat := 4095

/-- What is wrong with a path by itself. -/
def pathFault? (path : String) : Option FileFault :=
  if isInvalid path then some .invalidText
  else if longestPath < path.utf8ByteSize then some .nameTooLong
  else none

/-- The place that a path leads to; there need not be anything. -/
def locate (t : FileTree) (path : String) : Except FileFault Place := do
  if path.isEmpty then .error .notFound
  if let some e := pathFault? path then .error e
  let place ← (Path.components path).foldlM t.step t.here
  match t.entry? place with
  | some (.file _) => if asksForDirectory path then .error .notDirectory else .ok place
  | _ => .ok place

def find? (t : FileTree) (path : String) : Option FileEntry :=
  match t.locate path with
  | .ok place => t.entry? place
  | .error _ => none

def pathExists (t : FileTree) (path : String) : Bool := (t.find? path).isSome

def isDirectory (t : FileTree) (path : String) : Bool := t.find? path == some .directory

def read (t : FileTree) (path : String) : Except FileFault String := do
  match t.entry? (← t.locate path) with
  | some (.file text) => .ok text
  | some .directory => .error .isDirectory
  | none => .error .notFound

/-- The place of a directory. -/
def directory (t : FileTree) (path : String) : Except FileFault Place := do
  let place ← t.locate path
  match t.entry? place with
  | some .directory => .ok place
  | some (.file _) => .error .notDirectory
  | none => .error .notFound

/-- The names in a directory, with what bears them. -/
def list (t : FileTree) (path : String) : Except FileFault (List (String × FileEntry)) := do
  let place ← t.directory path
  return t.entries.filterMap fun e =>
    if e.1.dropLast == place then e.1.getLast?.map (·, e.2) else none

/-- Makes a file or replaces its text; its directory has to exist. -/
def write (t : FileTree) (path text : String) : Except FileFault FileTree := do
  let place ← t.locate path
  if asksForDirectory path then .error .isDirectory
  match t.entry? place with
  | some .directory => .error .isDirectory
  | _ =>
    if t.isDirectoryAt place.dropLast then .ok (t.put place (.file text)) else .error .notFound

/-- Makes the directories that the components lead through. -/
def makeAlong (t : FileTree) (place : Place) : List Component → FileTree × Except FileFault Unit
  | [] => (t, .ok ())
  | c :: r =>
    match t.step place c with
    | .error e => (t, .error e)
    | .ok next =>
      match t.entry? next with
      | some .directory => makeAlong t next r
      | some (.file _) => (t, .error (if r.isEmpty then .exists else .notDirectory))
      | none => makeAlong (t.put next .directory) next r

/-- Whether the last part of a path is a point, which names a directory that has to be there. -/
def endsInPoint (path : String) : Bool :=
  ((Text.splitAt (· == '/') path.toList).filter (· ≠ [])).getLast? == some ['.']

/-- Makes a directory and those above it that are missing. What was made before a failure stays. -/
def makeDirectories (t : FileTree) (path : String) : FileTree × Except FileFault Unit :=
  match pathFault? path with
  | some e => (t, .error e)
  | none =>
    if endsInPoint path then
      match t.makeAlong t.here (Path.components path).dropLast with
      | (t, .ok ()) => (t, (t.directory path).map fun _ => ())
      | failed => failed
    else t.makeAlong t.here (Path.components path)

/-- Moves a file to another path, over a file that may be there. -/
def rename (t : FileTree) (source target : String) : Except FileFault FileTree := do
  let a ← t.locate source
  let b ← t.locate target
  match t.entry? a, t.entry? b with
  | none, _ => .error .notFound
  | some .directory, _ | _, some .directory => .error .isDirectory
  | some (.file text), _ =>
    if asksForDirectory target then .error .notDirectory
    else if t.isDirectoryAt b.dropLast then .ok ((t.remove a).put b (.file text))
    else .error .notFound

/-- Takes away a file, if there is one. -/
def removeFile (t : FileTree) (path : String) : FileTree :=
  match t.locate path with
  | .ok place =>
    match t.entry? place with
    | some (.file _) => t.remove place
    | _ => t
  | .error _ => t

/-- Takes away a directory with all that lies in it. -/
def removeDirectory (t : FileTree) (path : String) : Except FileFault FileTree :=
  (t.directory path).map t.remove

/-- The path of a place from the root. -/
def pathOf (place : Place) : String := "/" ++ "/".intercalate place

end FileTree

/-! ### Calls -/

/-- What a program asks for when it keeps a file. -/
inductive FileCall where
  /-- Makes a directory and those above it that are missing. -/
  | makeDirectories (path : String)
  /-- Opens a file for writing: makes it, or takes its text away. -/
  | create (path : String)
  /-- Writes a text into the file that was opened. -/
  | write (path text : String)
  /-- Waits until the file that was opened has come to the medium. -/
  | sync (path : String)
  | rename (source target : String)
  | removeFile (path : String)
  deriving DecidableEq, Repr

/-- Every call is done or refused. -/
abbrev FileCall.Answer (_ : FileCall) : Type := Except FileFault Unit

namespace FileTree

/-- What comes of an operation: another tree, or a fault, and the tree is as before. -/
def settle (t : FileTree) : Except FileFault FileTree → Except FileFault Unit × FileTree
  | .ok t' => (.ok (), t')
  | .error e => (.error e, t)

/-- What a tree answers to a call, and what it is then. -/
def answer (t : FileTree) : (c : FileCall) → c.Answer × FileTree
  | .makeDirectories path => (t.makeDirectories path).swap
  | .create path => t.settle (t.write path "")
  | .write path text => t.settle (t.write path text)
  | .sync _ => (.ok (), t)
  | .rename source target => t.settle (t.rename source target)
  | .removeFile path => ((t.read path).map fun _ => (), t.removeFile path)

theorem settle_eq_ok {t t' : FileTree} {r : Except FileFault FileTree} (h : t.settle r = (.ok (), t')) :
    r = .ok t' := by
  cases r with
  | ok t'' => exact congrArg Except.ok (congrArg Prod.snd h)
  | error e => cases h

end FileTree

end WorkWaves
