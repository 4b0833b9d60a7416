import WorkWaves.StringSet
import WorkWaves.Files.Path

/-!
# Hints and their overlap

The files and directories that an item is expected to touch. Two items overlap when they name one file, or
when something that one names lies in a directory that the other names.
-/

namespace WorkWaves

/-- What an item is expected to touch. -/
structure Hints where
  files : StringSet := ∅
  directories : StringSet := ∅
  deriving DecidableEq, Repr

namespace Hints

def isEmpty (h : Hints) : Bool := h.files.isEmpty && h.directories.isEmpty

def addFile (h : Hints) (path : String) : Hints := { h with files := h.files.insert path }

def addDirectory (h : Hints) (path : String) : Hints :=
  { h with directories := h.directories.insert path }

/-- Whether one of the directories covers, or lies in, something that the other side names. -/
def directoriesHit (dirs : StringSet) (other : Hints) : Bool :=
  dirs.any fun dir =>
    other.files.any (Path.isWithin · dir) ||
      other.directories.any fun d => Path.isWithin d dir || Path.isWithin dir d

/-- Whether two items are expected to touch the same paths. -/
def overlaps (a b : Hints) : Bool :=
  !(a.files ∩ b.files).isEmpty || directoriesHit a.directories b || directoriesHit b.directories a

/-- Of two directories the one that covers the other, if one does. -/
def outer? (a b : String) : Option String :=
  if Path.isWithin a b then some b else if Path.isWithin b a then some a else none

/-- The files that lie in one of some directories. -/
def filesWithin (files dirs : StringSet) : StringSet :=
  files.filter fun f => dirs.any (Path.isWithin f)

/-- The paths over which two items overlap: files named twice, the outer one of nested directories, and
files in a directory of the other side. -/
def sharedPaths (a b : Hints) : StringSet :=
  (a.files ∩ b.files) ∪
    .ofList (a.directories.toList.flatMap fun da => b.directories.toList.filterMap (outer? da)) ∪
    filesWithin a.files b.directories ∪ filesWithin b.files a.directories

end Hints

end WorkWaves
