import WorkWaves.Settings.Basic
import WorkWaves.Files.Path

/-!
# What a merge leaves alone

Local changes are put aside while a branch is merged, but not the changes of the program's own files: the
state file, the archive of finished items, state files of other programs and what is configured besides.
-/

namespace WorkWaves

/-- What was done to a tracked file since the last commit. -/
inductive Change where
  | modified
  | added
  | deleted
  | renamed (source : String)
  deriving DecidableEq, Repr

/-- A tracked file with changes that are not committed. Its path starts at the repository. -/
structure DirtyFile where
  path : String
  change : Change
  deriving DecidableEq, Repr

/-- The paths that have to be named to put the change aside. -/
def DirtyFile.paths (f : DirtyFile) : List String :=
  match f.change with
  | .renamed source => [source, f.path]
  | _ => [f.path]

/-- The paths whose changes are left alone. All start at the repository. -/
structure Exclusions where
  /-- The repository. -/
  root : String := ""
  stateFile : Option String := none
  archiveDir : Option String := none
  externalFiles : List String := []
  /-- Files and directories besides. -/
  extra : List String := []
  deriving DecidableEq, Repr

namespace Exclusions

/-- The names on a path, seen from the repository; nothing for a path outside it. -/
def relative (root path : String) : Option String :=
  let below := if Path.isAbsolute path then Path.below? root path else some (Path.components path)
  (below.map Path.names).bind fun names =>
    if names.isEmpty then none else some ("/".intercalate names)

def withStateFile (x : Exclusions) (path : String) : Exclusions :=
  { x with stateFile := relative x.root path }

def withArchiveDir (x : Exclusions) (path : String) : Exclusions :=
  { x with archiveDir := relative x.root path }

def withExternalFile (x : Exclusions) (path : String) : Exclusions :=
  { x with externalFiles := x.externalFiles ++ (relative x.root path).toList }

def withExtra (x : Exclusions) (path : String) : Exclusions :=
  { x with extra := x.extra ++ (relative x.root path).toList }

/-- The exclusions that settings give for a repository. -/
def ofSettings (root : String) (s : Settings) : Exclusions :=
  let x := ({ root := root : Exclusions }.withStateFile s.state.path).withArchiveDir s.merge.archiveDir
  s.merge.extraExclusions.foldl withExtra (s.merge.externalStateFiles.foldl withExternalFile x)

def inArchive (x : Exclusions) (path : String) : Bool :=
  x.archiveDir.any (Path.isWithin path)

/-- Whether the archive holds a file of that name. -/
def hasArchived (x : Exclusions) (present : String → Bool) (path : String) : Bool :=
  match x.archiveDir, Path.fileName? path with
  | some dir, some name => present (Path.join (Path.join x.root dir) name)
  | _, _ => false

/-- Whether a path is left alone whatever happened to the file. -/
def protects (x : Exclusions) (path : String) : Bool :=
  x.stateFile == some path || x.externalFiles.contains path || x.extra.any (Path.isWithin path) ||
    x.inArchive path

/-- Whether a change is left alone. A file that goes into the archive, or out of it, is on its way: its
name is there already, or its other end is. -/
def excludes (x : Exclusions) (present : String → Bool) (f : DirtyFile) : Bool :=
  x.protects f.path ||
    match f.change with
    | .renamed source => x.inArchive source
    | .deleted => x.hasArchived present f.path
    | .modified | .added => false

/-- The changes that are put aside. -/
def toStash (x : Exclusions) (present : String → Bool) (files : List DirtyFile) : List DirtyFile :=
  files.filter fun f => !x.excludes present f

/-- The paths that are named to put the changes aside. -/
def stashPaths (x : Exclusions) (present : String → Bool) (files : List DirtyFile) : List String :=
  (x.toStash present files).flatMap DirtyFile.paths

end Exclusions

end WorkWaves
