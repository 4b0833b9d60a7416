import WorkWaves.Files.Path

/-!
# Workspaces

Every item is worked on in a checkout of its own, with a branch of its own. Both are named after the item.
-/

namespace WorkWaves

/-- A checkout that belongs to one item. -/
structure Workspace where
  itemId : String
  branch : String
  path : String
  deriving DecidableEq, Repr

/-- How workspaces are named: the directory they lie in, and what their branches begin with. -/
structure WorkspaceNames where
  root : String
  branchPrefix : String
  deriving DecidableEq, Repr

namespace WorkspaceNames

/-- Whether a character of an id may stand in names. -/
def isPlain (c : Char) : Bool :=
  c.isAlphanum || c == '-' || c == '_' || c == '.'

/-- An id with a hyphen for every character that may not stand in names. -/
def sanitize (id : String) : String :=
  String.ofList (id.toList.map fun c => if isPlain c then c else '-')

/-- The names for workspaces of a repository; a relative directory lies in the repository. -/
def ofRepository (repository root branchPrefix : String) : WorkspaceNames :=
  ⟨Path.join repository root, branchPrefix⟩

def branchFor (n : WorkspaceNames) (id : String) : String := n.branchPrefix ++ "/" ++ sanitize id

def pathFor (n : WorkspaceNames) (id : String) : String := Path.join n.root (sanitize id)

end WorkspaceNames

end WorkWaves
