import WorkWaves.Error

/-!
# Errors as JSON

The members of an object that tells an error to a program: its kind, what it is about, and its wording where
that does not depend on the system.
-/

namespace WorkWaves

open Json (strs)

/-- The members for an error of a kind. -/
def errorMembers (kind : String) (rest : List (String × Json)) : List (String × Json) :=
  ("error", .str kind) :: rest

def GraphError.members (e : GraphError) : List (String × Json) :=
  (match e with
   | .duplicateId id => errorMembers "duplicate_item_id" [("id", .str id)]
   | .circular cycles => errorMembers "circular_dependency" [("cycles", .arr (cycles.map strs))]
   | .unschedulable ids => errorMembers "unschedulable" [("remaining", strs ids)]) ++
  [("message", .str e.message), ("members", strs e.cycleMembers.toList)]

def StateError.members : StateError → List (String × Json)
  | .write path _ => errorMembers "state_write" [("path", .str path)]
  | .read path _ => errorMembers "state_read" [("path", .str path)]
  | .corrupt path f => errorMembers "state_corrupt" [("path", .str path), ("message", .str f.message)]
  | .invalidMove m => errorMembers "invalid_transition" [("message", .str m.message)]

def GitError.members (e : GitError) : List (String × Json) :=
  match e with
  | .spawn _ _ => errorMembers "git_spawn" []
  | .failed _ _ stderr => errorMembers "git_failed" [("message", .str e.message), ("stderr", .str stderr)]
  | .notARepository _ => errorMembers "not_a_repository" [("message", .str e.message), ("stderr", .null)]

/-- A failure of a collaborator: the error of git that it is, or else the outermost wording. -/
def Failure.members (f : Failure) : List (String × Json) :=
  match f.git with
  | some e => e.members
  | none => errorMembers "failure" [("message", .str f.headline)]

/-- The member that tells an exit code. -/
def ExitCode.member (c : ExitCode) : String × Json := ("exit_code", .int c.toInt)

/-- The members of an error that ends a run, without its exit code. -/
def RunError.causeMembers (e : RunError) : List (String × Json) :=
  match e with
  | .graph e => e.members
  | .state e => e.members
  | .git e => e.members
  | .workers _ => errorMembers "runner" [("message", .str e.message)]

def RunError.members (e : RunError) : List (String × Json) := e.causeMembers ++ [e.exitCode.member]

def CommandError.members (e : CommandError) : List (String × Json) :=
  (match e with
   | .run e => e.causeMembers
   | .config _ => errorMembers "config" [("message", .str e.message)]
   | .input _ => errorMembers "input" [("message", .str e.message)]
   | .unreadable path _ => errorMembers "input" [("message", .str (unreadableManifest path))]
   | .io _ => errorMembers "io" []
   | .other _ => errorMembers "failure" [("message", .str e.message)]) ++ [e.exitCode.member]

end WorkWaves
