import WorkWaves.Error

/-!
# The collaborators of a run

A run cannot do without any of them but the one that shows events.
-/

namespace WorkWaves

/-- Those who take part in a run. -/
inductive Collaborator where
  | fixer
  | workspaceProvider
  | mergeCoordinator
  | stateStore
  | renderer
  deriving DecidableEq, Repr

namespace Collaborator

def text : Collaborator → String
  | fixer => "fixer"
  | workspaceProvider => "workspace provider"
  | mergeCoordinator => "merge coordinator"
  | stateStore => "state store"
  | renderer => "renderer"

/-- Those that a run cannot do without. -/
def needed : List Collaborator := [fixer, workspaceProvider, mergeCoordinator, stateStore]

/-- Refuses a run that lacks a needed collaborator. -/
def check (present : List Collaborator) : Except RunError Unit :=
  match needed.find? fun c => !present.contains c with
  | some c => .error (.workers ("orchestrator needs a " ++ c.text))
  | none => .ok ()

end Collaborator

end WorkWaves
