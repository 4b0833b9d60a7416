import WorkWaves.Fixer
import WorkWaves.Git.Repository
import WorkWaves.Git.Worktree
import WorkWaves.Render
import WorkWaves.State.Store

/-!
# What a run is equipped with

A context is the settings together with the repository that they are meant for: it says where configured paths
lead to, and equips runs, if it is known how.
-/

namespace WorkWaves

variable {μ : Type}

/-- Those who do the work of a run. -/
structure Services where
  fixer : Fixer
  repository : Git.Repository
  worktrees : Git.Worktrees
  exclusions : Exclusions
  renderer : Renderer
  deriving DecidableEq, Repr

namespace Services

/-- The services for a repository. -/
def ofRepository (s : Settings) (home : Option String) (ascii : Bool) (r : Git.Repository) : Services where
  fixer := .ofSettings home s.fixer
  repository := r
  worktrees := ⟨r.root, .ofRepository r.root s.workspace.root s.workspace.branchPrefix⟩
  exclusions := .ofSettings r.root s
  renderer := .ofSettings s.output ascii

/-- The services for the repository that a directory lies in. -/
def build (ascii : Bool) (s : Settings) (directory : String) : Task μ Failure Services := do
  let r ← ExceptT.adapt Failure.ofGit (Git.Repository.containing directory)
  return ofRepository s (← get).home? ascii r

end Services

/-- Settings, the directory at the top of the repository, and how runs are equipped. -/
structure Context (μ : Type) where
  settings : Settings
  root : String
  equip : Option (Settings → String → Task μ Failure Services) := none

namespace Context

/-- Where a configured path leads to. -/
def resolve (c : Context μ) (path : String) : String := Path.join c.root path

/-- Where the state is kept. -/
def store (c : Context μ) : StateStore := ⟨c.resolve c.settings.state.path⟩

/-- Equips a run. -/
def services (c : Context μ) : Task μ Failure Services :=
  match c.equip with
  | some equip => equip c.settings c.root
  | none => throw (.ofText "services_factory missing (cannot build plugins/services)")

end Context

end WorkWaves
