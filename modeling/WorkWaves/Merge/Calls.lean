import WorkWaves.Dialogue
import WorkWaves.Error
import WorkWaves.Logging.Record
import WorkWaves.Merge.Exclusions

/-!
# What a merge asks of the repository

The calls on the shared repository with the type of each answer. Every call may fail; what a call does is the
repository's affair.
-/

namespace WorkWaves

/-- How a merge ends that the repository carried out. -/
inductive MergeAttempt where
  | merged
  | conflict (files : List String)
  deriving DecidableEq, Repr

/-- The calls on the shared repository. -/
inductive RepositoryCall where
  | head
  /-- The tracked files with changes. -/
  | dirtyFiles
  /-- Which paths exist at this moment. -/
  | existing
  /-- Put the changes of just these paths aside. -/
  | stashPush (paths : List String) (message : String)
  | stashPop
  | merge (branch message : String)
  | abort
  /-- Go back to a commit and drop all changes. -/
  | resetHard (rev : String)
  /-- Go back to a commit and keep the changes of files that it does not touch. -/
  | resetMerge (rev : String)
  deriving DecidableEq, Repr

def RepositoryCall.Answer : RepositoryCall → Type
  | .head => Except Failure String
  | .dirtyFiles => Except Failure (List DirtyFile)
  | .existing => String → Bool
  | .merge _ _ => Except Failure MergeAttempt
  | .stashPush _ _ | .stashPop | .abort | .resetHard _ | .resetMerge _ => Except Failure Unit

/-- What a merge asks: for the lock on the repository, whether to stop, for calls on the repository, and to
write down what it does. -/
inductive MergeCall where
  | lock
  | unlock
  | interrupted
  | repository (c : RepositoryCall)
  | write (r : LogRecord)
  deriving DecidableEq, Repr

def MergeCall.Answer : MergeCall → Type
  | .lock | .unlock | .write _ => Unit
  | .interrupted => Bool
  | .repository c => c.Answer

end WorkWaves
