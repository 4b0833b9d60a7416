import WorkWaves.Error.Json
import WorkWaves.Main
import WorkWaves.Merge.Json
import WorkWaves.Proofs.Merge.AllOrNothing
import WorkWaves.Proofs.Merge.Stash
import WorkWaves.Proofs.Graph.Refusal
import WorkWaves.Proofs.Plan
import WorkWaves.Proofs.Run.Pool
import WorkWaves.Proofs.Run.State
import WorkWaves.Rehearsal.Record
import WorkWaves.Run.Collaborators
import WorkWaves.Settings.Json
import WorkWaves.Proofs.Run.Wave
import WorkWaves.Proofs.Run.Between
import WorkWaves.Proofs.Run.Safety
import WorkWaves.Proofs.Run.Fate
import WorkWaves.Proofs.Run.Kept
import WorkWaves.Proofs.Run.Errands
import WorkWaves.Proofs.Separation
import WorkWaves.Proofs.State.Text
import WorkWaves.Proofs.State.Store
import WorkWaves.Proofs.State.Crash
import WorkWaves.Proofs.State.Forward
import WorkWaves.Proofs.Run.Attempts
import WorkWaves.Proofs.Merge.Interleaving
import WorkWaves.Proofs.Run.Snapshots
import WorkWaves.Proofs.Git.Isolation
import WorkWaves.Proofs.Cli.Agreement
import WorkWaves.Proofs.Contention
import WorkWaves.Proofs.Graph.Adjacency
import WorkWaves.Proofs.Graph.Bare
import WorkWaves.Proofs.Presentation
import WorkWaves.Proofs.Run.Diary
import WorkWaves.Proofs.Run.Endings
import WorkWaves.Proofs.Run.Duties
import WorkWaves.Proofs.Run.Admission
import WorkWaves.Proofs.Run.Interrupt
import WorkWaves.Proofs.Run.Story
import WorkWaves.Proofs.Overlap
import WorkWaves.Proofs.Merge.Edits
import WorkWaves.Proofs.Graph.Knots
import WorkWaves.Proofs.Graph.Reasons
import WorkWaves.Proofs.Graph.Progress
import WorkWaves.Proofs.FirstFit
import WorkWaves.Proofs.Archive
import WorkWaves.Proofs.Merge.Exclusions
import WorkWaves.Proofs.Git.Porcelain
import WorkWaves.Proofs.Placeholders
import WorkWaves.Proofs.Hints.Directories
import WorkWaves.Proofs.Git.Clearing
import WorkWaves.Proofs.Manifest
