import WorkWaves.Cli.Planning
import WorkWaves.Run.Execution
import WorkWaves.Services

/-!
# Running from files

The commands `run` and `resume`: the repository is looked up, the plan is made as seen from its top, and the
plan is run with what the settings name.
-/

namespace WorkWaves

variable {μ : Type}

namespace Running

/-- What a worker has done for it. -/
def errand (v : Services) : (e : Errand) → Work μ e.Answer
  | .create id => (v.worktrees.create id).run
  | .commit w message => (v.worktrees.commit w message).run
  | .remove w => (v.worktrees.remove w).run
  | .repository w c => Machine.during (Merge.span w) (v.repository.answer c)

/-- Saves a state, and writes down that it is saved. -/
def save (store : StateStore) (state : RunState) (m : Machine μ) : Except StateError Unit × Machine μ :=
  let (files, saved) := store.save state m.files
  let m := { m with files := files }
  match saved with
  | .ok () => (.ok (), m.log .debug .state "Execution state saved"
      [("path", .text store.path), ("wave_index", .count state.waveIndex)])
  | .error e => (.error e, m)

/-- Has the fixer work on an item. The time that a program takes is not counted, but it is more than a budget
of nothing. -/
def fix (v : Services) (limits : RunLimits) (q : FixRequest) (m : Machine μ) :
    Timed (Except Failure FixResult) × Machine μ :=
  match v.fixer.fix q m with
  | (.ok r, m) => (⟨.ok r, if limits.budgetMs = 0 then 1 else 0⟩, m)
  | (.error e, m) => (⟨.error e, 0⟩, m)

/-- A machine with services is what a run takes place in. -/
def surroundings (v : Services) (store : StateStore) (limits : RunLimits) : Surroundings (Machine μ) where
  errand e m :=
    let (answer, m) := errand v e m
    (⟨answer, 0⟩, m)
  fix := fix v limits
  tell e m := m.show v.renderer e
  write r m := m.record r
  save := save store
  interrupted := (·.interrupted)
  elapsed := (·.elapsedMs)
  pass goal m := { m with elapsedMs := max goal m.elapsedMs }
  now := (·.now)

/-- Looks a repository up. -/
def repository (directory : String) : Task μ CommandError Git.Repository :=
  ExceptT.adapt (fun e => .run (.git e)) (Git.Repository.containing directory)

/-- Refuses a repository that is on another branch than the configured one. -/
def checkBranch (s : Settings) (r : Git.Repository) : Task μ CommandError Unit := do
  match s.merge.targetBranch with
  | none => return ()
  | some target =>
    let branch ← ExceptT.adapt (fun e => .run (.git e)) (Git.currentBranch r.root)
    unless branch = target do
      throw (.config ("shared repository is on '" ++ branch ++ "', expected target branch '" ++ target ++ "'"))

/-- The state from which a run goes on. -/
def state (store : StateStore) (resume : Bool) : Task μ CommandError RunState := fun m =>
  if resume then
    match store.load m.files with
    | .error e => (.error (.run (.state e)), m)
    | .ok none => (.ok (.new m.now), m)
    | .ok (some kept) =>
      let state := kept.beginAttempt m.now
      (.ok state, m.log .info .state "Resuming from persisted state"
        [("path", .text store.path), ("attempt", .count state.attempt),
          ("completed", .count state.counts.completed)])
  else (.ok (.new m.now), m)

/-- What is written down of a summary. -/
def fields (s : Summary) : LogFields :=
  [("run_id", .text s.runId), ("attempt", .count s.attempt), ("completed", .count s.counts.completed),
    ("failed", .count s.counts.failed), ("timeout", .count s.counts.timeout),
    ("skipped", .count s.counts.skipped), ("interrupted", .count s.counts.interrupted),
    ("pending", .count s.counts.pending)]

/-- Runs a plan, and tells what became of it. -/
def perform (order : RunOrder) (v : Services) (store : StateStore) (state : RunState) :
    Task μ CommandError ExitCode := fun m =>
  let (result, m) := Machine.during (order.span state) (fun m =>
    let result := order.run (surroundings v store order.limits) state m
    (result.summary, result.world)) m
  match result with
  | .error e => (.error (.run e), m)
  | .ok s =>
    let m := m.log .info .runCommand "Run summary" (fields s)
    let m := if s.interrupted then
      m.complain "Interrupted; continue with \x60wavesmith resume\x60."
      else m
    (.ok s.exitCode, m)

end Running

/-- The command as a piece of work. -/
def Running.span (resume : Bool) : LogSpan := ⟨"cli.run", .runCommand, [("resume", .flag resume)]⟩

/-- Carries out `run`, or `resume`. -/
def RunArguments.execute (a : RunArguments) (s : Settings) (ascii resume : Bool) :
    Task μ CommandError ExitCode := ExceptT.mk <| Machine.during (Running.span resume) <| ExceptT.run do
  let s := a.override s
  let r ← Running.repository (Planning.directory a.repo (← get))
  Running.checkBranch s r
  let context : Context μ := ⟨s, r.root, some (Services.build ascii)⟩
  let store := context.store
  let state ← Running.state store resume
  let plan ← Planning.make r.root s a.items state.completed
  let v ← ExceptT.adapt CommandError.other context.services
  let order : RunOrder := ⟨(← get).runId, plan, s.limits, v.exclusions⟩
  Running.perform order v store state

end WorkWaves
