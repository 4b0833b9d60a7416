import WorkWaves.Machine

/-!
# Calls of git

Git is called in a directory, and always answers in the same language and without asking back.
-/

namespace WorkWaves.Git

variable {μ : Type}

/-- The variables that make git answer so that it can be read. -/
def environment : Environment := .ofList [("LC_ALL", "C"), ("GIT_TERMINAL_PROMPT", "0")]

/-- The arguments as one text. -/
def line (args : List String) : String := " ".intercalate args

/-- Calls git, whatever it ends with. -/
def run (directory : String) (args : List String) : Task μ GitError ProcessEnd := do
  modify (Machine.log .debug .git "Running git command" [("args", .text (line args)), ("dir", .text directory)])
  let call : Invocation :=
    { program := "git", args := args, directory := directory, env := environment }
  match ← modifyGet (Machine.launch call) with
  | .error fault => throw (.spawn (line args) fault)
  | .ok p =>
    unless p.success do
      modify (Machine.log .warn .git "Git command failed"
        [("args", .text (line args)), ("stderr", .text (Text.trim p.stderrText))])
    return p

/-- The error that a call is which ended so. -/
def failure (args : String) (p : ProcessEnd) : GitError := .failed args p.code (Text.trim p.stderrText)

/-- Calls git, which has to end well. -/
def check (directory : String) (args : List String) : Task μ GitError ProcessEnd := do
  let p ← run directory args
  if p.success then return p else throw (failure (line args) p)

/-- What git says, without blanks at the ends. -/
def ask (directory : String) (args : List String) : Task μ GitError String := do
  return Text.trim (← check directory args).stdoutText

/-- Whether there is a branch of a name. -/
def branchExists (directory branch : String) : Task μ GitError Bool := do
  return (← run directory ["rev-parse", "--verify", "--quiet", "refs/heads/" ++ branch]).success

/-- Deletes a branch; tells whether that was possible. -/
def deleteBranch (directory branch : String) : Task μ GitError Bool := do
  return (← run directory ["branch", "-D", branch]).success

def currentBranch (directory : String) : Task μ GitError String :=
  ask directory ["rev-parse", "--abbrev-ref", "HEAD"]

end WorkWaves.Git
