import WorkWaves.Cli.Arguments

/-!
# Help on the command line

A page of help says what a command is for, how it is written, and what may stand in it. What may stand
somewhere is listed in two columns: its form, and its purpose.
-/

namespace WorkWaves

/-- Something that may stand on a command line, and what it is for. -/
structure HelpEntry where
  form : String
  purpose : String := ""
  deriving DecidableEq, Repr

/-- The entries of one kind. -/
structure HelpSection where
  heading : String
  entries : List HelpEntry
  deriving DecidableEq, Repr

/-- A page of help. -/
structure HelpPage where
  about : Option String := none
  usage : String
  sections : List HelpSection
  deriving DecidableEq, Repr

namespace HelpSection

/-- The width of the widest form. -/
def width (s : HelpSection) : Nat := s.entries.foldl (fun w e => max w e.form.length) 0

/-- The second column starts two blanks behind the widest form, also where no purpose stands in it. -/
def line (s : HelpSection) (e : HelpEntry) : String :=
  "  " ++ e.form ++ String.ofList (List.replicate (s.width + 2 - e.form.length) ' ') ++ e.purpose

def lines (s : HelpSection) : List String := (s.heading ++ ":") :: s.entries.map s.line

end HelpSection

namespace HelpPage

/-- The text of a page: an empty line stands between its parts. -/
def text (p : HelpPage) : String :=
  "\n".intercalate <|
    (p.about.toList.flatMap fun a => [a, ""]) ++ ("Usage: " ++ p.usage) ::
      p.sections.flatMap fun s => "" :: s.lines

/-- An option that has no letter. -/
def long (form : String) (purpose : String := "") : HelpEntry := ⟨"    " ++ form, purpose⟩

def config : HelpEntry :=
  long "--config <CONFIG>" "Configuration file; overrides ./wavesmith.toml and ~/.wavesmith/config.toml"

def items : HelpEntry := long "--items <ITEMS>" "JSON manifest of work items"

def repo : HelpEntry := long "--repo <REPO>" "Shared repository; defaults to the current directory"

def help : HelpEntry := ⟨"-h, --help", "Print help"⟩

def version : HelpEntry := ⟨"-V, --version", "Print version"⟩

/-- What is said of `plan`. -/
def aboutPlan : String := "Print the wave plan without executing anything"

/-- What is said of `resume`. -/
def aboutResume : String := "Continue from the persisted execution state"

/-- What is said of the command that tells about commands. -/
def aboutHelp : String := "Print this message or the help of the given subcommand(s)"

def ofProgram : HelpPage where
  about := some "Dependency-aware parallel issue execution"
  usage := "wavesmith [OPTIONS] <COMMAND>"
  sections :=
    [⟨"Commands", [⟨"plan", aboutPlan⟩, ⟨"run", ""⟩, ⟨"resume", aboutResume⟩, ⟨"help", aboutHelp⟩]⟩,
      ⟨"Options", [config, help, version]⟩]

def ofPlan : HelpPage where
  about := some aboutPlan
  usage := "wavesmith plan [OPTIONS] --items <ITEMS>"
  sections := [⟨"Options", [config, items, repo, help]⟩]

/-- The page of a command that runs a plan. -/
def ofRun (name : String) (about : Option String) : HelpPage where
  about := about
  usage := "wavesmith " ++ name ++ " [OPTIONS] --items <ITEMS>"
  sections :=
    [⟨"Options", [config, items, long "--max-workers <MAX_WORKERS>",
      long "--timeout <TIMEOUT>" "Per-item time budget in seconds", repo, long "--no-progress", help]⟩]

def ofHelp : HelpPage where
  about := some aboutHelp
  usage := "wavesmith help [COMMAND]..."
  sections := [⟨"Arguments", [⟨"[COMMAND]...", "Print help for the subcommand(s)"⟩]⟩]

/-- The page on a topic. -/
def ofTopic : HelpTopic → HelpPage
  | .program => ofProgram
  | .plan => ofPlan
  | .run => ofRun "run" none
  | .resume => ofRun "resume" (some aboutResume)
  | .help => ofHelp

end HelpPage

end WorkWaves
