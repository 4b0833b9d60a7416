import WorkWaves.Machine
import WorkWaves.Run.Worker
import WorkWaves.Text.Replace

/-!
# The fixer

The program that does the work on an item. It is started in the workspace of the item, with arguments in which
placeholders stand for what belongs to the item.
-/

namespace WorkWaves

variable {μ : Type}

/-- How the fixer is started. -/
structure Fixer where
  command : String
  args : List String
  env : StringMap String := ∅
  deriving DecidableEq, Repr

namespace Fixer

/-- The fixer that settings name; its path may begin with a tilde. -/
def ofSettings (home : Option String) (s : FixerSettings) : Fixer :=
  ⟨Path.expandHome home s.command, s.args, s.env⟩

/-- The placeholders with what stands for them, in the order in which they are replaced. -/
def placeholders (q : FixRequest) : List (String × String) :=
  [("\x7bitem_id\x7d", q.itemId), ("\x7btitle\x7d", q.title.getD q.itemId),
    ("\x7bdescription\x7d", q.description), ("\x7bworkspace\x7d", q.workspace)]

/-- An argument for an item: one placeholder after the other is replaced in the whole text. -/
def argument (q : FixRequest) (template : String) : String :=
  (placeholders q).foldl (fun text p => Text.replace p.1 p.2 text) template

/-- How the fixer is started for an item. -/
def invocation (f : Fixer) (q : FixRequest) : Invocation where
  program := f.command
  args := f.args.map (argument q)
  directory := q.workspace
  env := (f.env.insert "WAVESMITH_ITEM_ID" q.itemId).insert "WAVESMITH_WORKSPACE" q.workspace

/-- How many of the last lines are kept. -/
def tailLines : Nat := 40

/-- What is kept of how the fixer ended. -/
def result (p : ProcessEnd) : FixResult :=
  ⟨p.code.getD (-1), Text.lastLines tailLines p.stdoutText, Text.lastLines tailLines p.stderrText⟩

/-- Has the fixer work on an item. -/
def fix (f : Fixer) (q : FixRequest) (m : Machine μ) : Except Failure FixResult × Machine μ :=
  let call := f.invocation q
  let m := m.log .debug .fixer "Starting fixer"
    [("item_id", .text q.itemId), ("cmd", .text f.command), ("args", .text (" ".intercalate call.args))]
  match m.launch call with
  | (.ok p, m) => (.ok (result p), m)
  | (.error fault, m) =>
    (.error ((Failure.ofText fault.message).within ("failed to spawn fixer '" ++ f.command ++ "'")), m)

end Fixer

end WorkWaves
