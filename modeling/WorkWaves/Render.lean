import WorkWaves.Render.Text
import WorkWaves.Render.Record
import WorkWaves.Settings.Basic
import WorkWaves.Timestamp

/-!
# Renderers

What shows the events of a run, in one of the two formats.
-/

namespace WorkWaves

/-- What shows events. -/
inductive Renderer where
  | text (ascii : Bool)
  | jsonl (pretty : Bool)
  deriving DecidableEq, Repr

namespace Renderer

/-- The renderer that settings ask for. -/
def ofSettings (s : OutputSettings) (ascii : Bool) : Renderer :=
  match s.format with
  | .text => .text ascii
  | .jsonl => .jsonl s.prettyPrint

def name : Renderer → String
  | text _ => "text-renderer"
  | jsonl _ => "jsonl-renderer"

def format : Renderer → String
  | text _ => "text"
  | jsonl _ => "jsonl"

/-- How an event is shown, without the line end. -/
def render (r : Renderer) (now : Timestamp) (runId : String) (e : Event) : String :=
  match r with
  | text ascii => Render.text ascii runId e
  | jsonl pretty =>
    let j := Render.record now.text runId e
    if pretty then j.pretty else j.compact

end Renderer

end WorkWaves
