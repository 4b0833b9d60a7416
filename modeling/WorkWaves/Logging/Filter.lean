import WorkWaves.Logging.Directive

/-!
# Filters on logging

A filter is a list of directives with commas between them. A record is written down if the directive that
decides over it admits it, or if one of the pieces of work that it is part of does. Of the directives on a
record that with the longest name decides, then one that asks for a field, and of several that ask for the
same the last; of those on a piece of work the widest counts.
-/

namespace WorkWaves

/-- What is written down. -/
abbrev LogFilter := List LogDirective

namespace LogFilter

/-- The words of a filter. -/
def words (s : String) : List (List Char) :=
  (Text.splitAt (· == ',') s.toList).filter fun w => !w.isEmpty

/-- Reads a filter; nothing if a word is no directive. -/
def ofText? (s : String) : Option LogFilter := (words s).mapM LogDirective.ofWord?

/-- Reads a filter from the words that are directives, and tells the others. A filter that says nothing wants
errors. -/
def ofDirectives (s : String) : LogFilter × List String :=
  let read := (words s).filterMap LogDirective.ofWord?
  let others := (words s).filter fun w => (LogDirective.ofWord? w).isNone
  (if read.isEmpty then [{ limit := some .error }] else read, others.map String.ofList)

/-- The directives without those that a later one replaces. -/
def latest : LogFilter → LogFilter
  | [] => []
  | d :: r => if r.any d.sameQuestion then latest r else d :: latest r

/-- The widest limit of some directives. -/
def widest (f : LogFilter) : LogLimit := f.foldl (fun l d => l.max d.limit) none

/-- The directive that decides over a record by itself. -/
def decisive? (f : LogFilter) (r : LogRecord) : Option LogDirective :=
  (f.filter (·.concerns r)).foldl
    (fun best d =>
      match best with
      | some b => if b.yieldsTo d then some d else best
      | none => some d)
    none

/-- Whether a filter asks for values of fields. -/
def asksForValues (f : LogFilter) : Bool := f.latest.any fun d => d.field.any (·.pattern.isSome)

/-- Whether attention is paid to pieces of work: if infos are wanted at all, or values have to be looked at. -/
def followsWork (f : LogFilter) : Bool := f.asksForValues || f.widest.admits .info

/-- What is wanted in the course of a piece of work; nothing if no directive speaks of it. -/
def spanLimit? (f : LogFilter) (s : LogSpan) : Option LogLimit :=
  match f.latest.filter (·.concernsSpan s) with
  | [] => none
  | ds => if f.followsWork then some (widest (ds.filter fun d => d.field.all (·.holds s.fields))) else none

/-- Whether a record is written down for the sake of the work that it is part of. -/
def admitsWork (f : LogFilter) (r : LogRecord) : Bool :=
  (widest (f.filter (·.isDynamic))).admits r.level &&
    r.spans.any fun s => (f.spanLimit? s).any (LogLimit.admits · r.level)

/-- Whether a record is written down. -/
def admits (f : LogFilter) (r : LogRecord) : Bool :=
  f.admitsWork r || (f.decisive? r).any fun d => LogLimit.admits d.limit r.level

end LogFilter

end WorkWaves
