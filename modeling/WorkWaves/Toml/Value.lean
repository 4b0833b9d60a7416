/-!
# TOML values and how a document builds them

A document is a table that grows by its headers and assignments. How a table came about decides what may
still be added to it: `Table.define`, `Table.extend` and `Table.assign` refuse whatever would define something
twice.
-/

namespace WorkWaves

/-- How a table came about. -/
inductive TableOrigin where
  /-- It lies on the way to a table that a header names. -/
  | implied
  /-- It lies on the way to a value that a dotted key names. -/
  | dotted
  /-- A header names it. -/
  | defined
  /-- It was written as a value, and is complete. -/
  | inline
  deriving DecidableEq, Repr

/-- A TOML value. Numbers with a point or an exponent are only known to be such. -/
inductive Toml where
  | string (s : String)
  | integer (n : Int)
  | float
  | boolean (b : Bool)
  | datetime (text : String)
  | array (elements : List Toml)
  | table (origin : TableOrigin) (entries : List (String × Toml))
  /-- Tables under one header with double brackets. -/
  | tables (elements : List (List (String × Toml)))
  deriving Repr, Inhabited

namespace Toml

abbrev Entries := List (String × Toml)

/-- Sets the value of a key, in its place or at the end. -/
def Entries.set (key : String) (v : Toml) : Entries → Entries
  | [] => [(key, v)]
  | e :: r => if e.1 = key then (key, v) :: r else e :: Entries.set key v r

/-- Goes down to the table that a header's path names and changes it there. A header goes through the
latest of several tables. -/
def alongHeader (change : Entries → Option Entries) : List String → Entries → Option Entries
  | [], t => change t
  | key :: path, t =>
    match t.lookup key with
    | none => (alongHeader change path []).map fun sub => Entries.set key (.table .implied sub) t
    | some (.table .inline _) => none
    | some (.table origin sub) =>
      (alongHeader change path sub).map fun sub => Entries.set key (.table origin sub) t
    | some (.tables subs) =>
      match subs.getLast? with
      | some sub =>
        (alongHeader change path sub).map fun sub => Entries.set key (.tables (subs.dropLast ++ [sub])) t
      | none => none
    | some _ => none

/-- Defines the table of a header. Only a table that was merely implied may be there. -/
def define (path : List String) (root : Entries) : Option Entries :=
  match path.getLast? with
  | none => none
  | some key =>
    alongHeader (fun t =>
      match t.lookup key with
      | none => some (Entries.set key (.table .defined []) t)
      | some (.table .implied sub) => some (Entries.set key (.table .defined sub) t)
      | some _ => none) path.dropLast root

/-- Adds a table under a header with double brackets. -/
def extend (path : List String) (root : Entries) : Option Entries :=
  match path.getLast? with
  | none => none
  | some key =>
    alongHeader (fun t =>
      match t.lookup key with
      | none => some (Entries.set key (.tables [[]]) t)
      | some (.tables subs) => some (Entries.set key (.tables (subs ++ [[]])) t)
      | some _ => none) path.dropLast root

/-- Assigns a value to a key, dotted perhaps, of a table of the given origin. A dotted key leads through tables
that dotted keys made or that are merely implied, and through the latest of several tables; its last table has
to be one that a dotted key made. -/
def assign (origin : TableOrigin) (v : Toml) : List String → Entries → Option Entries
  | [], _ => none
  | [key], t =>
    if (t.lookup key).isSome || origin = .implied then none else some (Entries.set key v t)
  | key :: path, t =>
    match t.lookup key with
    | none => (assign .dotted v path []).map fun sub => Entries.set key (.table .dotted sub) t
    | some (.table .dotted sub) =>
      (assign .dotted v path sub).map fun sub => Entries.set key (.table .dotted sub) t
    | some (.table .implied sub) =>
      (assign .implied v path sub).map fun sub => Entries.set key (.table .implied sub) t
    | some (.tables subs) =>
      match subs.getLast? with
      | some sub =>
        (assign .implied v path sub).map fun sub => Entries.set key (.tables (subs.dropLast ++ [sub])) t
      | none => none
    | some _ => none

/-- Assigns a value to a key in the table that a header names. -/
def assignUnder (header path : List String) (v : Toml) (root : Entries) : Option Entries :=
  alongHeader (assign .defined v path) header root

end Toml

end WorkWaves
