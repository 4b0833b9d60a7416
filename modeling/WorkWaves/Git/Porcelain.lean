import WorkWaves.Merge.Exclusions
import WorkWaves.Text.Scan

/-!
# The status of tracked files

Git lists files that differ from the last commit as records that end with the character of code zero: two
characters for what happened, a blank and a path. Behind a renamed or copied file its source follows as a
record of its own.
-/

namespace WorkWaves.Git.Porcelain

/-- Splits a list of characters behind a number of bytes; nothing if a character lies across. -/
def splitBytes (n : Nat) : List Char → Option (List Char × List Char)
  | [] => if n = 0 then some ([], []) else none
  | c :: r =>
    if n = 0 then some ([], c :: r)
    else if c.utf8Size ≤ n then (splitBytes (n - c.utf8Size) r).map fun p => (c :: p.1, p.2)
    else none

/-- The code of a record and its path. -/
def codeAndPath? (record : List Char) : Option (List Char × List Char) := do
  let (code, _) ← splitBytes 2 record
  let (_, path) ← splitBytes 3 record
  return (code, path)

/-- Whether a record with a code is followed by its source. -/
def hasSource (code : List Char) : Bool := code.contains 'R' || code.contains 'C'

/-- Whether a code is that of a file which is not tracked. -/
def isUntracked (code : List Char) : Bool := code == ['?', '?'] || code == ['!', '!']

/-- What a code says happened to a file, which came from a source if it was renamed. -/
def change (code : List Char) (source : String) : Change :=
  if code.contains 'R' then .renamed source
  else if code.contains 'C' then .added
  else if code.contains 'D' then .deleted
  else if code.head? == some 'A' then .added
  else .modified

/-- The files that records tell of. A record that is too short is passed over. -/
def ofRecords : List (List Char) → List DirtyFile
  | [] => []
  | record :: rest =>
    match codeAndPath? record with
    | none => ofRecords rest
    | some (code, path) =>
      if isUntracked code then ofRecords rest
      else if hasSource code then
        match rest with
        | [] => [⟨String.ofList path, change code ""⟩]
        | source :: rest => ⟨String.ofList path, change code (String.ofList source)⟩ :: ofRecords rest
      else ⟨String.ofList path, change code ""⟩ :: ofRecords rest

/-- The files that a listing tells of. -/
def files (listing : String) : List DirtyFile :=
  ofRecords ((Text.splitAt (· == '\x00') listing.toList).filter fun r => !r.isEmpty)

end WorkWaves.Git.Porcelain
