import WorkWaves.Manifest
import WorkWaves.Files.Tree
import WorkWaves.Text.CharClass

/-!
# Archived items

A directory of finished items. The name of a file, without its extension, tells the item: the longest known
id that it equals or goes on from with a hyphen. A name that tells no known id may start like one: a word, a
hyphen and a number.
-/

namespace WorkWaves

namespace Archive

/-- Whether a name tells an id. -/
def tells (name id : String) : Bool :=
  name == id || (id.toList ++ ['-']).isPrefixOf name.toList

/-- The longer of two ids. -/
def longer (a b : String) : String := if a.utf8ByteSize ≤ b.utf8ByteSize then b else a

/-- The longest known id that a name tells. -/
def knownId? (known : List String) (name : String) : Option String :=
  match known.filter (tells name) with
  | [] => none
  | a :: r => some (r.foldl longer a)

/-- A word, a hyphen and a number at the front of a name. -/
def leadingId? (name : String) : Option String :=
  match name.toList with
  | [] => none
  | c :: r =>
    if !c.isAlpha then none
    else
      let word := r.takeWhile Char.isAlphanum
      match r.drop word.length with
      | '-' :: s =>
        let digits := s.takeWhile Text.isDecimalDigit
        if digits.isEmpty then none else some (String.ofList (c :: word ++ '-' :: digits))
      | _ => none

/-- The id that the name of an archived file tells. -/
def idOf? (known : List String) (name : String) : Option String := (knownId? known name).or (leadingId? name)

/-- The names of the files in a directory, without their extensions. -/
def stems (entries : List (String × FileEntry)) : List String :=
  entries.filterMap fun e =>
    match e.2 with
    | .file _ => Path.fileStem? e.1
    | .directory => none

/-- The ids that the files in a directory tell. -/
def told (known : List String) (entries : List (String × FileEntry)) : StringSet :=
  .ofList ((stems entries).filterMap (idOf? known))

/-- The ids that the files of a directory tell. A missing directory tells none. -/
def ids (files : FileTree) (dir : String) (known : StringSet) : Except FileFault StringSet :=
  match files.list dir with
  | .error .notFound => .ok ∅
  | .error e => .error e
  | .ok entries => .ok (told known.toList entries)

end Archive

/-- What is complete: what the manifest says and what a directory of finished items tells. -/
def Manifest.completedIds (m : Manifest) (files : FileTree) (archive : Option String) :
    Except FileFault StringSet :=
  match archive with
  | none => .ok (.ofList m.completed)
  | some dir => (Archive.ids files dir m.knownIds).map (.ofList m.completed ∪ ·)

end WorkWaves
