import Mathlib.Logic.Function.Basic
import Mathlib.Logic.Relation
import WorkWaves.Files.Tree

/-!
# Disks

What calls meet on a medium. Places bear directories, files and links: a file can be at more than one place, and a link
stands for a path, which a walk goes on along. A call may be refused, and then it may have got part of the way; only
moving a file is done as a whole or not at all. `Disk.During` says what a disk can be in the course of a call, and
`Disk.Ends` what it can be when the call has been answered.
-/

namespace WorkWaves

/-- What a place of a disk bears. -/
inductive Node where
  | directory
  /-- A file, by its number. Places that bear one number bear one file. -/
  | file (number : Nat)
  /-- A link, by the path that it stands for. -/
  | link (path : String)
  deriving DecidableEq, Repr

/-- The number of a file. -/
def Node.number? : Node → Option Nat
  | .file number => some number
  | _ => none

/-- Places with what they bear, and the texts of the files. -/
structure Disk where
  node? : Place → Option Node
  text : Nat → String
  /-- The working directory. -/
  here : Place
  root : node? [] = some .directory
  /-- What is borne lies in a directory. -/
  rooted : ∀ p s, node? (p ++ [s]) ≠ none → node? p = some .directory
  settled : node? here = some .directory

namespace Disk

/-- Goes on from a directory by one component. -/
def step (d : Disk) (p : Place) (c : Component) : Except FileFault Place :=
  match d.node? p with
  | none => .error .notFound
  | some .directory =>
    match c with
    | .root => .ok []
    | .here => .ok p
    | .up => .ok p.dropLast
    | .name s => if s.utf8ByteSize ≤ FileTree.longestName then .ok (p ++ [s]) else .error .nameTooLong
  | some _ => .error .notDirectory

/-- How a walk goes on at a link: a path that ends in a slash has to lead to a directory. -/
def turns (path : String) : List Component :=
  Path.components path ++ if FileTree.asksForDirectory path then [.here] else []

/-- Goes from a place along components. At a link, `follow` goes on along the path that it stands for and what is left;
at the end of the components a link is followed if `last` says so. Tells how many more links could be followed. -/
def walkOn (d : Disk) (last : Bool) (links : Nat)
    (follow : Place → List Component → Except FileFault (Place × Nat)) :
    Place → List Component → Except FileFault (Place × Nat)
  | p, [] => .ok (p, links)
  | p, c :: cs =>
    match d.step p c with
    | .error e => .error e
    | .ok q =>
      match d.node? q with
      | some (.link path) => if cs.isEmpty && !last then .ok (q, links) else follow p (turns path ++ cs)
      | _ => walkOn d last links follow q cs

/-- Goes from a place along components, through so many links at most. -/
def walk (d : Disk) (last : Bool) : Nat → Place → List Component → Except FileFault (Place × Nat)
  | 0 => walkOn d last 0 fun _ _ => .error .tooManyLinks
  | links + 1 => walkOn d last (links + 1) (walk d last links)

/-- How many links a walk can go through. -/
def maxLinks : Nat := 40

/-- The place that a path leads to, where it need not bear anything. A link at its end is followed if `last` says so. -/
def locate (d : Disk) (last : Bool) (path : String) : Except FileFault Place :=
  if path.isEmpty then .error .notFound
  else
    match FileTree.pathFault? path with
    | some e => .error e
    | none =>
      match d.walk last maxLinks d.here (Path.components path) with
      | .error e => .error e
      | .ok (q, _) =>
        match d.node? q with
        | some (.file _) => if FileTree.asksForDirectory path then .error .notDirectory else .ok q
        | _ => .ok q

def read (d : Disk) (path : String) : Except FileFault String :=
  match d.locate true path with
  | .error e => .error e
  | .ok q =>
    match d.node? q with
    | some (.file number) => .ok (d.text number)
    | some .directory => .error .isDirectory
    | some (.link _) => .error .tooManyLinks
    | none => .error .notFound

/-- The disk where a place bears something else, or nothing any more. -/
def alter (d : Disk) (q : Place) (n : Option Node) (hq : d.node? q ≠ some .directory)
    (hn : n ≠ none → d.node? q.dropLast = some .directory) : Disk where
  node? := Function.update d.node? q n
  text := d.text
  here := d.here
  root := by
    rw [Function.update_of_ne, d.root]
    rintro rfl
    exact hq d.root
  rooted p s hs := by
    have hp : d.node? p = some .directory := by
      by_cases he : p ++ [s] = q
      · subst he
        rw [Function.update_self] at hs
        simpa using hn hs
      · rw [Function.update_of_ne he] at hs
        exact d.rooted p s hs
    rw [Function.update_of_ne, hp]
    rintro rfl
    exact hq hp
  settled := by
    rw [Function.update_of_ne, d.settled]
    rintro rfl
    exact hq d.settled

/-- The disk where a file has another text. -/
def fill (d : Disk) (number : Nat) (text : String) : Disk := { d with text := Function.update d.text number text }

/-! ### Calls -/

/-- A place bears something else, or nothing any more. -/
structure Alters (q : Place) (n : Option Node) (d d' : Disk) : Prop where
  node : d'.node? = Function.update d.node? q n
  text : d'.text = d.text
  here : d'.here = d.here

/-- A file has another text. -/
structure Fills (number : Nat) (text : String) (d d' : Disk) : Prop where
  node : d'.node? = d.node?
  text : d'.text = Function.update d.text number text
  here : d'.here = d.here

/-- A directory is made where some part of a path leads and where nothing is. -/
def Makes (path : String) (d d' : Disk) : Prop :=
  ∃ n q links, d.walk false maxLinks d.here ((Path.components path).take n) = .ok (q, links) ∧ d.node? q = none ∧
    Alters q (some .directory) d d'

/-- A file has another text, or a file with that text is now where nothing was. -/
def Puts (path text : String) (d d' : Disk) : Prop :=
  ∃ q number, d.locate true path = .ok q ∧
    (d.node? q = some (.file number) ∧ Fills number text d d' ∨
      d.node? q = none ∧ (∀ p, d.node? p ≠ some (.file number)) ∧
        d'.node? = Function.update d.node? q (some (.file number)) ∧
        d'.text = Function.update d.text number text ∧ d'.here = d.here)

/-- What is no directory is at another place now, and what was there is not, unless both are one file. -/
def Moves (source target : String) (d d' : Disk) : Prop :=
  ∃ a b n, d.locate false source = .ok a ∧ d.locate false target = .ok b ∧
    FileTree.asksForDirectory target = false ∧ d.node? a = some n ∧ n ≠ .directory ∧ d.node? b ≠ some .directory ∧
    ((∃ number, n = .file number ∧ d.node? b = some (.file number) ∧ d' = d) ∨
      (∀ number, n = .file number → d.node? b ≠ some (.file number)) ∧
        d'.node? = Function.update (Function.update d.node? a none) b (some n) ∧
        d'.text = d.text ∧ d'.here = d.here)

def Removes (path : String) (d d' : Disk) : Prop :=
  ∃ q n, d.locate false path = .ok q ∧ d.node? q = some n ∧ n ≠ .directory ∧ Alters q none d d'

/-- What a disk can be in the course of a call. -/
def During : FileCall → Disk → Disk → Prop
  | .makeDirectories path, d, d' => Relation.ReflTransGen (Makes path) d d'
  | .create path, d, d' => d' = d ∨ Puts path "" d d'
  | .write path _, d, d' => d' = d ∨ ∃ text, Puts path text d d'
  | .sync _, d, d' => d' = d
  | .rename source target, d, d' => d' = d ∨ Moves source target d d'
  | .removeFile path, d, d' => d' = d ∨ Removes path d d'

/-- How a call can be answered, and what the disk is then. A file whose move is refused was not moved. -/
def Ends : (c : FileCall) → Disk → c.Answer → Disk → Prop
  | .makeDirectories path, d, .ok (), d' => Relation.ReflTransGen (Makes path) d d' ∧
      ∃ q links, d'.walk true maxLinks d'.here (Path.components path) = .ok (q, links) ∧ d'.node? q = some .directory
  | .create path, d, .ok (), d' => Puts path "" d d'
  | .write path text, d, .ok (), d' => Puts path text d d'
  | .sync _, d, .ok (), d' => d' = d
  | .rename source target, d, .ok (), d' => Moves source target d d'
  | .removeFile path, d, .ok (), d' => Removes path d d'
  | .rename _ _, d, .error _, d' => d' = d
  | c, d, .error _, d' => During c d d'

end Disk

end WorkWaves
