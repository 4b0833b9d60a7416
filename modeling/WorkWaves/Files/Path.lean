import WorkWaves.Text.Scan

/-!
# Paths

Paths are kept as they are written. Their components leave out what does not count: empty parts, and `.`
except at the very start of a relative path.
-/

namespace WorkWaves

/-- A part of a path. -/
inductive Component where
  | root
  | here
  | up
  | name (s : String)
  deriving DecidableEq, Repr

namespace Path

def isAbsolute (p : String) : Bool := p.toList.head? == some '/'

/-- A part between slashes, by its text. -/
def component? (part : List Char) : Option Component :=
  if part = [] ∨ part = ['.'] then none
  else if part = ['.', '.'] then some .up
  else some (.name (String.ofList part))

/-- The components of a path. -/
def components (p : String) : List Component :=
  let parts := Text.splitAt (· == '/') p.toList
  let start := match parts with
    | [] :: _ :: _ => [Component.root]
    | ['.'] :: _ => [Component.here]
    | _ => []
  start ++ parts.filterMap component?

/-- The path reached from `a` by `b`: `b` itself if it is absolute. -/
def join (a b : String) : String :=
  if isAbsolute b then b
  else match a.toList.getLast? with
    | none | some '/' => a ++ b
    | _ => a ++ "/" ++ b

/-- What is left of a reversed path when the parts that are no components are taken off its front. -/
def trimReversed : List Char → List Char
  | '/' :: c :: r => trimReversed (c :: r)
  | '.' :: '/' :: [] => ['/']
  | '.' :: '/' :: c :: r => trimReversed (c :: r)
  | r => r

/-- The last component, if it is a name. -/
def fileName? (p : String) : Option String :=
  match (components p).getLast? with
  | some (.name s) => some s
  | _ => none

/-- The path without its last component. -/
def parent? (p : String) : Option String :=
  match (components p).getLast? with
  | none | some .root => none
  | some _ =>
    let front := (trimReversed p.toList.reverse).dropWhile (· != '/')
    match trimReversed front with
    | ['/'] => some (if isAbsolute p then "/" else "")
    | r => some (String.ofList r.reverse)

/-- The file name up to its last point; a point at its start does not count. -/
def fileStem? (p : String) : Option String :=
  (fileName? p).map fun name =>
    match Text.splitLast (· == '.') name.toList with
    | some (front, _) => if front.isEmpty then name else String.ofList front
    | none => name

/-- The path with another file name. -/
def withFileName (p name : String) : String :=
  match fileName? p with
  | some _ => join ((parent? p).getD "") name
  | none => join p name

/-- The components left of a path below a root; nothing if it is not below it. -/
def below? (root p : String) : Option (List Component) :=
  let rs := components root
  let cs := components p
  if rs.isPrefixOf cs then some (cs.drop rs.length) else none

/-- The names among components. -/
def names (cs : List Component) : List String :=
  cs.filterMap fun
    | .name s => some s
    | _ => none

/-- Whether a path is a directory or lies somewhere in it. -/
def isWithin (path dir : String) : Bool :=
  path == dir || (dir.toList ++ ['/']).isPrefixOf path.toList

/-- A path is a directory or lies somewhere in it. -/
def Within (path dir : String) : Prop := path = dir ∨ ∃ rest, path = dir ++ "/" ++ rest

theorem isWithin_iff {path dir : String} : isWithin path dir = true ↔ Within path dir := by
  unfold isWithin Within
  rw [Bool.or_eq_true, beq_iff_eq, List.isPrefixOf_iff_prefix]
  refine or_congr_right ⟨?_, ?_⟩
  · rintro ⟨rest, h⟩
    refine ⟨String.ofList rest, String.ext_iff.mpr ?_⟩
    simp [← h]
  · rintro ⟨rest, rfl⟩
    exact ⟨rest.toList, by simp⟩

/-- A path that starts at the home directory with a tilde, written out. -/
def expandHome (home : Option String) (p : String) : String :=
  match home, p.toList with
  | some home, ['~'] => home
  | some home, '~' :: '/' :: r => home ++ "/" ++ String.ofList r
  | _, _ => p

end Path

end WorkWaves
