import WorkWaves.Hints.Extract
import WorkWaves.Graph.Waves

/-!
# Splitting waves over contended paths

Items of one wave that are expected to touch the same paths are put into different sub-waves. Each item
joins the first sub-wave that holds nothing it overlaps with; every sub-wave carries a note of the paths.
-/

namespace WorkWaves

/-- Why and how a wave was split. -/
structure ContentionNote where
  /-- The paths over which the wave was split, in order. -/
  contendedPaths : List String
  /-- The place of this sub-wave among those of its wave, counted from one. -/
  subWaveIndex : Nat
  totalSubWaves : Nat
  deriving DecidableEq, Repr

/-- A wave or a part of one; the waves of a plan are numbered anew. -/
structure RefinedWave where
  wave : Wave
  parentIndex : Nat
  note : Option ContentionNote := none
  deriving DecidableEq, Repr

namespace RefinedWave

def items (w : RefinedWave) : List Item := w.wave.items

def ids (w : RefinedWave) : List String := w.wave.ids

end RefinedWave

namespace Refine

variable (hintsOf : Item → Hints)

/-- The paths over which any two items of a list overlap. -/
def contended : List Item → StringSet
  | [] => ∅
  | a :: r =>
    r.foldl (fun s b =>
      if (hintsOf a).overlaps (hintsOf b) then s ∪ (hintsOf a).sharedPaths (hintsOf b) else s)
      (contended r)

/-- Puts an item into the first group that holds nothing it overlaps with, or into a new one. -/
def place (item : Item) : List (List Item) → List (List Item)
  | [] => [[item]]
  | group :: groups =>
    if group.all fun m => !(hintsOf m).overlaps (hintsOf item) then (group ++ [item]) :: groups
    else group :: place item groups

/-- Distributes items over groups, in their order. -/
def groups (items : List Item) : List (List Item) :=
  items.foldl (fun gs i => place hintsOf i gs) []

/-- The parts of a wave, numbered from `start` on. -/
def splitWave (start : Nat) (wave : Wave) : List RefinedWave :=
  let items := Item.inOrder wave.items
  let paths := contended hintsOf items
  if paths.isEmpty then [⟨⟨start, items⟩, wave.index, none⟩]
  else
    let gs := groups hintsOf items
    gs.mapIdx fun k g =>
      ⟨⟨start + k, g⟩, wave.index, some ⟨paths.toList, k + 1, gs.length⟩⟩

/-- The parts of some waves, numbered from `start` on. -/
def splitFrom (start : Nat) : List Wave → List RefinedWave
  | [] => []
  | wave :: waves =>
    let parts := splitWave hintsOf start wave
    parts ++ splitFrom (start + parts.length) waves

end Refine

/-- Splits waves by given hints; an item without any touches nothing. -/
def refineWith (hints : StringMap Hints) (waves : List Wave) : List RefinedWave :=
  Refine.splitFrom (fun i => (hints.get? i.id).getD {}) 0 waves

/-- Splits waves by what the descriptions of their items say; of several items with one id the last
speaks for all. -/
def refine (waves : List Wave) : List RefinedWave :=
  refineWith (.ofList (waves.flatMap fun w => w.items.map fun i => (i.id, i.hints))) waves

end WorkWaves
