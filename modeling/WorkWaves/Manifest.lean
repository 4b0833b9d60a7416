import WorkWaves.Item

/-!
# Manifests

What is handed in: the items, and the ids that were completed before. Main functions: `Manifest.ofText`,
and `Manifest.knownIds`, every id that the manifest mentions.
-/

namespace WorkWaves

/-- The work to be planned. -/
structure Manifest where
  items : List Item := []
  completed : List String := []
  deriving DecidableEq, Repr

namespace Manifest

/-- The fields of a manifest read so far. -/
structure Parts where
  items : Option (List Item) := none
  completed : Option (List String) := none

def fields : List (Json.Read.Field Parts) :=
  [⟨"items", false, (·.items.isSome),
     fun n p => (Json.Read.list Item.read n).map fun v => { p with items := v }⟩,
   ⟨"completed", false, (·.completed.isSome),
     fun n p => (Json.Read.list Json.Read.string n).map fun v => { p with completed := v }⟩]

def read : Json.Read Manifest := fun n =>
  (Json.Read.record "ItemManifest" fields {} n).map fun p => ⟨p.items.getD [], p.completed.getD []⟩

/-- Reads a manifest from its text. -/
def ofText (text : String) : Except Json.Fault Manifest := Json.readText read text

def toJson (m : Manifest) : Json :=
  .obj [("items", .arr (m.items.map Item.toJson)), ("completed", .strs m.completed)]

/-- Every id mentioned anywhere in the manifest. -/
def knownIds (m : Manifest) : StringSet :=
  .ofList (m.items.flatMap (fun i => i.id :: (i.blockedBy.toList ++ i.blocks.toList)) ++ m.completed)

end Manifest

end WorkWaves
