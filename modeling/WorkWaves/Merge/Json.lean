import WorkWaves.Json.Value
import WorkWaves.Merge.Calls

/-!
# Changes and merges as JSON
-/

namespace WorkWaves

def Change.toJson : Change → Json
  | .modified => .obj [("kind", .str "modified")]
  | .added => .obj [("kind", .str "added")]
  | .deleted => .obj [("kind", .str "deleted")]
  | .renamed source => .obj [("kind", .str "renamed"), ("from", .str source)]

def DirtyFile.toJson (f : DirtyFile) : Json := .obj [("path", .str f.path), ("change", f.change.toJson)]

def MergeAttempt.toJson : MergeAttempt → Json
  | .merged => .str "merged"
  | .conflict files => .obj [("conflict", .strs files)]

end WorkWaves
