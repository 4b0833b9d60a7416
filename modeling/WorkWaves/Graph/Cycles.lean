import WorkWaves.Graph.Basic

/-!
# Dependency cycles

A depth-first walk along blockers, from every item in the order of ids. Meeting an item that is on the path
just walked closes a cycle, which is reported as the part of the path from that item on.
-/

namespace WorkWaves.Graph

/-- What a walk has found: the items it is finished with and the cycles it closed. -/
structure Walk where
  finished : List String := []
  cycles : List (List String) := []
  deriving Repr

/-- The cycle that a path closes by coming back to `id`; the path has its last item first. -/
def closing (path : List String) (id : String) : List String :=
  (path.takeWhile (· != id) ++ [id]).reverse ++ [id]

/-- Walks on from `id`, with the items in `path` behind it. A path repeats no item, so as many steps as
there are items suffice. -/
def visit (g : Graph) : Nat → List String → String → Walk → Walk
  | 0, _, _, w => w
  | fuel + 1, path, id, w =>
    let path := id :: path
    let w := (g.blockersOf id).toList.foldl (fun w b =>
      if !g.contains b then w
      else if path.contains b then { w with cycles := w.cycles ++ [closing path b] }
      else if w.finished.contains b then w
      else visit g fuel path b w) w
    { w with finished := id :: w.finished }

/-- All cycles that the walk closes. -/
def cycles (g : Graph) : List (List String) :=
  let roots := (StringSet.ofList g.ids).toList
  let walk := roots.foldl (fun (w : Walk) id =>
    if w.finished.contains id then w else visit g (g.size + 1) [] id w) {}
  walk.cycles

/-- Refuses a graph with a cycle. -/
def validate (g : Graph) : Except GraphError Unit :=
  if g.cycles.isEmpty then .ok () else .error (.circular g.cycles)

end WorkWaves.Graph
