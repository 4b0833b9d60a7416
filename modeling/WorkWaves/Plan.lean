import WorkWaves.Refine

/-!
# Plans

All that a run has to know beforehand: the refined waves, the items that can never run, the orphans, what is
completed already, and what each item waits for.
-/

namespace WorkWaves

/-- What is to be run, in which order. -/
structure Plan where
  waves : List RefinedWave
  blocked : List BlockedItem
  orphans : List Orphan
  alreadyCompleted : List String
  /-- What each item waits for. -/
  blockers : StringMap (List String)
  deriving Repr

namespace Plan

/-- Plans what is not completed. A graph with any cycle is refused. -/
def build (g : Graph) (completed : StringSet) : Except GraphError Plan := do
  g.validate
  let waves ← g.waves completed
  return {
    waves := refine waves
    blocked := g.blocked completed
    orphans := g.orphans
    alreadyCompleted := g.ids.filter (g.isDone completed)
    blockers := .ofList (g.entries.map fun e => (e.1.id, e.2.toList)) }

/-- What an item waits for; nothing for an id that is no item. -/
def blockersOf (p : Plan) (id : String) : List String := (p.blockers.get? id).getD []

/-- The number of items in waves. -/
def scheduled (p : Plan) : Nat := p.waves.foldl (fun n w => n + w.items.length) 0

/-- The number of items in waves and of items that can never run. -/
def total (p : Plan) : Nat := p.scheduled + p.blocked.length

def isEmpty (p : Plan) : Bool := p.total == 0

/-- The items in waves and then those that can never run. -/
def ids (p : Plan) : List String := p.waves.flatMap RefinedWave.ids ++ p.blocked.map (·.itemId)

end Plan

/-! ### As JSON -/

def Wave.toJson (w : Wave) : Json :=
  .obj [("index", .nat w.index), ("items", .arr (w.items.map Item.toJson))]

def ContentionNote.toJson (n : ContentionNote) : Json :=
  .obj [("contended_paths", .strs n.contendedPaths), ("sub_wave_index", .nat n.subWaveIndex),
    ("total_sub_waves", .nat n.totalSubWaves)]

def RefinedWave.toJson (w : RefinedWave) : Json :=
  .obj ([("wave", w.wave.toJson), ("parent_index", .nat w.parentIndex)] ++
    match w.note with
    | some n => [("note", n.toJson)]
    | none => [])

def BlockedItem.toJson (b : BlockedItem) : Json :=
  .obj [("item_id", .str b.itemId), ("reason", .str b.reason.message)]

def Orphan.toJson (o : Orphan) : Json :=
  .obj [("item_id", .str o.itemId), ("blocker_id", .str o.blockerId)]

def Plan.toJson (p : Plan) : Json :=
  .obj [("waves", .arr (p.waves.map RefinedWave.toJson)),
    ("blocked", .arr (p.blocked.map BlockedItem.toJson)),
    ("unresolved", .arr (p.orphans.map Orphan.toJson)),
    ("already_completed", .strs p.alreadyCompleted)]

end WorkWaves
