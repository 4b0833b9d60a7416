import WorkWaves.Item
import WorkWaves.StringMap

/-!
# The dependency graph

Items with what they wait for, and what waits for them. `buildIn` fills the tables of a graph one after the other: an
item waits for the ids in its own `blockedBy` and for every item that names it in `blocks`. An id that is neither an
item nor completed is an orphan: it is recorded, and the policy says whether anything waits for it. The tables are
hash maps, so their entries are gone through in an order that is not known (`Turns`).
-/

namespace WorkWaves

/-- What becomes of an id that is neither an item nor completed. -/
inductive OrphanPolicy where
  /-- Whatever waits for it never runs. -/
  | block
  /-- Nothing waits for it. -/
  | satisfy
  deriving DecidableEq, Repr, Inhabited

def OrphanPolicy.text : OrphanPolicy → String
  | .block => "block"
  | .satisfy => "satisfy"

/-- An item and an orphan that it waits for. -/
structure Orphan where
  itemId : String
  blockerId : String
  deriving DecidableEq, Repr

/-- Why items cannot be arranged. -/
inductive GraphError where
  | duplicateId (id : String)
  /-- Paths that start and end on one item, each step leading to something it waits for. -/
  | circular (cycles : List (List String))
  | unschedulable (remaining : List String)
  deriving DecidableEq, Repr

namespace GraphError

def message : GraphError → String
  | .duplicateId id => "duplicate work item id: " ++ id
  | .circular cycles =>
    "circular dependency detected: " ++ "; ".intercalate (cycles.map (" -> ".intercalate ·))
  | .unschedulable remaining =>
    toString remaining.length ++ " item(s) could not be scheduled: " ++ ", ".intercalate remaining

/-- Every id on a reported cycle. -/
def cycleMembers : GraphError → StringSet
  | .circular cycles => .ofList cycles.flatten
  | _ => ∅

end GraphError

/-- Whether an orphan stands at the place of another one or before it: by item and then by blocker. -/
def Orphan.atMost (o p : Orphan) : Bool :=
  o.itemId < p.itemId || (o.itemId == p.itemId && o.blockerId ≤ p.blockerId)

/-- The items of a plan and what they wait for. -/
structure Graph where
  /-- The items in the order in which they are taken up, each with the ids it waits for. -/
  entries : List (Item × StringSet)
  /-- Under an id, the items that wait for it. -/
  dependents : StringMap StringSet
  /-- The ids completed beforehand. -/
  external : StringSet
  orphans : List Orphan
  policy : OrphanPolicy
  deriving Repr

/-- The order in which the entries of a hash map are gone through: all come, each once. -/
structure Turns where
  of : {α : Type} → StringMap α → List (String × α)
  perm : ∀ {α : Type} (m : StringMap α), (of m).Perm m.entries

/-- The entries are gone through by their keys. -/
def Turns.byKey : Turns := ⟨fun m => m.entries, fun _ => .refl _⟩

namespace Graph

/-- Files items under their ids, up to the first one whose id is taken. -/
def file : List Item → StringMap Item → Except GraphError (StringMap Item)
  | [], arena => .ok arena
  | i :: rest, arena =>
    if arena.contains i.id then .error (.duplicateId i.id) else file rest (arena.insert i.id i)

/-- Has an item wait for `b`, if it is known. -/
def hold (b : String) (blockers : StringMap StringSet) (id : String) : StringMap StringSet :=
  match blockers.get? id with
  | some waits => blockers.insert id (waits.insert b)
  | none => blockers

/-- Has those wait for an item that it names in `blocks`. -/
def announce (blockers : StringMap StringSet) (i : Item) : StringMap StringSet :=
  i.blocks.toList.foldl (hold i.id) blockers

/-- Records an orphan that an item waits for; under a policy that lets it through, it is taken off the list. -/
def record (policy : OrphanPolicy) (id : String) (s : StringSet × List Orphan) (b : String) : StringSet × List Orphan :=
  (match policy with
   | .block => s.1
   | .satisfy => s.1.erase b, s.2 ++ [⟨id, b⟩])

/-- Records the orphans that an item waits for. -/
def sift (isOrphan : String → Bool) (policy : OrphanPolicy) (s : StringMap StringSet × List Orphan)
    (e : String × StringSet) : StringMap StringSet × List Orphan :=
  let r := (e.2.filter isOrphan).toList.foldl (record policy e.1) (e.2, s.2)
  (s.1.insert e.1 r.1, r.2)

/-- Enters an item as a dependent of `b`. -/
def enter (id : String) (dependents : StringMap StringSet) (b : String) : StringMap StringSet :=
  dependents.insert b ((dependents.setAt b).insert id)

/-- Enters an item as a dependent of all that it waits for. -/
def turnRound (dependents : StringMap StringSet) (e : String × StringSet) : StringMap StringSet :=
  e.2.toList.foldl (enter e.1) dependents

/-- The graph of the items of a map; the tables are gone through in the given order. -/
def arrange (turns : Turns) (completed : StringSet) (policy : OrphanPolicy) (arena : StringMap Item) : Graph :=
  let own := StringMap.ofList ((turns.of arena).map fun e => (e.2.id, e.2.blockedBy))
  let declared := (turns.of arena).foldl (fun m e => announce m e.2) own
  let isOrphan (b : String) : Bool := !arena.contains b && !completed.contains b
  let sifted := (turns.of declared).foldl (sift isOrphan policy) (declared, [])
  { entries := (Item.inOrder ((turns.of arena).map (·.2))).map fun i => (i, sifted.1.setAt i.id)
    dependents := (turns.of sifted.1).foldl turnRound ∅
    external := completed
    orphans := sifted.2.mergeSort Orphan.atMost
    policy }

/-- The graph of some items, of which no two may share an id. -/
def buildIn (turns : Turns) (items : List Item) (completed : StringSet) (policy : OrphanPolicy) :
    Except GraphError Graph := do
  let arena ← file items ∅
  return arrange turns completed policy arena

/-- The graph of some items, with its tables gone through by their keys. -/
def build (items : List Item) (completed : StringSet) (policy : OrphanPolicy) : Except GraphError Graph :=
  buildIn .byKey items completed policy

def items (g : Graph) : List Item := g.entries.map (·.1)

def ids (g : Graph) : List String := g.entries.map (·.1.id)

def size (g : Graph) : Nat := g.entries.length

def entry? (g : Graph) (id : String) : Option (Item × StringSet) :=
  g.entries.find? (·.1.id == id)

def item? (g : Graph) (id : String) : Option Item := (g.entry? id).map (·.1)

def contains (g : Graph) (id : String) : Bool := (g.entry? id).isSome

/-- The ids that an item waits for; none for an id that is no item. -/
def blockersOf (g : Graph) (id : String) : StringSet :=
  match g.entry? id with
  | some e => e.2
  | none => ∅

/-- The items that wait for an id. -/
def dependentsOf (g : Graph) (id : String) : StringSet := g.dependents.setAt id

/-- Whether an id is completed, now or beforehand. -/
def isDone (g : Graph) (done : StringSet) (id : String) : Bool :=
  done.contains id || g.external.contains id

/-- The items that are not done and wait for nothing that is not done, in order. -/
def ready (g : Graph) (done : StringSet) : List Item :=
  (g.entries.filter fun e => !g.isDone done e.1.id && e.2.all (g.isDone done)).map (·.1)

end Graph

end WorkWaves
