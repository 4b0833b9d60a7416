import WorkWaves.Graph.Cycles
import WorkWaves.Graph.Blocked

/-!
# Waves

Items that are ready together form a wave; with them done, others get ready. What is left over in the end,
apart from items that can never run, is an error.
-/

namespace WorkWaves

/-- Items that do not wait for one another. -/
structure Wave where
  index : Nat
  items : List Item
  deriving DecidableEq, Repr

def Wave.ids (w : Wave) : List String := w.items.map (·.id)

namespace Graph

/-- The waves from the one numbered `index` on, and what is done after them. Every wave has an item that
was not done before, so one more step than there are items suffices. -/
def wavesFrom (g : Graph) : Nat → Nat → StringSet → List Wave × StringSet
  | 0, _, done => ([], done)
  | fuel + 1, index, done =>
    match g.ready done with
    | [] => ([], done)
    | items =>
      let rest := wavesFrom g fuel (index + 1) (done ∪ .ofList (items.map (·.id)))
      (⟨index, items⟩ :: rest.1, rest.2)

/-- The items neither done nor known never to run. -/
def leftover (g : Graph) (done : StringSet) (blocked : List BlockedItem) : List String :=
  g.ids.filter fun id => !g.isDone done id && !blocked.any (·.itemId == id)

/-- Arranges what is not completed in waves. -/
def waves (g : Graph) (completed : StringSet) : Except GraphError (List Wave) :=
  let (waves, done) := g.wavesFrom (g.size + 1) 0 completed
  match g.leftover done (g.blocked completed) with
  | [] => .ok waves
  | remaining =>
    if g.cycles.isEmpty then .error (.unschedulable remaining) else .error (.circular g.cycles)

end Graph

end WorkWaves
