import WorkWaves.Graph.Basic

/-!
# Items that can never run

Under the blocking policy an item that waits for an orphan never runs, and neither does what waits for it.
Each such item gets one reason.
-/

namespace WorkWaves

/-- Why an item can never run. -/
inductive BlockReason where
  | unresolved (blocker : String)
  | behind (blocker : String)
  deriving DecidableEq, Repr

def BlockReason.message : BlockReason → String
  | .unresolved b => "unresolved blocker '" ++ b ++ "'"
  | .behind b => "blocked by '" ++ b ++ "', which can never run"

/-- An item that can never run. -/
structure BlockedItem where
  itemId : String
  reason : BlockReason
  deriving DecidableEq, Repr

namespace Graph

/-- The reasons found so far, and the items whose dependents are still to be looked at. -/
structure Spread where
  reasons : StringMap BlockReason := ∅
  pending : List String := []

/-- Gives an item a reason, unless it is done or has one. -/
def Spread.mark (g : Graph) (done : StringSet) (s : Spread) (id : String) (why : BlockReason) :
    Spread :=
  if g.isDone done id || s.reasons.contains id then s
  else ⟨s.reasons.insert id why, id :: s.pending⟩

/-- Marks what waits for marked items, the latest first. Every item is looked at once at most. -/
def Spread.run (g : Graph) (done : StringSet) : Nat → Spread → Spread
  | 0, s => s
  | fuel + 1, s =>
    match s.pending with
    | [] => s
    | id :: rest =>
      Spread.run g done fuel <|
        (g.dependentsOf id).toList.foldl (fun s d => s.mark g done d (.behind id))
          { s with pending := rest }

/-- The items that can never run, in order. -/
def blocked (g : Graph) (done : StringSet) : List BlockedItem :=
  match g.policy with
  | .satisfy => []
  | .block =>
    let seeds := g.orphans.foldl
      (fun s o => s.mark g done o.itemId (.unresolved o.blockerId)) {}
    let reasons := (Spread.run g done (g.size + 1) seeds).reasons
    g.ids.filterMap fun id => (reasons.get? id).map (⟨id, ·⟩)

end Graph

end WorkWaves
