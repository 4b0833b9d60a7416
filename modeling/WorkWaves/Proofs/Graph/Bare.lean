import WorkWaves.Plan
import WorkWaves.Proofs.Graph.Build

/-!
# What a graph is asked about

A graph keeps its items with what they declare about each other, but it answers from the blockers that it was built
with. `Graph.bare` takes the declarations away, and every answer stays (`cycles_bare`, `blocked_bare`, `waves_bare`):
the items in it only lose their declarations. So does a plan (`Plan.build_bare`).
-/

namespace WorkWaves

namespace Item

/-- An item without what it declares about others. -/
def bare (i : Item) : Item := { i with blockedBy := ∅, blocks := ∅ }

@[simp] theorem bare_id (i : Item) : i.bare.id = i.id := rfl

@[simp] theorem bare_hints (i : Item) : i.bare.hints = i.hints := rfl

theorem inOrder_map_bare (items : List Item) : inOrder (items.map bare) = (inOrder items).map bare := by
  unfold inOrder
  exact (List.map_mergeSort (f := bare) fun _ _ _ _ => rfl).symm

end Item

def Wave.bare (w : Wave) : Wave := { w with items := w.items.map Item.bare }

def RefinedWave.bare (w : RefinedWave) : RefinedWave := { w with wave := w.wave.bare }

def Plan.bare (p : Plan) : Plan := { p with waves := p.waves.map RefinedWave.bare }

namespace Graph

variable (g : Graph) {done : StringSet}

def bare : Graph := { g with entries := g.entries.map fun e => (e.1.bare, e.2) }

@[simp] theorem bare_ids : g.bare.ids = g.ids := by simp [ids, bare, Function.comp_def]

@[simp] theorem bare_size : g.bare.size = g.size := by simp [size, bare]

@[simp] theorem bare_isDone (done : StringSet) (id : String) : g.bare.isDone done id = g.isDone done id := rfl

theorem entry?_bare (id : String) : g.bare.entry? id = (g.entry? id).map fun e => (e.1.bare, e.2) := by
  rw [ entry?, entry?, bare, List.find?_map]
  rfl

@[simp] theorem bare_contains (id : String) : g.bare.contains id = g.contains id := by
  rw [contains, contains, entry?_bare, Option.isSome_map]

@[simp] theorem bare_blockersOf (id : String) : g.bare.blockersOf id = g.blockersOf id := by
  rw [blockersOf, blockersOf, entry?_bare]
  cases g.entry? id <;> rfl

@[simp] theorem bare_dependentsOf (id : String) : g.bare.dependentsOf id = g.dependentsOf id := rfl

theorem ready_bare (done : StringSet) : g.bare.ready done = (g.ready done).map Item.bare := by
  have hdone : g.bare.isDone done = g.isDone done := rfl
  unfold ready
  rw [hdone]
  simp [bare, List.filter_map, Function.comp_def]

theorem visit_bare (fuel : Nat) (path : List String) (id : String) (w : Walk) :
    visit g.bare fuel path id w = visit g fuel path id w := by
  induction fuel generalizing path id w with
  | zero => rfl
  | succ fuel ih => simp only [visit, bare_blockersOf, bare_contains, ih]

theorem cycles_bare : g.bare.cycles = g.cycles := by
  simp only [cycles, bare_ids, bare_size, visit_bare]

theorem mark_bare (s : Spread) (id : String) (why : BlockReason) : s.mark g.bare done id why = s.mark g done id why := rfl

theorem spread_bare (fuel : Nat) (s : Spread) : Spread.run g.bare done fuel s = Spread.run g done fuel s := by
  induction fuel generalizing s with
  | zero => rfl
  | succ fuel ih => simp only [Spread.run, bare_dependentsOf, mark_bare, ih]

theorem blocked_bare (done : StringSet) : g.bare.blocked done = g.blocked done := by
  have hpolicy : g.bare.policy = g.policy := rfl
  have horphans : g.bare.orphans = g.orphans := rfl
  simp only [blocked, hpolicy, horphans, bare_ids, bare_size, spread_bare, mark_bare]

theorem wavesFrom_bare (fuel k : Nat) (done : StringSet) :
    g.bare.wavesFrom fuel k done = ((g.wavesFrom fuel k done).1.map Wave.bare, (g.wavesFrom fuel k done).2) := by
  induction fuel generalizing k done with
  | zero => rfl
  | succ fuel ih =>
    simp only [wavesFrom, ready_bare]
    cases g.ready done with
    | nil => rfl
    | cons i items =>
      have hids : ((i :: items).map Item.bare).map (·.id) = (i :: items).map (·.id) := by simp
      have hids := congrArg (fun ids => done ∪ StringSet.ofList ids) hids
      simp only [List.map_cons] at hids ⊢
      rw [ih, hids]
      rfl

theorem waves_bare (done : StringSet) : g.bare.waves done = (g.waves done).map (List.map Wave.bare) := by
  have hleft : ∀ done', g.bare.leftover done' (g.bare.blocked done) = g.leftover done' (g.blocked done) := fun done' => by
    simp only [leftover, bare_ids, bare_isDone, blocked_bare]
  simp only [waves, wavesFrom_bare, bare_size, hleft, cycles_bare]
  cases g.leftover (g.wavesFrom (g.size + 1) 0 done).2 (g.blocked done) with
  | nil => rfl
  | cons id ids =>
    cases g.cycles.isEmpty <;> rfl

theorem map_waves_bare (done : StringSet) : (g.bare.waves done).map (List.map fun w => (w.index, w.ids)) =
    (g.waves done).map (List.map fun w => (w.index, w.ids)) := by
  rw [waves_bare]
  cases g.waves done <;> simp [Except.map, Wave.bare, Wave.ids, Function.comp_def]

end Graph

/-! ### Plans -/

namespace Refine

variable {hintsOf : Item → Hints} (hh : ∀ i, hintsOf i.bare = hintsOf i)

include hh

theorem contended_bare (items : List Item) : contended hintsOf (items.map Item.bare) = contended hintsOf items := by
  induction items with
  | nil => rfl
  | cons i items ih => rw [List.map_cons, contended, contended, List.foldl_map, ih, hh]; simp only [hh]

theorem place_bare (i : Item) (gs : List (List Item)) :
    place hintsOf i.bare (gs.map (List.map Item.bare)) = (place hintsOf i gs).map (List.map Item.bare) := by
  induction gs with
  | nil => rfl
  | cons group gs ih =>
    simp only [List.map_cons, place, List.all_map, Function.comp_def, hh, ih]
    split <;> simp

theorem groups_bare (items : List Item) :
    groups hintsOf (items.map Item.bare) = (groups hintsOf items).map (List.map Item.bare) := by
  have hfold : ∀ gs : List (List Item), (items.map Item.bare).foldl (fun gs i => place hintsOf i gs)
      (gs.map (List.map Item.bare)) =
        (items.foldl (fun gs i => place hintsOf i gs) gs).map (List.map Item.bare) := by
    induction items with
    | nil => intro gs; rfl
    | cons i items ih =>
      intro gs
      rw [List.map_cons, List.foldl_cons, List.foldl_cons, place_bare hh, ih]
  exact hfold []

theorem splitWave_bare (start : Nat) (w : Wave) :
    splitWave hintsOf start w.bare = (splitWave hintsOf start w).map RefinedWave.bare := by
  have horder : Item.inOrder w.bare.items = (Item.inOrder w.items).map Item.bare := Item.inOrder_map_bare w.items
  simp only [splitWave, horder, contended_bare hh, groups_bare hh]
  split
  · rfl
  · apply List.ext_getElem <;> simp [RefinedWave.bare, Wave.bare]

theorem splitFrom_bare (start : Nat) (ws : List Wave) :
    splitFrom hintsOf start (ws.map Wave.bare) = (splitFrom hintsOf start ws).map RefinedWave.bare := by
  induction ws generalizing start with
  | nil => rfl
  | cons w ws ih =>
    rw [List.map_cons, splitFrom, splitFrom, splitWave_bare hh, ih, List.length_map, List.map_append]

end Refine

theorem refine_bare (ws : List Wave) : refine (ws.map Wave.bare) = (refine ws).map RefinedWave.bare := by
  have hhints : (ws.map Wave.bare).flatMap (fun w => w.items.map fun i => (i.id, i.hints)) =
      ws.flatMap fun w => w.items.map fun i => (i.id, i.hints) := by
    simp [List.flatMap_map, Wave.bare, Function.comp_def]
  rw [refine, hhints]
  exact Refine.splitFrom_bare (fun _ => rfl) 0 ws

theorem Plan.build_bare (g : Graph) (completed : StringSet) :
    Plan.build g.bare completed = (Plan.build g completed).map Plan.bare := by
  have hvalid : g.bare.validate = g.validate := by simp only [Graph.validate, Graph.cycles_bare]
  have hdone : g.bare.ids.filter (g.bare.isDone completed) = g.ids.filter (g.isDone completed) := by
    rw [Graph.bare_ids]; rfl
  have hblockers : (g.bare.entries.map fun e => (e.1.id, e.2.toList)) = g.entries.map fun e => (e.1.id, e.2.toList) := by
    simp [Graph.bare, Function.comp_def]
  unfold Plan.build
  rw [hvalid, Graph.waves_bare, hdone, hblockers, Graph.blocked_bare]
  cases g.validate with
  | error e => rfl
  | ok _ =>
    cases g.waves completed with
    | error e => rfl
    | ok ws =>
      show Except.ok _ = Except.ok _
      rw [refine_bare]
      rfl

theorem Plan.map_build_bare (g : Graph) (completed : StringSet) :
    (Plan.build g.bare completed).map (fun p => p.waves.map fun w => (w.ids, w.parentIndex, w.note)) =
      (Plan.build g completed).map fun p => p.waves.map fun w => (w.ids, w.parentIndex, w.note) := by
  rw [Plan.build_bare]
  cases Plan.build g completed <;>
    simp [Except.map, Plan.bare, RefinedWave.bare, RefinedWave.ids, Wave.bare, Wave.ids, Function.comp_def]

end WorkWaves
