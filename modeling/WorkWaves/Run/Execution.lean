import WorkWaves.Run.Pool

/-!
# Running a plan

The waves of a plan are run one after the other, each by a pool of workers. An item whose blocker did not
end well is passed over. The state is saved after every wave and at the end; a run that cannot save gives
up. An interrupt ends the run after the wave in which it comes.
-/

namespace WorkWaves

/-- How far a run is. -/
structure Progress (σ : Type) where
  world : σ
  state : RunState
  /-- In the order in which the items ended. -/
  outcomes : List Outcome := []
  wavesRun : Nat := 0

/-- A run that had to be given up, and how far it was. -/
structure GivenUp (σ : Type) where
  error : RunError
  progress : Progress σ

/-- What a run is to do, and how. -/
structure RunOrder where
  runId : String
  plan : Plan
  limits : RunLimits
  exclusions : Exclusions

namespace Execution

variable {σ : Type} (env : Surroundings σ)

/-- A part of a run. -/
abbrev Part (σ : Type) := Except (GivenUp σ)

/-- Tells an event. -/
def tell (e : Event) (p : Progress σ) : Progress σ := { p with world := env.tell e p.world }

/-- Writes down what is done. -/
def write (level : LogLevel) (text : String) (fields : LogFields) (p : Progress σ) : Progress σ :=
  { p with world := env.write { level := level, area := .run, text := text, fields := fields } p.world }

/-- Moves an item to a status, for a reason if there is one. -/
def move (id : String) (target : Status) (reason : Option String) (p : Progress σ) : Part σ (Progress σ) :=
  let now := env.now p.world
  let moved := match reason with
    | some r => p.state.setStatusFor now id target r
    | none => p.state.setStatus now id target
  match moved with
  | .ok state => .ok { p with state := state }
  | .error r => .error ⟨.state (.invalidMove r), { p with state := r.state }⟩

/-- Adds an outcome to those there are. -/
def add (o : Outcome) (p : Progress σ) : Progress σ := { p with outcomes := p.outcomes ++ [o] }

/-- Skips an item for good. -/
def skip (o : Outcome) (p : Progress σ) : Part σ (Progress σ) := do
  let p ← move env o.itemId o.status o.reason p
  return add o (tell env (.itemEnd o) p)

/-- Skips an item that can never run, unless it has a status already. -/
def skipBlocked (p : Progress σ) (b : BlockedItem) : Part σ (Progress σ) :=
  if p.state.status? b.itemId = some .pending then
    skip env (.never b.itemId b.reason.message) <|
      write env .warn "Item can never run"
        [("item_id", .text b.itemId), ("reason", .text b.reason.message)] p
  else .ok p

/-- The first blocker of an item that ended without being completed. -/
def unmetBlocker (plan : Plan) (state : RunState) (id : String) : Option (String × Status) :=
  (plan.blockersOf id).findSome? fun b =>
    match state.status? b with
    | some s => if s.isUnsuccessful then some (b, s) else none
    | none => none

/-- Why an item is passed over. -/
def blockedBy (b : String × Status) : String := "blocked by " ++ b.1 ++ " (" ++ b.2.text ++ ")"

/-- Picks the items of a wave that can be worked on, and skips those that cannot any more. -/
def choose (plan : Plan) (wave : Nat) : List Item → Progress σ → Part σ (List Item × Progress σ)
  | [], p => .ok ([], p)
  | item :: rest, p =>
    match p.state.status? item.id with
    | some .pending | none =>
      match unmetBlocker plan p.state item.id with
      | some b => do
        let p := write env .info "Skipping item"
          [("item_id", .text item.id), ("blocker", .text b.1), ("status", .text b.2.text)] p
        let p ← skip env (.passedOver item.id wave (blockedBy b)) p
        choose plan wave rest p
      | none => do
        let (items, p) ← choose plan wave rest p
        return (item :: items, p)
    | some status =>
      choose plan wave rest <|
        write env .debug "Already resolved" [("item_id", .text item.id), ("status", .text status.text)] p

/-- Enters an outcome into the state. -/
def enter (p : Progress σ) (o : Outcome) : Part σ (Progress σ) := do
  if o.started then
    let p ← move env o.itemId .running none p
    let p ← move env o.itemId o.status o.reason p
    return add o p
  else return add o p

/-- The setting of the workers of a wave. -/
def setting (order : RunOrder) (wave : Nat) : Worker.Setting := ⟨wave, order.limits, order.exclusions⟩

/-- Opens a wave: tells of it, and picks the items that are worked on. -/
def opening (order : RunOrder) (w : RefinedWave) (p : Progress σ) : Part σ (List Item × Progress σ) :=
  choose env order.plan w.wave.index w.items <|
    tell env (.waveStart w.wave.index order.plan.waves.length w.ids w.note) <|
    write env .info "Starting wave"
      [("wave", .count w.wave.index), ("parent_wave", .count w.parentIndex), ("items", .count w.items.length)] p

/-- Has the items of a wave worked on, and enters the outcomes. -/
def carryOut (order : RunOrder) (w : RefinedWave) (items : List Item) (p : Progress σ) : Part σ (Progress σ) := do
  let s := setting order w.wave.index
  match Pool.executeWave env s items p.world with
  | (.error e, world) => .error ⟨e, { p with world := world }⟩
  | (.ok outcomes, world) =>
    let p ← outcomes.foldlM (enter env) { p with world := world }
    return { p with wavesRun := p.wavesRun + 1 }

theorem carryOut_eq (order : RunOrder) (w : RefinedWave) (items : List Item) (p : Progress σ) :
    carryOut env order w items p =
      ((Pool.run env (setting order w.wave.index) items p.world).1.foldlM (enter env)
        { p with world := (Pool.run env (setting order w.wave.index) items p.world).2 } >>= fun p =>
          .ok { p with wavesRun := p.wavesRun + 1 }) := by
  unfold carryOut
  dsimp only
  rw [Pool.executeWave_eq]
  rfl

/-- Runs one wave. -/
def wave (order : RunOrder) (w : RefinedWave) (p : Progress σ) : Part σ (Progress σ) := do
  let (items, p) ← opening env order w p
  carryOut env order w items p

/-- Saves the state. -/
def save (p : Progress σ) : Part σ (Progress σ) :=
  match env.save p.state p.world with
  | (.ok (), world) => .ok { p with world := world }
  | (.error e, world) => .error ⟨.state e, { p with world := world }⟩

/-- Where the items of some ids stand. -/
def countsOf (state : RunState) (ids : List String) : StatusCounts :=
  .ofList (ids.filterMap state.status?)

/-- Closes a wave: the next one is due, and the state says so. -/
def close (w : RefinedWave) (p : Progress σ) : Part σ (Progress σ) := do
  let counts := countsOf p.state w.ids
  let p ← save env { p with state := { p.state with waveIndex := w.wave.index + 1 } }
  return tell env (.waveEnd w.wave.index counts) p

/-- Runs waves until there are no more or an interrupt comes; tells whether one came. -/
def waves (order : RunOrder) : List RefinedWave → Progress σ → Part σ (Bool × Progress σ)
  | [], p => .ok (false, p)
  | w :: rest, p =>
    if env.interrupted p.world then .ok (true, p)
    else do
      let p ← wave env order w p
      if env.interrupted p.world then
        return (true, write env .warn "Interrupted, persisting state" [("wave", .count w.wave.index)] p)
      else
        let p ← close env w p
        waves order rest p

/-- What there is to tell before the first wave. -/
def announce (order : RunOrder) (p : Progress σ) : Progress σ :=
  tell env (.plan order.plan)
    (tell env (.runStart p.state.attempt order.plan.total order.plan.waves.length) p)

/-- What became of the run. -/
def summary (order : RunOrder) (startMs : Nat) (interrupted : Bool) (p : Progress σ) : Summary where
  runId := order.runId
  attempt := p.state.attempt
  totalItems := order.plan.total
  wavesTotal := order.plan.waves.length
  wavesRun := p.wavesRun
  counts := countsOf p.state order.plan.ids
  interrupted := interrupted
  durationMs := env.elapsed p.world - startMs
  outcomes := p.outcomes

/-- What is done before the first wave: the items are made known, and those that can never run are skipped. -/
def prepare (order : RunOrder) (p : Progress σ) : Part σ (Progress σ) :=
  order.plan.blocked.foldlM (skipBlocked env)
    (announce env order { p with state := order.plan.ids.foldl RunState.register p.state })

/-- What is done after the last wave: the state is saved, and it is told what became of the run. -/
def conclude (order : RunOrder) (startMs : Nat) (interrupted : Bool) (p : Progress σ) :
    Part σ (Summary × Progress σ) := do
  let p ← save env p
  let s := summary env order startMs interrupted p
  let p := write env .info "Run finished"
    [("completed", .count s.counts.completed), ("unsuccessful", .count s.counts.unsuccessful),
      ("interrupted", .flag interrupted)] p
  return (s, tell env (.runEnd s) p)

/-- Runs a plan from the wave that is due. -/
def whole (order : RunOrder) (p : Progress σ) : Part σ (Summary × Progress σ) := do
  let startMs := env.elapsed p.world
  let p ← prepare env order p
  let (interrupted, p) ← waves env order (order.plan.waves.drop p.state.waveIndex) p
  conclude env order startMs interrupted p

end Execution

/-- Running a plan from a state on, as a piece of work. -/
def RunOrder.span (order : RunOrder) (state : RunState) : LogSpan :=
  ⟨"run", .run, [("attempt", .count state.attempt), ("waves", .count order.plan.waves.length)]⟩

/-- What a run leaves. -/
structure RunResult (σ : Type) where
  world : σ
  state : RunState
  summary : Except RunError Summary

/-- What is left when a run is concluded, or given up. -/
def RunResult.of {σ : Type} : Execution.Part σ (Summary × Progress σ) → RunResult σ
  | .ok (s, p) => ⟨p.world, p.state, .ok s⟩
  | .error g => ⟨g.progress.world, g.progress.state, .error g.error⟩

/-- Carries out a run order from a state on. -/
def RunOrder.run {σ : Type} (order : RunOrder) (env : Surroundings σ) (state : RunState) (world : σ) :
    RunResult σ :=
  .of (Execution.whole env order { world := world, state := state })

end WorkWaves
