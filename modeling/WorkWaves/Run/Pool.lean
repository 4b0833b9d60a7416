import WorkWaves.Run.Worker
import WorkWaves.State.Store

/-!
# The pool of workers

The items of a wave are worked on by a few workers at once. A worker goes on until it has to wait: for an
errand or the fixer, if they take time, or for the lock. Then another goes on that can; when none can, time
passes. All that happens outside is left to the `Surroundings`, so what holds for all surroundings holds for
every answer, every delay and every moment of an interrupt.
-/

namespace WorkWaves

/-- An answer, and the milliseconds until it is there. -/
structure Timed (α : Type) where
  answer : α
  afterMs : Nat := 0

/-- What a run takes place in. -/
structure Surroundings (σ : Type) where
  errand : (e : Errand) → σ → Timed e.Answer × σ
  fix : FixRequest → σ → Timed (Except Failure FixResult) × σ
  tell : Event → σ → σ
  /-- Writes a record down, if it is wanted. -/
  write : LogRecord → σ → σ
  save : RunState → σ → Except StateError Unit × σ
  interrupted : σ → Bool
  /-- The milliseconds that have passed. -/
  elapsed : σ → Nat
  /-- Lets time pass up to a moment, or up to an interrupt that comes before it. Once the interrupt is there,
  the moment is reached. -/
  pass : Nat → σ → σ
  now : σ → Timestamp

/-- A worker that waits for an answer. -/
structure Sleeper where
  wakeAt : Nat
  /-- How it goes on then. -/
  talk : Worker.Talk Outcome
  /-- How it goes on when an interrupt wakes it, if one does. -/
  onInterrupt : Option (Worker.Talk Outcome)

/-- Permits to work on an item. One that is closed gives none out. -/
structure Semaphore where
  permits : Nat
  closed : Bool := false

namespace Semaphore

/-- How many permits there can be: an eighth of what a word of 64 bits can count, 2^61 - 1. -/
def maxPermits : Nat := 2305843009213693951

/-- Makes permits. To ask for more than there can be ends the program. -/
def make (permits : Nat) : Option Semaphore := if permits ≤ maxPermits then some { permits } else none

end Semaphore

/-- The workers of a wave, and what they work in. -/
structure Pool (σ : Type) where
  world : σ
  /-- The items that have not had a turn yet. -/
  entering : List Item
  /-- How many workers have no item. -/
  free : Nat
  /-- The items that had a turn and found no worker free. -/
  waiting : List Item := []
  /-- The workers that can go on, in the order in which they were woken. -/
  ready : List (Worker.Talk Outcome) := []
  sleeping : List Sleeper := []
  locked : Bool := false
  /-- The workers that wait for the lock. -/
  atLock : List (Worker.Talk Outcome) := []
  /-- In the order in which the items ended. -/
  finished : List Outcome := []

namespace Pool

variable {σ : Type} (env : Surroundings σ) (setting : Worker.Setting)

/-- The pool before anything happened. -/
def start (workers : Nat) (items : List Item) (world : σ) : Pool σ where
  world := world
  entering := items
  free := workers

/-- After an interrupt, wakes the workers that wait for their fixer. -/
def rouse (p : Pool σ) : Pool σ :=
  if env.interrupted p.world then
    { p with
      ready := p.ready ++ p.sleeping.filterMap (·.onInterrupt)
      sleeping := p.sleeping.filter (·.onInterrupt.isNone) }
  else p

/-- Notes an outcome; the worker takes the next item that waits, and queues behind those that are awake. -/
def finish (o : Outcome) (p : Pool σ) : Pool σ :=
  let p := p.rouse env
  match p.waiting with
  | [] => { p with finished := p.finished ++ [o], free := p.free + 1 }
  | item :: rest =>
    { p with
      finished := p.finished ++ [o]
      waiting := rest
      ready := p.ready ++ [Worker.work setting item] }

/-- Lets a worker wait. -/
def sleep (ms : Nat) (talk : Worker.Talk Outcome) (onInterrupt : Option (Worker.Talk Outcome))
    (p : Pool σ) : Pool σ :=
  { p with sleeping := p.sleeping ++ [⟨env.elapsed p.world + ms, talk, onInterrupt⟩] }

/-- How the fixer ends for a worker that waits no longer than its budget. -/
def fixEnd (budgetMs : Nat) (t : Timed (Except Failure FixResult)) : FixEnd :=
  if t.afterMs ≤ budgetMs then
    match t.answer with
    | .ok r => .finished r
    | .error e => .failed e
  else .timedOut

/-- Lets a worker go on until it has to wait. -/
def advance : Worker.Talk Outcome → Pool σ → Pool σ
  | .done o, p => p.finish env setting o
  | .ask .interrupted k, p => advance (k (env.interrupted p.world)) p
  | .ask .time k, p => advance (k (env.elapsed p.world)) p
  | .ask (.tell e) k, p => advance (k ()) { p with world := env.tell e p.world }
  | .ask (.write r) k, p => advance (k ()) { p with world := env.write r p.world }
  | .ask .lock k, p =>
    if p.locked then { p with atLock := p.atLock ++ [k ()] }
    else advance (k ()) { p with locked := true }
  | .ask .unlock k, p =>
    let p := p.rouse env
    match p.atLock with
    | [] => advance (k ()) { p with locked := false }
    | next :: rest => advance (k ()) { p with atLock := rest, ready := p.ready ++ [next] }
  | .ask (.fix r) k, p =>
    let stopped := env.interrupted p.world
    let (t, world) := env.fix r p.world
    let p := { p with world := world }
    let ms := min t.afterMs setting.limits.budgetMs
    let ending := fixEnd setting.limits.budgetMs t
    if ms = 0 then advance (k ending) p
    else if stopped then advance (k .interrupted) p
    else p.sleep env ms (k ending) (some (k .interrupted))
  | .ask (.errand e) k, p =>
    let (t, world) := env.errand e p.world
    let p := { p with world := world }
    if t.afterMs = 0 then advance (k t.answer) p else p.sleep env t.afterMs (k t.answer) none

/-- The sleeper that wakes first, and the others. -/
def firstToWake : List Sleeper → Option (Sleeper × List Sleeper)
  | [] => none
  | s :: r =>
    match firstToWake r with
    | none => some (s, [])
    | some (t, others) => if t.wakeAt < s.wakeAt then some (t, s :: others) else some (s, r)

/-- Lets time pass until a sleeper wakes, or an interrupt comes that wakes others. -/
def wake (s : Sleeper) (others : List Sleeper) (p : Pool σ) : Pool σ :=
  let world := env.pass s.wakeAt p.world
  if env.interrupted world && (s :: others).any (·.onInterrupt.isSome) then { p with world := world }
  else { p with world := env.pass s.wakeAt world, sleeping := others, ready := [s.talk] }

/-- Gives an item its first turn: it is worked on if a worker is free. -/
def enter (item : Item) (p : Pool σ) : Pool σ :=
  match p.free with
  | 0 => { p with waiting := p.waiting ++ [item] }
  | n + 1 => advance env setting (Worker.work setting item) { p with free := n }

/-- Lets the workers go on, some steps at most. Every item has its first turn before a woken worker goes on. -/
def drive : Nat → Pool σ → Pool σ
  | 0, p => p
  | fuel + 1, p =>
    let p := p.rouse env
    match p.entering, p.ready with
    | item :: rest, _ => drive fuel (enter env setting item { p with entering := rest })
    | [], talk :: rest => drive fuel (advance env setting talk { p with ready := rest })
    | [], [] =>
      match firstToWake p.sleeping with
      | some (s, others) => drive fuel (p.wake env s others)
      | none => p

/-- More steps than the workers of some items can take. -/
def steps (items : Nat) : Nat := (2 * Worker.patience + 3) * items + 2

/-- Works on items with some workers: the outcomes in the order in which the items ended. -/
def conduct (workers : Nat) (items : List Item) (world : σ) : List Outcome × σ :=
  let p := drive env setting (steps items.length) (start workers items world)
  (p.finished, p.world)

/-- Has workers work on items who each need a permit. The first one that gets none gives up for all. -/
def withPermits (sem : Semaphore) (items : List Item) (world : σ) : Except RunError (List Outcome) × σ :=
  if sem.closed && !items.isEmpty then (.error (.workers "semaphore closed unexpectedly"), world)
  else
    let (outcomes, world) := conduct env setting sem.permits items world
    (.ok outcomes, world)

/-- Works on items, on so many at once at most, but on one at least. The program ends if these are more permits than
there can be. -/
def execute (atMost : Nat) (items : List Item) (world : σ) : Option (Except RunError (List Outcome) × σ) :=
  (Semaphore.make (max atMost 1)).map fun sem => withPermits env setting sem items world

theorem execute_eq_some {atMost : Nat} (h : atMost ≤ Semaphore.maxPermits) (items : List Item) (world : σ) :
    execute env setting atMost items world =
      some (.ok (conduct env setting (max atMost 1) items world).1, (conduct env setting (max atMost 1) items world).2) := by
  have hmost : max atMost 1 ≤ Semaphore.maxPermits := Nat.max_le.mpr ⟨h, by decide⟩
  rw [execute, Semaphore.make, if_pos hmost]
  rfl

theorem execute_eq_none {atMost : Nat} (h : Semaphore.maxPermits < atMost) (items : List Item) (world : σ) :
    execute env setting atMost items world = none := by
  have hmost : ¬ max atMost 1 ≤ Semaphore.maxPermits := Nat.not_le.mpr (Nat.lt_of_lt_of_le h (Nat.le_max_left ..))
  rw [execute, Semaphore.make, if_neg hmost]
  rfl

/-- Works on the items of a wave. There are never too many permits: a wave is in memory, where an item takes up more
than the eight bytes that would leave room for so many. -/
def executeWave (items : List Item) (world : σ) : Except RunError (List Outcome) × σ :=
  withPermits env setting { permits := setting.limits.workersFor items.length } items world

/-- What the workers of a wave leave. -/
def run (items : List Item) (world : σ) : List Outcome × σ :=
  conduct env setting (setting.limits.workersFor items.length) items world

/-- A wave is never given up for want of a permit. -/
theorem executeWave_eq (items : List Item) (world : σ) :
    executeWave env setting items world = (.ok (run env setting items world).1, (run env setting items world).2) := rfl

theorem execute_workersFor {items : List Item} (h : setting.limits.workersFor items.length ≤ Semaphore.maxPermits)
    (world : σ) :
    execute env setting (setting.limits.workersFor items.length) items world = some (executeWave env setting items world) := by
  have hone : max (setting.limits.workersFor items.length) 1 = setting.limits.workersFor items.length :=
    Nat.max_eq_left (Nat.le_max_right ..)
  rw [execute_eq_some env setting h, hone]
  rfl

end Pool

end WorkWaves
