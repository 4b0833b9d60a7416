import Mathlib.Data.List.Nodup
import Mathlib.Data.List.Perm.Subperm
import WorkWaves.Proofs.Run.Pool

/-!
# What the workers of a pool asked and heard

A pool forgets what its workers asked. `Crew` is a pool in which each of them keeps its item and its exchanges, from
the first question to the outcome; then these are its `Diary`. Apart from that a crew does the same (`forget_drive`),
so the diaries of a pool end in the outcomes that it returns (`outcomes_diaries`), in the same order. Each is a whole
course of the work on its item (`diaries_whole`), and each item has one (`items_diaries`).
-/

namespace WorkWaves

open Dialogue

/-- What a worker asked and heard, and what it returned. -/
structure Diary where
  item : Item
  past : List (Exchange WorkerCall WorkerCall.Answer)
  outcome : Outcome

namespace Pool

/-- A worker that waits for an answer, and what it will have heard by then. -/
structure Nap where
  wakeAt : Nat
  hand : Hand
  onInterrupt : Option Hand

def Nap.forget (n : Nap) : Sleeper := ⟨n.wakeAt, n.hand.talk, n.onInterrupt.map (·.talk)⟩

/-- A pool whose workers keep what they asked and heard. -/
structure Crew (σ : Type) where
  world : σ
  entering : List Item
  free : Nat
  waiting : List Item := []
  ready : List Hand := []
  sleeping : List Nap := []
  locked : Bool := false
  atLock : List Hand := []
  finished : List Diary := []

namespace Crew

variable {σ : Type} (env : Surroundings σ) (setting : Worker.Setting)

def forget (p : Crew σ) : Pool σ where
  world := p.world
  entering := p.entering
  free := p.free
  waiting := p.waiting
  ready := p.ready.map (·.talk)
  sleeping := p.sleeping.map Nap.forget
  locked := p.locked
  atLock := p.atLock.map (·.talk)
  finished := p.finished.map (·.outcome)

def rouse (p : Crew σ) : Crew σ :=
  if env.interrupted p.world then
    { p with
      ready := p.ready ++ p.sleeping.filterMap (·.onInterrupt)
      sleeping := p.sleeping.filter (·.onInterrupt.isNone) }
  else p

def finish (d : Diary) (p : Crew σ) : Crew σ :=
  let p := p.rouse env
  match p.waiting with
  | [] => { p with finished := p.finished ++ [d], free := p.free + 1 }
  | item :: rest =>
    { p with
      finished := p.finished ++ [d]
      waiting := rest
      ready := p.ready ++ [⟨item, [], Worker.work setting item⟩] }

def sleep (ms : Nat) (hand : Hand) (onInterrupt : Option Hand) (p : Crew σ) : Crew σ :=
  { p with sleeping := p.sleeping ++ [⟨env.elapsed p.world + ms, hand, onInterrupt⟩] }

/-- Lets a worker go on that has an item and asked and heard some things. -/
def advance (i : Item) (past : List (Exchange WorkerCall WorkerCall.Answer)) :
    Worker.Talk Outcome → Crew σ → Crew σ
  | .done o, p => p.finish env setting ⟨i, past, o⟩
  | .ask .interrupted k, p =>
    let b := env.interrupted p.world
    advance i (past ++ [⟨.interrupted, b⟩]) (k b) p
  | .ask .time k, p =>
    let ms := env.elapsed p.world
    advance i (past ++ [⟨.time, ms⟩]) (k ms) p
  | .ask (.tell e) k, p => advance i (past ++ [⟨.tell e, ()⟩]) (k ()) { p with world := env.tell e p.world }
  | .ask (.write r) k, p => advance i (past ++ [⟨.write r, ()⟩]) (k ()) { p with world := env.write r p.world }
  | .ask .lock k, p =>
    let past := past ++ [⟨.lock, ()⟩]
    if p.locked then { p with atLock := p.atLock ++ [⟨i, past, k ()⟩] }
    else advance i past (k ()) { p with locked := true }
  | .ask .unlock k, p =>
    let past := past ++ [⟨.unlock, ()⟩]
    let p := p.rouse env
    match p.atLock with
    | [] => advance i past (k ()) { p with locked := false }
    | next :: rest => advance i past (k ()) { p with atLock := rest, ready := p.ready ++ [next] }
  | .ask (.fix r) k, p =>
    let stopped := env.interrupted p.world
    let (t, world) := env.fix r p.world
    let p := { p with world := world }
    let ms := min t.afterMs setting.limits.budgetMs
    let ending := fixEnd setting.limits.budgetMs t
    if ms = 0 then advance i (past ++ [⟨.fix r, ending⟩]) (k ending) p
    else if stopped then advance i (past ++ [⟨.fix r, FixEnd.interrupted⟩]) (k .interrupted) p
    else p.sleep env ms ⟨i, past ++ [⟨.fix r, ending⟩], k ending⟩
      (some ⟨i, past ++ [⟨.fix r, FixEnd.interrupted⟩], k .interrupted⟩)
  | .ask (.errand e) k, p =>
    let (t, world) := env.errand e p.world
    let p := { p with world := world }
    let past := past ++ [⟨.errand e, t.answer⟩]
    if t.afterMs = 0 then advance i past (k t.answer) p else p.sleep env t.afterMs ⟨i, past, k t.answer⟩ none

def firstToWake : List Nap → Option (Nap × List Nap)
  | [] => none
  | n :: r =>
    match firstToWake r with
    | none => some (n, [])
    | some (t, others) => if t.wakeAt < n.wakeAt then some (t, n :: others) else some (n, r)

def wake (n : Nap) (others : List Nap) (p : Crew σ) : Crew σ :=
  let world := env.pass n.wakeAt p.world
  if env.interrupted world && (n :: others).any (·.onInterrupt.isSome) then { p with world := world }
  else { p with world := env.pass n.wakeAt world, sleeping := others, ready := [n.hand] }

def enter (item : Item) (p : Crew σ) : Crew σ :=
  match p.free with
  | 0 => { p with waiting := p.waiting ++ [item] }
  | n + 1 => advance env setting item [] (Worker.work setting item) { p with free := n }

def drive : Nat → Crew σ → Crew σ
  | 0, p => p
  | fuel + 1, p =>
    let p := p.rouse env
    match p.entering, p.ready with
    | item :: rest, _ => drive fuel (enter env setting item { p with entering := rest })
    | [], h :: rest => drive fuel (advance env setting h.item h.past h.talk { p with ready := rest })
    | [], [] =>
      match firstToWake p.sleeping with
      | some (n, others) => drive fuel (p.wake env n others)
      | none => p

/-! ### A crew is a pool -/

variable {env setting}

theorem forget_world (p : Crew σ) : p.forget.world = p.world := rfl

theorem forget_entering (p : Crew σ) : p.forget.entering = p.entering := rfl

theorem forget_free (p : Crew σ) : p.forget.free = p.free := rfl

theorem forget_waiting (p : Crew σ) : p.forget.waiting = p.waiting := rfl

theorem forget_ready (p : Crew σ) : p.forget.ready = p.ready.map (·.talk) := rfl

theorem forget_sleeping (p : Crew σ) : p.forget.sleeping = p.sleeping.map Nap.forget := rfl

theorem forget_locked (p : Crew σ) : p.forget.locked = p.locked := rfl

theorem forget_atLock (p : Crew σ) : p.forget.atLock = p.atLock.map (·.talk) := rfl

theorem forget_rouse (p : Crew σ) : (p.rouse env).forget = p.forget.rouse env := by
  have hwoken : (p.sleeping.map Nap.forget).filterMap (·.onInterrupt) =
      (p.sleeping.filterMap (·.onInterrupt)).map (·.talk) := by
    rw [List.filterMap_map, List.map_filterMap]
    rfl
  have hasleep : (p.sleeping.map Nap.forget).filter (·.onInterrupt.isNone) =
      (p.sleeping.filter (·.onInterrupt.isNone)).map Nap.forget := by
    rw [List.filter_map]
    congr 2
    funext n
    exact Option.isNone_map
  unfold rouse Pool.rouse
  rw [forget_world, forget_ready, forget_sleeping, hwoken, hasleep]
  split
  · simp only [forget, List.map_append]
  · rfl

theorem forget_finish (d : Diary) (p : Crew σ) :
    (p.finish env setting d).forget = p.forget.finish env setting d.outcome := by
  unfold finish Pool.finish
  rw [← forget_rouse]
  dsimp only
  rw [forget_waiting]
  cases (p.rouse env).waiting with
  | nil => simp only [forget, List.map_append, List.map_cons, List.map_nil]
  | cons item rest => simp only [forget, List.map_append, List.map_cons, List.map_nil]

theorem forget_sleep (ms : Nat) (hand : Hand) (onInterrupt : Option Hand) (p : Crew σ) :
    (p.sleep env ms hand onInterrupt).forget = p.forget.sleep env ms hand.talk (onInterrupt.map (·.talk)) := by
  simp only [sleep, Pool.sleep, forget, List.map_append, List.map_cons, List.map_nil, Nap.forget]

theorem forget_advance (i : Item) (past : List (Exchange WorkerCall WorkerCall.Answer))
    (talk : Worker.Talk Outcome) (p : Crew σ) :
    (advance env setting i past talk p).forget = Pool.advance env setting talk p.forget := by
  induction talk generalizing past p with
  | done o => exact forget_finish _ _
  | ask c k ih =>
    cases c with
    | interrupted => exact ih _ _ p
    | time => exact ih _ _ p
    | tell e => exact ih _ _ _
    | write r => exact ih _ _ _
    | lock =>
      unfold advance Pool.advance
      rw [forget_locked]
      split
      · simp only [forget, List.map_append, List.map_cons, List.map_nil]
      · exact ih _ _ _
    | unlock =>
      unfold advance Pool.advance
      rw [← forget_rouse]
      dsimp only
      rw [forget_atLock]
      cases (p.rouse env).atLock with
      | nil => exact ih _ _ _
      | cons next rest =>
        refine (ih _ _ _).trans ?_
        simp only [forget, List.map_append, List.map_cons, List.map_nil]
    | fix r =>
      unfold advance Pool.advance
      rw [forget_world]
      dsimp only
      split
      · exact ih _ _ _
      · split
        · exact ih _ _ _
        · exact forget_sleep _ _ _ _
    | errand e =>
      unfold advance Pool.advance
      rw [forget_world]
      dsimp only
      split
      · exact ih _ _ _
      · exact forget_sleep _ _ _ _

theorem firstToWake_forget (l : List Nap) : Pool.firstToWake (l.map Nap.forget) =
    (firstToWake l).map fun r => (r.1.forget, r.2.map Nap.forget) := by
  induction l with
  | nil => rfl
  | cons n r ih =>
    unfold firstToWake
    rw [List.map_cons, Pool.firstToWake, ih]
    cases firstToWake r with
    | none => rfl
    | some x =>
      show (if x.1.wakeAt < n.wakeAt then _ else _) = Option.map _ (if x.1.wakeAt < n.wakeAt then _ else _)
      split
      · rfl
      · rfl

theorem forget_wake (n : Nap) (others : List Nap) (p : Crew σ) :
    (p.wake env n others).forget = p.forget.wake env n.forget (others.map Nap.forget) := by
  have hsome : (n.forget :: others.map Nap.forget).any (·.onInterrupt.isSome) =
      (n :: others).any (·.onInterrupt.isSome) := by
    rw [← List.map_cons, List.any_map]
    congr 1
    funext m
    exact Option.isSome_map
  unfold wake Pool.wake
  rw [hsome]
  dsimp only [forget, Nap.forget]
  split
  · rfl
  · rfl

theorem forget_enter (item : Item) (p : Crew σ) :
    (enter env setting item p).forget = Pool.enter env setting item p.forget := by
  unfold enter Pool.enter
  rw [forget_free]
  cases p.free with
  | zero => rfl
  | succ n => exact forget_advance _ _ _ _

theorem forget_drive (fuel : Nat) (p : Crew σ) :
    (drive env setting fuel p).forget = Pool.drive env setting fuel p.forget := by
  induction fuel generalizing p with
  | zero => rfl
  | succ fuel ih =>
    unfold drive Pool.drive
    rw [← forget_rouse]
    dsimp only
    rw [forget_entering, forget_ready, forget_sleeping, firstToWake_forget]
    cases (p.rouse env).entering with
    | cons item rest => exact (ih _).trans (congrArg _ (forget_enter _ _))
    | nil =>
      cases (p.rouse env).ready with
      | cons h rest => exact (ih _).trans (congrArg _ (forget_advance _ _ _ _))
      | nil =>
        cases firstToWake (p.rouse env).sleeping with
        | none => rfl
        | some x => exact (ih _).trans (congrArg _ (forget_wake _ _ _))

theorem eq_nil_of_firstToWake {l : List Nap} (h : firstToWake l = none) : l = [] := by
  cases l with
  | nil => rfl
  | cons n l =>
    unfold firstToWake at h
    split at h
    · cases h
    · split at h <;> cases h

theorem firstToWake_perm {l others : List Nap} {n : Nap} (h : firstToWake l = some (n, others)) :
    l.Perm (n :: others) := by
  induction l generalizing n others with
  | nil => cases h
  | cons m l ih =>
    unfold firstToWake at h
    split at h
    · next hnone =>
      cases h
      rw [eq_nil_of_firstToWake hnone]
    · next t rest hs =>
      split at h
      · cases h
        exact ((ih hs).cons m).trans (.swap ..)
      · cases h
        exact (List.Perm.refl _).cons m

/-! ### Everybody is in the course of the work -/

/-- A worker is in the course of its work on one of the items. -/
def AtWork (setting : Worker.Setting) (items : List Item) (h : Hand) : Prop :=
  h.item ∈ items ∧ Leads (Worker.work setting h.item) h.past h.talk

/-- A diary of the whole work on one of the items. -/
def IsWhole (setting : Worker.Setting) (items : List Item) (d : Diary) : Prop :=
  d.item ∈ items ∧ Leads (Worker.work setting d.item) d.past (.done d.outcome)

structure Busy (setting : Worker.Setting) (items : List Item) (p : Crew σ) : Prop where
  entering : ∀ i ∈ p.entering, i ∈ items
  waiting : ∀ i ∈ p.waiting, i ∈ items
  ready : ∀ h ∈ p.ready, AtWork setting items h
  sleeping : ∀ n ∈ p.sleeping, AtWork setting items n.hand ∧ ∀ h ∈ n.onInterrupt, AtWork setting items h
  atLock : ∀ h ∈ p.atLock, AtWork setting items h
  finished : ∀ d ∈ p.finished, IsWhole setting items d

variable {items : List Item} {p : Crew σ} {i : Item} {past : List (Exchange WorkerCall WorkerCall.Answer)}
  {c : WorkerCall} {k : c.Answer → Worker.Talk Outcome}

theorem atWork_begin (setting : Worker.Setting) (hi : i ∈ items) :
    AtWork setting items ⟨i, [], Worker.work setting i⟩ :=
  ⟨hi, .refl _⟩

theorem AtWork.hear (h : AtWork setting items ⟨i, past, .ask c k⟩) (a : c.Answer) :
    AtWork setting items ⟨i, past ++ [⟨c, a⟩], k a⟩ :=
  ⟨h.1, h.2.snoc a⟩

theorem forall_mem_concat {α : Type} {P : α → Prop} {l : List α} {a : α} (hl : ∀ x ∈ l, P x) (ha : P a) :
    ∀ x ∈ l ++ [a], P x :=
  List.forall_mem_append.mpr ⟨hl, List.forall_mem_singleton.mpr ha⟩

namespace Busy

variable (env) in
theorem rouse (h : Busy setting items p) : Busy setting items (p.rouse env) := by
  unfold Crew.rouse
  split
  · refine { h with ready := List.forall_mem_append.mpr ⟨h.ready, fun x hx => ?_⟩, sleeping := fun n hn => ?_ }
    · obtain ⟨n, hn, hnx⟩ := List.mem_filterMap.mp hx
      exact (h.sleeping n hn).2 x hnx
    · exact h.sleeping n (List.mem_filter.mp hn).1
  · exact h

theorem finish {d : Diary} (h : Busy setting items p) (hd : IsWhole setting items d) :
    Busy setting items (p.finish env setting d) := by
  have hr := h.rouse env
  unfold Crew.finish
  dsimp only
  split
  · exact { hr with finished := forall_mem_concat hr.finished hd }
  · next item rest hw =>
    have hwaiting := hr.waiting
    rw [hw] at hwaiting
    obtain ⟨hitem, hrest⟩ := List.forall_mem_cons.mp hwaiting
    exact { hr with
      finished := forall_mem_concat hr.finished hd
      waiting := hrest
      ready := forall_mem_concat hr.ready (atWork_begin setting hitem) }

theorem sleep (h : Busy setting items p) {ms : Nat} {hand : Hand} {onInterrupt : Option Hand}
    (hh : AtWork setting items hand) (ho : ∀ x ∈ onInterrupt, AtWork setting items x) :
    Busy setting items (p.sleep env ms hand onInterrupt) :=
  { h with sleeping := forall_mem_concat h.sleeping ⟨hh, ho⟩ }

theorem advance {talk : Worker.Talk Outcome} (hh : AtWork setting items ⟨i, past, talk⟩)
    (h : Busy setting items p) : Busy setting items (advance env setting i past talk p) := by
  induction talk generalizing past p with
  | done o => exact h.finish ⟨hh.1, hh.2⟩
  | ask c k ih =>
    cases c with
    | interrupted => exact ih _ (hh.hear _) h
    | time => exact ih _ (hh.hear _) h
    | tell e => exact ih _ (hh.hear ()) { h with }
    | write r => exact ih _ (hh.hear ()) { h with }
    | lock =>
      unfold Crew.advance
      dsimp only
      split
      · exact { h with atLock := forall_mem_concat h.atLock (hh.hear ()) }
      · exact ih _ (hh.hear ()) { h with }
    | unlock =>
      have hr := h.rouse env
      unfold Crew.advance
      dsimp only
      split
      · exact ih _ (hh.hear ()) { hr with }
      · next next rest hq =>
        have hatLock := hr.atLock
        rw [hq] at hatLock
        obtain ⟨hnext, hrest⟩ := List.forall_mem_cons.mp hatLock
        exact ih _ (hh.hear ()) { hr with atLock := hrest, ready := forall_mem_concat hr.ready hnext }
    | fix r =>
      unfold Crew.advance
      dsimp only
      split
      · exact ih _ (hh.hear _) { h with }
      · split
        · exact ih _ (hh.hear FixEnd.interrupted) { h with }
        · refine Busy.sleep (by exact { h with }) (hh.hear _) fun x hx => ?_
          cases hx
          exact hh.hear FixEnd.interrupted
    | errand e =>
      unfold Crew.advance
      dsimp only
      split
      · exact ih _ (hh.hear _) { h with }
      · exact Busy.sleep (by exact { h with }) (hh.hear _) (by simp)

theorem enter (h : Busy setting items p) (hi : i ∈ items) : Busy setting items (enter env setting i p) := by
  unfold Crew.enter
  split
  · exact { h with waiting := forall_mem_concat h.waiting hi }
  · exact Busy.advance (atWork_begin setting hi) { h with }

theorem wake {n : Nap} {others : List Nap} (h : Busy setting items p)
    (hw : firstToWake p.sleeping = some (n, others)) : Busy setting items (p.wake env n others) := by
  have hperm := firstToWake_perm hw
  unfold Crew.wake
  dsimp only
  split
  · exact { h with }
  · exact { h with
      sleeping := fun m hm => h.sleeping m (hperm.mem_iff.mpr (List.mem_cons_of_mem n hm))
      ready := List.forall_mem_singleton.mpr (h.sleeping n (hperm.mem_iff.mpr (List.mem_cons_self ..))).1 }

theorem drive (fuel : Nat) (h : Busy setting items p) : Busy setting items (drive env setting fuel p) := by
  induction fuel generalizing p with
  | zero => exact h
  | succ fuel ih =>
    have hr := h.rouse env
    unfold Crew.drive
    dsimp only
    split
    · next item rest he =>
      have hentering := hr.entering
      rw [he] at hentering
      obtain ⟨hitem, hrest⟩ := List.forall_mem_cons.mp hentering
      exact ih (Busy.enter (by exact { hr with entering := hrest }) hitem)
    · next x rest _ hl =>
      have hready := hr.ready
      rw [hl] at hready
      obtain ⟨hx, hrest⟩ := List.forall_mem_cons.mp hready
      exact ih (Busy.advance hx { hr with ready := hrest })
    · split
      · next n others hw => exact ih (hr.wake hw)
      · exact hr

end Busy

end Crew

/-! ### The diaries of a pool -/

variable {σ : Type} (env : Surroundings σ) (setting : Worker.Setting) (items : List Item) (w : σ)

/-- The diaries of the workers, in the order in which the items ended. -/
def diaries : List Diary :=
  (Crew.drive env setting (steps items.length)
    { world := w, entering := items, free := setting.limits.workersFor items.length }).finished

theorem outcomes_diaries : (diaries env setting items w).map (·.outcome) = (run env setting items w).1 :=
  congrArg Pool.finished (Crew.forget_drive (steps items.length)
    { world := w, entering := items, free := setting.limits.workersFor items.length })

theorem diaries_whole : ∀ d ∈ diaries env setting items w, Crew.IsWhole setting items d := by
  refine (Crew.Busy.drive (steps items.length) ?_).finished
  exact ⟨fun _ hi => hi, by simp, by simp, by simp, by simp, by simp⟩

theorem itemId_of_mem_diaries : ∀ d ∈ diaries env setting items w, d.outcome.itemId = d.item.id := fun d hd =>
  ((Worker.work_safe setting d.item).leads (diaries_whole env setting items w d hd).2).itemId

variable {env setting items w} {I : σ → Prop}

/-- Each item has one diary, if no two items have the same id. -/
theorem items_diaries (henv : env.Steady I) (hw : I w) (hn : (items.map (·.id)).Nodup) :
    ((diaries env setting items w).map (·.item)).Perm items := by
  have hids : ((diaries env setting items w).map (·.item)).map (·.id) = (run env setting items w).1.map (·.itemId) := by
    rw [← outcomes_diaries, List.map_map, List.map_map]
    exact List.map_congr_left fun d hd => (itemId_of_mem_diaries env setting items w d hd).symm
  have hperm : (((diaries env setting items w).map (·.item)).map (·.id)).Perm (items.map (·.id)) :=
    hids ▸ (run_ran setting henv items hw).itemIds
  have hnodup : ((diaries env setting items w).map (·.item)).Nodup := .of_map _ (hperm.nodup_iff.mpr hn)
  have hsub : (diaries env setting items w).map (·.item) ⊆ items := fun i hi => by
    obtain ⟨d, hd, rfl⟩ := List.mem_map.mp hi
    exact (diaries_whole env setting items w d hd).1
  have hlength := hperm.length_eq
  simp only [List.length_map] at hlength
  refine (List.subperm_of_subset hnodup hsub).perm_of_length_le ?_
  rw [List.length_map]
  omega

end Pool

end WorkWaves
