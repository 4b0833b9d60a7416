import WorkWaves.Proofs.Run.Interrupt

/-!
# Who is at work

`Moment` is a pool between two answers: its crew, and the worker that goes on, if there is one. `Moment.tick` is the
next thing that happens, and it marks the items that a worker takes and those that end. `Roll` is what is true at every
moment: items are taken in their order, no permit is lost, and an item that was taken and did not end is with one
worker. So no more items are at work at any moment than there are permits, and when nothing can happen any more each
item was taken once and ended once (`admission_of_execute`).
-/

namespace WorkWaves

open Dialogue

namespace Pool

/-- What happens to an item in a pool. -/
inductive Mark where
  /-- A worker takes it. -/
  | taken (item : Item)
  | ended (item : Item) (o : Outcome)

def Mark.taken? : Mark → Option Item
  | .taken item => some item
  | .ended .. => none

def Mark.ended? : Mark → Option (Item × Outcome)
  | .taken _ => none
  | .ended item o => some (item, o)

@[simp] theorem Mark.taken?_taken (item : Item) : (Mark.taken item).taken? = some item := rfl

@[simp] theorem Mark.taken?_ended (item : Item) (o : Outcome) : (Mark.ended item o).taken? = none := rfl

@[simp] theorem Mark.ended?_taken (item : Item) : (Mark.taken item).ended? = none := rfl

@[simp] theorem Mark.ended?_ended (item : Item) (o : Outcome) : (Mark.ended item o).ended? = some (item, o) := rfl

/-- A crew, and the worker that goes on at the moment. -/
structure Moment (σ : Type) where
  crew : Crew σ
  now : Option Hand := none

variable {σ : Type} (env : Surroundings σ) (setting : Worker.Setting)

namespace Moment

/-- A worker has an answer and goes on. -/
def hears (i : Item) (past : List (Exchange WorkerCall WorkerCall.Answer)) {c : WorkerCall}
    (k : c.Answer → Worker.Talk Outcome) (a : c.Answer) (p : Crew σ) : Moment σ :=
  ⟨p, some ⟨i, past ++ [⟨c, a⟩], k a⟩⟩

/-- What comes of a question: the worker has the answer, or waits for it or for the lock. -/
def asks (i : Item) (past : List (Exchange WorkerCall WorkerCall.Answer)) :
    (c : WorkerCall) → (c.Answer → Worker.Talk Outcome) → Crew σ → Moment σ
  | .interrupted, k, p => hears i past k (env.interrupted p.world) p
  | .time, k, p => hears i past k (env.elapsed p.world) p
  | .tell e, k, p => hears i past k () { p with world := env.tell e p.world }
  | .write r, k, p => hears i past k () { p with world := env.write r p.world }
  | .lock, k, p =>
    if p.locked then ⟨{ p with atLock := p.atLock ++ [⟨i, past ++ [⟨.lock, ()⟩], k ()⟩] }, none⟩
    else hears i past k () { p with locked := true }
  | .unlock, k, p =>
    let p := p.rouse env
    match p.atLock with
    | [] => hears i past k () { p with locked := false }
    | next :: rest => hears i past k () { p with atLock := rest, ready := p.ready ++ [next] }
  | .fix r, k, p =>
    let stopped := env.interrupted p.world
    let (t, world) := env.fix r p.world
    let p := { p with world := world }
    let ms := min t.afterMs setting.limits.budgetMs
    let ending := fixEnd setting.limits.budgetMs t
    if ms = 0 then hears i past k ending p
    else if stopped then hears i past k .interrupted p
    else ⟨p.sleep env ms ⟨i, past ++ [⟨.fix r, ending⟩], k ending⟩
      (some ⟨i, past ++ [⟨.fix r, FixEnd.interrupted⟩], k .interrupted⟩), none⟩
  | .errand e, k, p =>
    let (t, world) := env.errand e p.world
    let p := { p with world := world }
    if t.afterMs = 0 then hears i past k t.answer p
    else ⟨p.sleep env t.afterMs ⟨i, past ++ [⟨.errand e, t.answer⟩], k t.answer⟩ none, none⟩

/-- The next thing that happens in a pool where no worker goes on at the moment. -/
def turn (p : Crew σ) : Option (List Mark × Moment σ) :=
  match p.entering, p.ready with
  | item :: rest, _ =>
    match p.free with
    | 0 => some ([], ⟨{ p with entering := rest, waiting := p.waiting ++ [item] }, none⟩)
    | n + 1 =>
      some ([.taken item], ⟨{ p with entering := rest, free := n }, some ⟨item, [], Worker.work setting item⟩⟩)
  | [], h :: rest => some ([], ⟨{ p with ready := rest }, some h⟩)
  | [], [] => (Crew.firstToWake p.sleeping).map fun r => ([], ⟨p.wake env r.1 r.2, none⟩)

/-- The next thing that happens, if anything does. A worker that ends its item takes the next one that waits. -/
def tick (m : Moment σ) : Option (List Mark × Moment σ) :=
  match m.now with
  | some ⟨i, past, .done o⟩ =>
    some (.ended i o :: (m.crew.waiting.take 1).map .taken, ⟨m.crew.finish env setting ⟨i, past, o⟩, none⟩)
  | some ⟨i, past, .ask c k⟩ => some ([], asks env setting i past c k m.crew)
  | none => turn env setting (m.crew.rouse env)

/-- The first moment of a pool. -/
def start (workers : Nat) (items : List Item) (w : σ) : Moment σ :=
  { crew := { world := w, entering := items, free := workers } }

/-- The items that workers have. -/
def atWork (m : Moment σ) : List Item :=
  m.now.toList.map (·.item) ++ m.crew.ready.map (·.item) ++ m.crew.sleeping.map (·.hand.item) ++
    m.crew.atLock.map (·.item)

end Moment

/-- One moment of a pool, what happens then, and a later moment. -/
inductive Goes : Moment σ → List Mark → Moment σ → Prop
  | refl (m : Moment σ) : Goes m [] m
  | step {m m' m'' : Moment σ} {marks log : List Mark} (ht : m.tick env setting = some (marks, m'))
      (hg : Goes m' log m'') : Goes m (marks ++ log) m''

namespace Goes

variable {env setting} {m m' m'' : Moment σ} {marks log log' : List Mark}

theorem trans (h : Goes env setting m log m') (h' : Goes env setting m' log' m'') :
    Goes env setting m (log ++ log') m'' := by
  induction h with
  | refl m => exact h'
  | step ht _ ih =>
    rw [List.append_assoc]
    exact .step ht (ih h')

theorem tick (ht : m.tick env setting = some (marks, m')) : Goes env setting m marks m' := by
  have h := Goes.step ht (.refl m')
  rwa [List.append_nil] at h

/-- Only one thing can happen next, so every moment is on the way to the last one. -/
theorem meets {last : Moment σ} (h : Goes env setting m log m') (h' : Goes env setting m log' last)
    (hlast : last.tick env setting = none) : ∃ post, Goes env setting m' post last ∧ log' = log ++ post := by
  induction h generalizing log' with
  | refl m => exact ⟨log', h', rfl⟩
  | step ht _ ih =>
    cases h' with
    | refl =>
      rw [hlast] at ht
      cases ht
    | step ht' hg' =>
      rw [ht] at ht'
      cases ht'
      obtain ⟨post, hpost, rfl⟩ := ih hg'
      exact ⟨post, hpost, (List.append_assoc ..).symm⟩

end Goes

/-! ### The pool goes through its moments -/

variable {env setting} {i : Item} {past : List (Exchange WorkerCall WorkerCall.Answer)} {p q : Crew σ}

/-- The crew when the worker that goes on has done so until it has to wait. -/
def Moment.settle (env : Surroundings σ) (setting : Worker.Setting) (m : Moment σ) : Crew σ :=
  match m.now with
  | none => m.crew
  | some h => Crew.advance env setting h.item h.past h.talk m.crew

variable (env setting i past) in
theorem settle_asks (c : WorkerCall) (k : c.Answer → Worker.Talk Outcome) (p : Crew σ) :
    (Moment.asks env setting i past c k p).settle env setting = Crew.advance env setting i past (.ask c k) p := by
  cases c with
  | interrupted | time | tell _ | write _ => rfl
  | lock =>
    show Moment.settle _ _ (if _ then _ else _) = if _ then _ else _
    split <;> rfl
  | unlock =>
    dsimp only [Moment.asks, Crew.advance]
    cases (p.rouse env).atLock with
    | nil => rfl
    | cons next rest => rfl
  | fix r =>
    show Moment.settle _ _ (if _ then _ else if _ then _ else _) = if _ then _ else if _ then _ else _
    split
    · rfl
    · split <;> rfl
  | errand e =>
    show Moment.settle _ _ (if _ then _ else _) = if _ then _ else _
    split <;> rfl

variable (env setting i past) in
/-- After a question, the worker waits or goes on with an answer. -/
theorem asks_cases (c : WorkerCall) (k : c.Answer → Worker.Talk Outcome) (p : Crew σ) :
    (∃ q, Moment.asks env setting i past c k p = ⟨q, none⟩) ∨
      ∃ a t q, Moment.asks env setting i past c k p = ⟨q, some ⟨i, t, k a⟩⟩ := by
  cases c with
  | interrupted | time | tell _ | write _ => exact .inr ⟨_, _, _, rfl⟩
  | lock =>
    dsimp only [Moment.asks]
    split
    · exact .inl ⟨_, rfl⟩
    · exact .inr ⟨_, _, _, rfl⟩
  | unlock =>
    dsimp only [Moment.asks]
    split
    · exact .inr ⟨_, _, _, rfl⟩
    · exact .inr ⟨_, _, _, rfl⟩
  | fix r =>
    dsimp only [Moment.asks]
    split
    · exact .inr ⟨_, _, _, rfl⟩
    · split
      · exact .inr ⟨_, _, _, rfl⟩
      · exact .inl ⟨_, rfl⟩
  | errand e =>
    dsimp only [Moment.asks]
    split
    · exact .inr ⟨_, _, _, rfl⟩
    · exact .inl ⟨_, rfl⟩

theorem goes_advance (talk : Worker.Talk Outcome) :
    ∃ log, Goes env setting ⟨p, some ⟨i, past, talk⟩⟩ log ⟨Crew.advance env setting i past talk p, none⟩ := by
  induction talk generalizing past p with
  | done o => exact ⟨_, .tick rfl⟩
  | ask c k ih =>
    have ht : (⟨p, some ⟨i, past, .ask c k⟩⟩ : Moment σ).tick env setting =
        some ([], Moment.asks env setting i past c k p) := rfl
    have hsettle := settle_asks env setting i past c k p
    rcases asks_cases env setting i past c k p with ⟨q, hq⟩ | ⟨a, t, q, hq⟩
    · rw [hq] at ht hsettle
      obtain rfl : q = Crew.advance env setting i past (.ask c k) p := hsettle
      exact ⟨_, .tick ht⟩
    · rw [hq] at ht hsettle
      replace hsettle : Crew.advance env setting i t (k a) q = Crew.advance env setting i past (.ask c k) p := hsettle
      obtain ⟨log, hlog⟩ := ih a (p := q)
      rw [hsettle] at hlog
      exact ⟨_, .step ht hlog⟩

variable (env setting) in
theorem goes_settle (m : Moment σ) : ∃ log, Goes env setting m log ⟨m.settle env setting, none⟩ := by
  obtain ⟨p, _ | ⟨i, past, talk⟩⟩ := m
  · exact ⟨[], .refl _⟩
  · exact goes_advance talk

theorem rouse_of_sleeping_eq_nil (hs : p.sleeping = []) : p.rouse env = p := by
  obtain ⟨world, entering, free, waiting, ready, sleeping, locked, atLock, finished⟩ := p
  obtain rfl : sleeping = [] := hs
  unfold Crew.rouse
  split
  · simp
  · rfl

/-- Whom an interrupt wakes is ready then. -/
theorem rouse_eq_self (hr : (p.rouse env).ready = []) (hs : (p.rouse env).sleeping = []) : p.rouse env = p := by
  refine rouse_of_sleeping_eq_nil ?_
  unfold Crew.rouse at hr hs
  split at hr
  · rw [if_pos ‹_›] at hs
    simp only [List.append_eq_nil_iff, List.filterMap_eq_nil_iff, List.filter_eq_nil_iff] at hr hs
    refine List.eq_nil_iff_forall_not_mem.mpr fun n hn => hs n hn ?_
    rw [hr.2 n hn]
    rfl
  · rwa [if_neg ‹_›] at hs

theorem drive_succ (fuel : Nat) (p : Crew σ) : Crew.drive env setting (fuel + 1) p =
    match Moment.turn env setting (p.rouse env) with
    | some r => Crew.drive env setting fuel (r.2.settle env setting)
    | none => p.rouse env := by
  rw [Crew.drive]
  unfold Moment.turn
  cases (p.rouse env).entering with
  | nil =>
    cases (p.rouse env).ready with
    | nil =>
      cases Crew.firstToWake (p.rouse env).sleeping with
      | none => rfl
      | some r => rfl
    | cons h rest => rfl
  | cons item rest =>
    unfold Crew.enter
    dsimp only
    cases (p.rouse env).free with
    | zero => rfl
    | succ n => rfl

/-- A pool that comes to rest went to that from moment to moment. -/
theorem goes_drive {fuel : Nat} (hr : (Crew.drive env setting fuel p).ready = [])
    (hs : (Crew.drive env setting fuel p).sleeping = []) :
    ∃ log, Goes env setting ⟨p, none⟩ log ⟨Crew.drive env setting fuel p, none⟩ := by
  induction fuel generalizing p with
  | zero => exact ⟨[], .refl _⟩
  | succ fuel ih =>
    have ht : (⟨p, none⟩ : Moment σ).tick env setting = Moment.turn env setting (p.rouse env) := rfl
    rw [drive_succ] at hr hs ⊢
    cases hturn : Moment.turn env setting (p.rouse env) with
    | none =>
      rw [hturn] at hr hs
      exact ⟨[], (rouse_eq_self hr hs).symm ▸ .refl _⟩
    | some r =>
      rw [hturn] at hr hs ht
      obtain ⟨log, hlog⟩ := goes_settle env setting r.2
      obtain ⟨log', hlog'⟩ := ih hr hs
      exact ⟨_, .step ht (hlog.trans hlog')⟩

/-! ### What is true at every moment -/

namespace Moment

/-- Whoever is woken by an interrupt still has the item. -/
def Faithful (p : Crew σ) : Prop := ∀ n ∈ p.sleeping, ∀ h ∈ n.onInterrupt, h.item = n.hand.item

/-- Two moments between which nobody takes an item or ends one. -/
structure Alike (m m' : Moment σ) : Prop where
  entering : m'.crew.entering = m.crew.entering
  waiting : m'.crew.waiting = m.crew.waiting
  free : m'.crew.free = m.crew.free
  finished : m'.crew.finished = m.crew.finished
  atWork : m'.atWork.Perm m.atWork
  faithful : Faithful m'.crew

theorem Alike.trans {m m' m'' : Moment σ} (h : Alike m m') (h' : Alike m' m'') : Alike m m'' where
  entering := h'.entering.trans h.entering
  waiting := h'.waiting.trans h.waiting
  free := h'.free.trans h.free
  finished := h'.finished.trans h.finished
  atWork := h'.atWork.trans h.atWork
  faithful := h'.faithful

theorem count_atWork (m : Moment σ) (j : Item) : m.atWork.count j = (m.now.toList.map (·.item)).count j +
    (m.crew.ready.map (·.item)).count j + (m.crew.sleeping.map (·.hand.item)).count j +
    (m.crew.atLock.map (·.item)).count j := by
  simp only [atWork, List.count_append]

theorem roused_perm {l : List Nap} (hl : ∀ n ∈ l, ∀ h ∈ n.onInterrupt, h.item = n.hand.item) :
    ((l.filterMap (·.onInterrupt)).map (·.item) ++ (l.filter (·.onInterrupt.isNone)).map (·.hand.item)).Perm
      (l.map (·.hand.item)) := by
  induction l with
  | nil => exact .refl _
  | cons n l ih =>
    obtain ⟨hn, hl⟩ := List.forall_mem_cons.mp hl
    cases h : n.onInterrupt with
    | none => simpa [h] using List.perm_middle.trans ((ih hl).cons _)
    | some t => simpa [h, hn t h] using ih hl

variable (env) in
theorem rouse_alike (hp : Faithful p) (now : Option Hand) : Alike ⟨p, now⟩ ⟨p.rouse env, now⟩ := by
  unfold Crew.rouse
  split
  · refine ⟨rfl, rfl, rfl, rfl, List.perm_iff_count.mpr fun j => ?_, fun n hn => hp n (List.mem_filter.mp hn).1⟩
    have h := (roused_perm hp).count_eq j
    simp only [List.count_append] at h
    simp only [count_atWork, List.map_append, List.count_append]
    omega
  · exact ⟨rfl, rfl, rfl, rfl, .refl _, hp⟩

/-- A worker that falls asleep keeps its item. -/
theorem sleep_alike (hp : Faithful p) (h : Hand) (w : σ) (ms : Nat) (hand : Hand) (onInterrupt : Option Hand)
    (hi : hand.item = h.item) (ho : ∀ x ∈ onInterrupt, x.item = hand.item) :
    Alike ⟨p, some h⟩ ⟨Crew.sleep env ms hand onInterrupt { p with world := w }, none⟩ := by
  refine ⟨rfl, rfl, rfl, rfl, List.perm_iff_count.mpr fun j => ?_, Crew.forall_mem_concat hp ho⟩
  simp only [count_atWork, Crew.sleep, List.map_append, List.count_append, Option.toList, List.map_cons, List.map_nil,
    List.count_nil, hi]
  omega

theorem asks_alike (hp : Faithful p) (c : WorkerCall) (k : c.Answer → Worker.Talk Outcome) :
    Alike ⟨p, some ⟨i, past, .ask c k⟩⟩ (asks env setting i past c k p) := by
  cases c with
  | interrupted | time | tell _ | write _ => exact ⟨rfl, rfl, rfl, rfl, .refl _, hp⟩
  | lock =>
    dsimp only [asks]
    split
    · refine ⟨rfl, rfl, rfl, rfl, List.perm_iff_count.mpr fun j => ?_, hp⟩
      simp only [count_atWork, List.map_append, List.count_append, Option.toList, List.map_cons, List.map_nil,
        List.count_nil]
      omega
    · exact ⟨rfl, rfl, rfl, rfl, .refl _, hp⟩
  | unlock =>
    have hr := rouse_alike env hp (some ⟨i, past, .ask .unlock k⟩)
    refine hr.trans ?_
    dsimp only [asks]
    split
    · exact ⟨rfl, rfl, rfl, rfl, .refl _, hr.faithful⟩
    · next next rest hq =>
      refine ⟨rfl, rfl, rfl, rfl, List.perm_iff_count.mpr fun j => ?_, hr.faithful⟩
      simp only [count_atWork, hears, hq, List.map_append, List.count_append, Option.toList, List.map_cons,
        List.map_nil, List.count_nil, List.count_cons]
      omega
  | fix r =>
    dsimp only [asks]
    split
    · exact ⟨rfl, rfl, rfl, rfl, .refl _, hp⟩
    · split
      · exact ⟨rfl, rfl, rfl, rfl, .refl _, hp⟩
      · refine sleep_alike hp _ _ _ _ _ rfl fun x hx => ?_
        cases hx
        rfl
  | errand e =>
    dsimp only [asks]
    split
    · exact ⟨rfl, rfl, rfl, rfl, .refl _, hp⟩
    · exact sleep_alike hp _ _ _ _ _ rfl (by simp)

theorem wake_alike (hp : Faithful p) (hr : p.ready = []) {n : Nap} {others : List Nap}
    (hn : Crew.firstToWake p.sleeping = some (n, others)) : Alike ⟨p, none⟩ ⟨p.wake env n others, none⟩ := by
  have hperm := Crew.firstToWake_perm hn
  unfold Crew.wake
  dsimp only
  split
  · exact ⟨rfl, rfl, rfl, rfl, .refl _, hp⟩
  · refine ⟨rfl, rfl, rfl, rfl, List.perm_iff_count.mpr fun j => ?_, fun m hm => hp m ?_⟩
    · have hcount := (hperm.map (·.hand.item)).count_eq j
      simp only [List.map_cons, List.count_cons] at hcount
      simp only [count_atWork, hr, List.map_cons, List.map_nil, List.count_cons, List.count_nil]
      omega
    · exact hperm.mem_iff.mpr (List.mem_cons_of_mem n hm)

end Moment

/-- What is true of a pool with these workers and items, after what happened so far. -/
structure Roll (items : List Item) (workers : Nat) (log : List Mark) (m : Moment σ) : Prop where
  permits : m.crew.free + m.atWork.length = workers
  idle : m.crew.waiting ≠ [] → m.crew.free = 0
  taken : log.filterMap Mark.taken? ++ m.crew.waiting ++ m.crew.entering = items
  ended : ((log.filterMap Mark.ended?).map (·.1) ++ m.atWork).Perm (log.filterMap Mark.taken?)
  finished : m.crew.finished.map (fun d => (d.item, d.outcome)) = log.filterMap Mark.ended?
  faithful : Moment.Faithful m.crew

namespace Roll

variable {items : List Item} {workers : Nat} {log marks : List Mark} {m m' : Moment σ}

theorem start (workers : Nat) (items : List Item) (w : σ) : Roll items workers [] (.start workers items w) where
  permits := rfl
  idle h := absurd rfl h
  taken := rfl
  ended := .refl _
  finished := rfl
  faithful := by simp [Moment.Faithful, Moment.start]

theorem alike (h : Roll items workers log m) (ha : m.Alike m') : Roll items workers log m' where
  permits := by rw [ha.free, ha.atWork.length_eq, h.permits]
  idle hw := by
    rw [ha.waiting] at hw
    rw [ha.free, h.idle hw]
  taken := by rw [ha.waiting, ha.entering, h.taken]
  ended := (ha.atWork.append_left _).trans h.ended
  finished := by rw [ha.finished, h.finished]
  faithful := ha.faithful

/-- An item ends, and its worker takes the next one that waits. -/
theorem finish {o : Outcome} (h : Roll items workers log ⟨p, some ⟨i, past, .done o⟩⟩) :
    Roll items workers (log ++ .ended i o :: (p.waiting.take 1).map .taken)
      ⟨p.finish env setting ⟨i, past, o⟩, none⟩ := by
  have ha := Moment.rouse_alike env h.faithful (some ⟨i, past, .done o⟩)
  have hr := h.alike ha
  have hw : p.waiting = (p.rouse env).waiting := ha.waiting.symm
  rw [hw]
  unfold Crew.finish
  dsimp only
  cases hq : (p.rouse env).waiting with
  | nil =>
    exact {
      permits := by
        have hpermits := hr.permits
        simp only [Moment.atWork, Option.toList, List.map_cons, List.map_nil, List.length_append, List.length_cons,
          List.length_nil] at hpermits ⊢
        omega
      idle := fun hne => absurd rfl hne
      taken := by simpa [List.filterMap_cons, hq] using hr.taken
      ended := by simpa [List.filterMap_cons, Moment.atWork] using hr.ended
      finished := by simpa [List.filterMap_cons] using hr.finished
      faithful := hr.faithful }
  | cons item rest =>
    exact {
      permits := by
        have hpermits := hr.permits
        simp only [Moment.atWork, Option.toList, List.map_cons, List.map_nil, List.map_append, List.length_append,
          List.length_cons, List.length_nil] at hpermits ⊢
        omega
      idle := fun _ => hr.idle (by simp [hq])
      taken := by simpa [List.filterMap_cons, hq] using hr.taken
      ended := by
        refine List.perm_iff_count.mpr fun j => ?_
        have hended := hr.ended.count_eq j
        simp [List.filterMap_cons, Moment.count_atWork, List.count_cons] at hended ⊢
        omega
      finished := by simpa [List.filterMap_cons] using hr.finished
      faithful := hr.faithful }

/-- An item has its first turn. -/
theorem turn (h : Roll items workers log ⟨p, none⟩) (ht : Moment.turn env setting p = some (marks, m')) :
    Roll items workers (log ++ marks) m' := by
  unfold Moment.turn at ht
  split at ht
  · next item rest he =>
    split at ht
    · next hf =>
      cases ht
      exact { h with
        idle := fun _ => hf
        taken := by simpa [he] using h.taken
        ended := by
          rw [List.append_nil]
          exact h.ended
        finished := by simpa using h.finished }
    · next n hf =>
      cases ht
      -- A worker is free, so no item waits.
      have hw : p.waiting = [] := by
        by_contra hne
        exact absurd (h.idle hne) (by simp [hf])
      exact {
        permits := by
          have hpermits := h.permits
          simp only [Moment.atWork, Option.toList, List.map_cons, List.map_nil, List.length_append, List.length_cons,
            List.length_nil, hf] at hpermits ⊢
          omega
        idle := fun hne => absurd hw hne
        taken := by simpa [he, hw] using h.taken
        ended := by
          refine List.perm_iff_count.mpr fun j => ?_
          have hended := h.ended.count_eq j
          simp [List.filterMap_cons, Moment.count_atWork, List.count_cons] at hended ⊢
          omega
        finished := by simpa [List.filterMap_cons] using h.finished
        faithful := h.faithful }
  · next x rest he hr =>
    cases ht
    rw [List.append_nil]
    refine h.alike ⟨rfl, rfl, rfl, rfl, ?_, h.faithful⟩
    simp [Moment.atWork, hr]
  · obtain ⟨⟨n, others⟩, hn, hm⟩ := Option.map_eq_some_iff.mp ht
    cases hm
    rw [List.append_nil]
    exact h.alike (Moment.wake_alike h.faithful ‹_› hn)

theorem tick (h : Roll items workers log m) (ht : m.tick env setting = some (marks, m')) :
    Roll items workers (log ++ marks) m' := by
  obtain ⟨p, _ | ⟨i, past, o | ⟨c, k⟩⟩⟩ := m
  · exact (h.alike (Moment.rouse_alike env h.faithful none)).turn ht
  · cases ht
    exact h.finish
  · cases ht
    rw [List.append_nil]
    exact h.alike (Moment.asks_alike h.faithful c k)

theorem goes {log' : List Mark} (h : Roll items workers log m) (hg : Goes env setting m log' m') :
    Roll items workers (log ++ log') m' := by
  induction hg generalizing log with
  | refl m => rwa [List.append_nil]
  | step ht _ ih =>
    rw [← List.append_assoc]
    exact ih (h.tick ht)

end Roll

/-! ### Until nothing can happen any more -/

variable {I : σ → Prop} {items : List Item} {w : σ}

/-- Nobody has anything left to do. -/
structure Rests (p : Crew σ) : Prop where
  entering : p.entering = []
  ready : p.ready = []
  sleeping : p.sleeping = []
  atLock : p.atLock = []

theorem Rests.tick (h : Rests p) : (⟨p, none⟩ : Moment σ).tick env setting = none := by
  show Moment.turn env setting (p.rouse env) = none
  rw [rouse_of_sleeping_eq_nil h.sleeping]
  unfold Moment.turn
  simp [h.entering, h.ready, h.sleeping, Crew.firstToWake]

theorem Rests.atWork (h : Rests p) : (⟨p, none⟩ : Moment σ).atWork = [] := by
  simp [Moment.atWork, h.ready, h.sleeping, h.atLock]

/-- The crew when all is done. -/
abbrev lastCrew (env : Surroundings σ) (setting : Worker.Setting) (workers : Nat) (items : List Item) (w : σ) :
    Crew σ :=
  Crew.drive env setting (steps items.length) (Moment.start workers items w).crew

variable (setting) in
theorem lastCrew_rests (henv : env.Steady I) (hw : I w) (workers : Nat) (items : List Item) :
    Rests (lastCrew env setting workers items w) := by
  have hforget : (lastCrew env setting workers items w).forget =
      drive env setting (steps items.length) (Pool.start workers items w) := Crew.forget_drive _ _
  obtain ⟨s, hbooks, hnow, hentering, hready, hsleeping⟩ := drive_start_books setting henv workers items hw
  have hqueue := hbooks.atLock
  rw [hbooks.atLock_eq_nil hnow hready hsleeping] at hqueue
  rw [← hforget] at hentering hready hsleeping hqueue
  exact ⟨hentering, List.map_eq_nil_iff.mp hready, List.map_eq_nil_iff.mp hsleeping, List.map_eq_nil_iff.mp hqueue⟩

variable (env setting) in
theorem conduct_eq (workers : Nat) (items : List Item) (w : σ) : conduct env setting workers items w =
    ((lastCrew env setting workers items w).finished.map (·.outcome),
      (lastCrew env setting workers items w).world) := by
  have hforget : (lastCrew env setting workers items w).forget =
      drive env setting (steps items.length) (Pool.start workers items w) := Crew.forget_drive _ _
  unfold conduct
  rw [← hforget]
  rfl

/-- Every diary of the crew is about the item that it names. -/
theorem itemId_of_lastCrew {workers : Nat} {items : List Item} {d : Diary}
    (hd : d ∈ (lastCrew env setting workers items w).finished) : d.outcome.itemId = d.item.id := by
  have hbusy : Crew.Busy setting items (lastCrew env setting workers items w) :=
    .drive _ ⟨fun _ hi => hi, by simp [Moment.start], by simp [Moment.start], by simp [Moment.start],
      by simp [Moment.start], by simp [Moment.start]⟩
  exact ((Worker.work_safe setting d.item).leads (hbusy.finished d hd).2).itemId

variable (env setting) in
/-- The work on some items with so many workers at most, from its first moment to its last. -/
structure Admission (atMost : Nat) (items : List Item) (w : σ) (log : List Mark) (last : Moment σ) : Prop where
  goes : Goes env setting (.start (max atMost 1) items w) log last
  ends : last.tick env setting = none
  idle : last.atWork = []
  /-- Each item is taken once, in the order in which they are given. -/
  taken : log.filterMap Mark.taken? = items
  /-- Each item ends once, in an outcome for it. -/
  ended : ((log.filterMap Mark.ended?).map (·.1)).Perm items
  itemId : ∀ e ∈ log.filterMap Mark.ended?, e.2.itemId = e.1.id
  /-- The outcomes are returned in the order in which the items ended, when all have ended. -/
  returned : execute env setting atMost items w =
    some (.ok ((log.filterMap Mark.ended?).map (·.2)), last.crew.world)
  /-- At every moment, the items at work are those that were taken and did not end, and no more than allowed. -/
  moments : ∀ pre m, Goes env setting (.start (max atMost 1) items w) pre m →
    m.atWork.length ≤ max atMost 1 ∧
    ((pre.filterMap Mark.ended?).map (·.1) ++ m.atWork).Perm (pre.filterMap Mark.taken?) ∧
    ∃ post, Goes env setting m post last ∧ log = pre ++ post

variable (setting) in
theorem exists_admission (henv : env.Steady I) (hw : I w) {atMost : Nat} (hmost : atMost ≤ Semaphore.maxPermits)
    (items : List Item) : ∃ log last, Admission env setting atMost items w log last := by
  have hrests := lastCrew_rests setting henv hw (max atMost 1) items
  obtain ⟨log, hlog⟩ := goes_drive hrests.ready hrests.sleeping
  have hroll := (Roll.start (max atMost 1) items w).goes hlog
  rw [List.nil_append] at hroll
  -- All permits are given back, so nobody waits for one.
  have hfree := hroll.permits
  rw [hrests.atWork] at hfree
  have hwaiting : (lastCrew env setting (max atMost 1) items w).waiting = [] := by
    by_contra hne
    have hidle : (lastCrew env setting (max atMost 1) items w).free = 0 := hroll.idle hne
    rw [List.length_nil, hidle] at hfree
    omega
  have htaken := hroll.taken
  have hended := hroll.ended
  rw [hwaiting, hrests.entering, List.append_nil, List.append_nil] at htaken
  rw [hrests.atWork, List.append_nil, htaken] at hended
  have hitemId : ∀ e ∈ log.filterMap Mark.ended?, e.2.itemId = e.1.id := fun e he => by
    rw [← hroll.finished] at he
    obtain ⟨d, hd, rfl⟩ := List.mem_map.mp he
    exact itemId_of_lastCrew hd
  have houtcomes : (lastCrew env setting (max atMost 1) items w).finished.map (·.outcome) =
      (log.filterMap Mark.ended?).map (·.2) := by
    rw [← hroll.finished, List.map_map]
    rfl
  refine ⟨log, _, hlog, hrests.tick, hrests.atWork, htaken, hended, hitemId, ?_, fun pre m hm => ?_⟩
  · rw [execute_eq_some env setting hmost, conduct_eq, houtcomes]
  · have hpre := (Roll.start (max atMost 1) items w).goes hm
    rw [List.nil_append] at hpre
    refine ⟨?_, hpre.ended, hm.meets hlog hrests.tick⟩
    have hpermits := hpre.permits
    omega

variable (setting) in
/-- Where there can be so many permits, a pool takes each item once, never works on more items at once than it may, and
returns an outcome for each item when the last one has ended; it is never given up. Where there cannot, the program
ends. The permits of a wave are no more than there are items, or workers, and so it never works on more at once. -/
theorem admission_of_execute (henv : env.Steady I) (hw : I w) (atMost : Nat) (items : List Item) :
    (atMost ≤ Semaphore.maxPermits → ∃ log last, Admission env setting atMost items w log last) ∧
    (Semaphore.maxPermits < atMost → execute env setting atMost items w = none) ∧
    (setting.limits.workersFor items.length ≤ Semaphore.maxPermits →
      execute env setting (setting.limits.workersFor items.length) items w = some (executeWave env setting items w) ∧
      ∃ log last, Admission env setting (setting.limits.workersFor items.length) items w log last ∧
        ∀ pre m, Goes env setting (.start (max (setting.limits.workersFor items.length) 1) items w) pre m →
          m.atWork.length ≤ max 1 (min setting.limits.maxWorkers items.length)) := by
  refine ⟨fun h => exists_admission setting henv hw h items, fun h => execute_eq_none env setting h items w, fun h => ?_⟩
  obtain ⟨log, last, hadmission⟩ := exists_admission setting henv hw h items
  refine ⟨execute_workersFor env setting h w, log, last, hadmission, fun pre m hm => ?_⟩
  have hmost := (hadmission.moments pre m hm).1
  unfold RunLimits.workersFor at hmost
  omega

/-- With two workers, `b` is taken when `d` has ended, and ends before `a`: the interrupt has come by then. -/
theorem admission_of_three : ∃ log last,
    Admission .cutShort ⟨0, ⟨2, 1000, false⟩, {}⟩ 2 [{ id := "d" }, { id := "a" }, { id := "b" }] (0, none) log last ∧
    (log.filterMap Mark.ended?).map (·.2.itemId) = ["d", "b", "a"] := by
  have hrun : (execute .cutShort ⟨0, ⟨2, 1000, false⟩, {}⟩ 2 [{ id := "d" }, { id := "a" }, { id := "b" }]
      (0, none)).map (fun r => r.1.map (·.map (·.itemId))) = some (.ok ["d", "b", "a"]) := by cbv
  obtain ⟨log, last, h⟩ := (admission_of_execute ⟨0, ⟨2, 1000, false⟩, {}⟩ Surroundings.cutShort_steady
    (w := (0, none)) trivial 2 [{ id := "d" }, { id := "a" }, { id := "b" }]).1 (by decide)
  rw [h.returned] at hrun
  refine ⟨log, last, h, ?_⟩
  have hids : ((log.filterMap Mark.ended?).map (·.2)).map (·.itemId) = ["d", "b", "a"] :=
    Except.ok.inj (Option.some.inj hrun)
  rwa [List.map_map] at hids

/-- One more permit than there can be: the program ends, and no outcome is returned for the item. -/
theorem execute_of_tooMany :
    execute .cutShort ⟨0, ⟨2, 1000, false⟩, {}⟩ (2 ^ 61) [{ id := "a" }] (0, none) = none ∧
    ¬ ∃ log last, Admission .cutShort ⟨0, ⟨2, 1000, false⟩, {}⟩ (2 ^ 61) [{ id := "a" }] (0, none) log last := by
  have hnone : execute .cutShort ⟨0, ⟨2, 1000, false⟩, {}⟩ (2 ^ 61) [{ id := "a" }] (0, none) = none :=
    execute_eq_none _ _ (by decide) _ _
  refine ⟨hnone, ?_⟩
  rintro ⟨log, last, h⟩
  cases hnone.symm.trans h.returned

end Pool

end WorkWaves
