import Mathlib.Algebra.GroupWithZero.Nat
import WorkWaves.Run.Pool
import WorkWaves.Proofs.Run.Worker

/-!
# The staff of a pool

A pool keeps only what its workers will do. `Staff` adds for each of them the item that it works on and what it
asked and heard before, and `Books` says that a pool and a staff agree: every worker is in the course of its work
on its item, every item is in one place, and one worker at most holds the lock. The surroundings are only bound
to be `Steady`: an interrupt stays, and worlds of a kind lead to worlds of that kind.
-/

namespace WorkWaves

open Dialogue

namespace Surroundings

variable {σ : Type} (env : Surroundings σ) (I : σ → Prop)

/-- A world of kind `I` that may come after another one. -/
structure Onward (w w' : σ) : Prop where
  kept : I w'
  stays : env.interrupted w = true → env.interrupted w' = true

/-- Whatever happens in a world of kind `I` leads to such a world, and an interrupt stays. -/
structure Steady : Prop where
  errand : ∀ e w, I w → env.Onward I w (env.errand e w).2
  fix : ∀ r w, I w → env.Onward I w (env.fix r w).2
  tell : ∀ e w, I w → env.Onward I w (env.tell e w)
  write : ∀ r w, I w → env.Onward I w (env.write r w)
  save : ∀ s w, I w → env.Onward I w (env.save s w).2
  pass : ∀ t w, I w → env.Onward I w (env.pass t w)

variable {env I}

theorem Onward.refl {w : σ} (hw : I w) : env.Onward I w w := ⟨hw, id⟩

theorem Onward.trans {u v w : σ} (h : env.Onward I u v) (h' : env.Onward I v w) : env.Onward I u w :=
  ⟨h'.kept, fun hi => h'.stays (h.stays hi)⟩

end Surroundings

namespace Pool

variable {σ : Type} (env : Surroundings σ) (setting : Worker.Setting) (I : σ → Prop)

/-- An answer that a worker can have heard before the world was `w`: the surroundings give it in a world of the
kind, or it is an interrupt, and then that is still there. -/
def Heard (w : σ) : Exchange WorkerCall WorkerCall.Answer → Prop
  | ⟨.interrupted, b⟩ => (∃ v, I v ∧ b = env.interrupted v) ∧ (b = true → env.interrupted w = true)
  | ⟨.time, t⟩ => ∃ v, I v ∧ t = env.elapsed v
  | ⟨.fix r, e⟩ => (∃ v, I v ∧ e = fixEnd setting.limits.budgetMs (env.fix r v).1) ∨
      e = FixEnd.interrupted ∧ env.interrupted w = true
  | ⟨.errand e, a⟩ => ∃ v, I v ∧ a = (env.errand e v).1.answer
  | ⟨.tell _, _⟩ | ⟨.write _, _⟩ | ⟨.lock, _⟩ | ⟨.unlock, _⟩ => True

variable {env setting I}

theorem Heard.mono {w w' : σ} {x : Exchange WorkerCall WorkerCall.Answer} (h : Heard env setting I w x)
    (hw : env.Onward I w w') : Heard env setting I w' x := by
  match x with
  | ⟨.interrupted, _⟩ => exact ⟨h.1, fun hb => hw.stays (h.2 hb)⟩
  | ⟨.time, _⟩ => exact h
  | ⟨.fix _, _⟩ => exact h.imp_right fun he => ⟨he.1, hw.stays he.2⟩
  | ⟨.errand _, _⟩ => exact h
  | ⟨.tell _, _⟩ | ⟨.write _, _⟩ | ⟨.lock, _⟩ | ⟨.unlock, _⟩ => trivial

theorem fixEnd_ne_interrupted (budgetMs : Nat) (t : Timed (Except Failure FixResult)) :
    fixEnd budgetMs t ≠ .interrupted := by
  unfold fixEnd
  split
  · split <;> simp
  · simp

/-- A worker that heard of an interrupt did so because there is one. -/
theorem interrupted_of_stopped {w : σ} {past : List (Exchange WorkerCall WorkerCall.Answer)}
    (hp : ∀ x ∈ past, Heard env setting I w x) {watch : Watch} (hw : watch.stopped = true → env.interrupted w = true)
    (h : (past.foldl Worker.next watch).stopped = true) : env.interrupted w = true := by
  induction past generalizing watch with
  | nil => exact hw h
  | cons x past ih =>
    refine ih (fun y hy => hp y (List.mem_cons_of_mem x hy)) (fun hs => ?_) h
    have hx := hp x (List.mem_cons_self ..)
    match x with
    | ⟨.interrupted, b⟩ =>
      rcases Bool.or_eq_true_iff.mp hs with hs | hs
      · exact hw hs
      · exact hx.2 hs
    | ⟨.fix r, (e : FixEnd)⟩ =>
      rcases Bool.or_eq_true_iff.mp hs with hs | hs
      · exact hw hs
      · rcases hx with ⟨v, -, rfl⟩ | ⟨-, hi⟩
        · exact absurd (beq_iff_eq.mp hs) (fixEnd_ne_interrupted _ _)
        · exact hi
    | ⟨.time, _⟩ | ⟨.errand _, _⟩ | ⟨.tell _, _⟩ | ⟨.write _, _⟩ | ⟨.lock, _⟩ | ⟨.unlock, _⟩ => exact hw hs

/-! ### Hands -/

/-- A worker: the item that it has, what it asked and heard, and what it will do. -/
structure Hand where
  item : Item
  past : List (Exchange WorkerCall WorkerCall.Answer)
  talk : Worker.Talk Outcome

namespace Hand

/-- Whether it took the lock and did not give it back. -/
def held (h : Hand) : Bool := (h.past.foldl Worker.next {}).held

/-- How much it may still ask. -/
def left (h : Hand) : Nat := Worker.patience - h.past.length

variable (env setting I) in
/-- It is in the course of its work, and all that it heard is true. -/
structure Ok (w : σ) (h : Hand) : Prop where
  leads : Leads (Worker.work setting h.item) h.past h.talk
  heard : ∀ x ∈ h.past, Heard env setting I w x

variable {w w' : σ} {i : Item} {past : List (Exchange WorkerCall WorkerCall.Answer)} {c : WorkerCall}
  {k : c.Answer → Worker.Talk Outcome}

theorem Ok.mono {h : Hand} (hh : h.Ok env setting I w) (hw : env.Onward I w w') : h.Ok env setting I w' :=
  ⟨hh.leads, fun x hx => (hh.heard x hx).mono hw⟩

theorem ok_begin (w : σ) (i : Item) : Ok env setting I w ⟨i, [], Worker.work setting i⟩ :=
  ⟨.refl _, by simp⟩

theorem Ok.hear (h : Ok env setting I w ⟨i, past, .ask c k⟩) (b : c.Answer) (hw : env.Onward I w w')
    (hb : Heard env setting I w' ⟨c, b⟩) : Ok env setting I w' ⟨i, past ++ [⟨c, b⟩], k b⟩ := by
  refine ⟨h.leads.snoc b, fun x hx => ?_⟩
  rcases List.mem_append.mp hx with hx | hx
  · exact (h.heard x hx).mono hw
  · rw [List.mem_singleton.mp hx]
    exact hb

theorem Ok.left_pos (h : Ok env setting I w ⟨i, past, .ask c k⟩) : past.length < Worker.patience := by
  obtain ⟨-, hn⟩ := (Worker.work_within setting i).leads h.leads
  have hne : Worker.patience - past.length ≠ 0 := by
    intro h0
    rw [h0] at hn
    exact hn
  omega

theorem Ok.safe {h : Hand} (hh : h.Ok env setting I w) :
    Safe Worker.allow Worker.next (fun v o => Worker.Returned setting h.item v o) (h.past.foldl Worker.next {})
      h.talk :=
  (Worker.work_safe setting h.item).leads hh.leads

theorem Ok.returned {o : Outcome} (h : Ok env setting I w ⟨i, past, .done o⟩) :
    Worker.Returned setting i (past.foldl Worker.next {}) o := h.safe

/-- The hand after one more answer that has nothing to do with the lock. -/
structure Next (h h' : Hand) : Prop where
  item : h'.item = h.item
  held : h'.held = h.held
  length : h'.past.length = h.past.length + 1

theorem next_of_held {b : c.Answer} (hc : ∀ v : Watch, (Worker.next v ⟨c, b⟩).held = v.held)
    (t : Worker.Talk Outcome) : Next ⟨i, past, t⟩ ⟨i, past ++ [⟨c, b⟩], k b⟩ := by
  refine ⟨rfl, ?_, by simp⟩
  unfold held
  rw [List.foldl_append]
  exact hc _

theorem held_lock (t : Worker.Talk Outcome) : held ⟨i, past ++ [⟨.lock, ()⟩], t⟩ = true := by
  unfold held
  rw [List.foldl_append]
  rfl

theorem held_unlock (t : Worker.Talk Outcome) : held ⟨i, past ++ [⟨.unlock, ()⟩], t⟩ = false := by
  unfold held
  rw [List.foldl_append]
  rfl

end Hand

variable (env setting I) in
/-- A worker that asked for something that takes time, and how it sleeps until then. -/
inductive Naps : Hand → Sleeper → Prop
  | errand {i : Item} {past : List (Exchange WorkerCall WorkerCall.Answer)} {e : Errand}
      {k : e.Answer → Worker.Talk Outcome} {v : σ} {ms : Nat} (hv : I v) :
      Naps ⟨i, past, .ask (.errand e) k⟩ ⟨ms, k (env.errand e v).1.answer, none⟩
  | fix {i : Item} {past : List (Exchange WorkerCall WorkerCall.Answer)} {r : FixRequest}
      {k : FixEnd → Worker.Talk Outcome} {v : σ} {ms : Nat} (hv : I v) :
      Naps ⟨i, past, .ask (.fix r) k⟩
        ⟨ms, k (fixEnd setting.limits.budgetMs (env.fix r v).1), some (k .interrupted)⟩

namespace Naps

variable {h : Hand} {s : Sleeper} {w : σ}

theorem left_pos (hn : Naps env setting I h s) (ho : h.Ok env setting I w) : h.past.length < Worker.patience := by
  cases hn with
  | errand => exact ho.left_pos
  | fix => exact ho.left_pos

theorem wake (hn : Naps env setting I h s) (ho : h.Ok env setting I w) (hw : I w) :
    ∃ h' : Hand, h'.talk = s.talk ∧ h.Next h' ∧ h'.Ok env setting I w := by
  cases hn with
  | errand hv => exact ⟨_, rfl, Hand.next_of_held (fun _ => rfl) _, ho.hear _ (.refl hw) ⟨_, hv, rfl⟩⟩
  | fix hv => exact ⟨_, rfl, Hand.next_of_held (fun _ => rfl) _, ho.hear _ (.refl hw) (.inl ⟨_, hv, rfl⟩)⟩

theorem rouse (hn : Naps env setting I h s) (ho : h.Ok env setting I w) (hw : I w)
    (hi : env.interrupted w = true) {t : Worker.Talk Outcome} (ht : s.onInterrupt = some t) :
    ∃ h' : Hand, h'.talk = t ∧ h.Next h' ∧ h'.Ok env setting I w := by
  cases hn with
  | errand hv => cases ht
  | fix hv =>
    cases ht
    exact ⟨_, rfl, Hand.next_of_held (fun _ => rfl) _, ho.hear _ (.refl hw) (.inr ⟨rfl, hi⟩)⟩

end Naps

/-- The workers of a pool, as hands. -/
structure Staff where
  /-- The one that goes on at the moment, if there is one. -/
  now : List Hand := []
  ready : List Hand := []
  sleeping : List (Hand × Sleeper) := []
  atLock : List Hand := []
  finished : List Hand := []

variable (env setting I) in
/-- A pool and its staff agree, where the pool has these workers, was given these items and began in world `w`. -/
structure Books (items : List Item) (workers : Nat) (w : σ) (p : Pool σ) (s : Staff) : Prop where
  world : env.Onward I w p.world
  ready : p.ready = s.ready.map (·.talk)
  sleeping : p.sleeping = s.sleeping.map (·.2)
  atLock : p.atLock = s.atLock.map (·.talk)
  finished : p.finished.map .done = s.finished.map (·.talk)
  okNow : ∀ h ∈ s.now, h.Ok env setting I p.world
  okReady : ∀ h ∈ s.ready, h.Ok env setting I p.world
  okSleeping : ∀ n ∈ s.sleeping, n.1.Ok env setting I p.world
  okAtLock : ∀ h ∈ s.atLock, h.Ok env setting I p.world
  okFinished : ∀ h ∈ s.finished, h.Ok env setting I p.world
  naps : ∀ n ∈ s.sleeping, Naps env setting I n.1 n.2
  items : ∀ i, p.entering.count i + p.waiting.count i + (s.now.map (·.item)).count i + (s.ready.map (·.item)).count i +
    (s.sleeping.map (·.1.item)).count i + (s.atLock.map (·.item)).count i + (s.finished.map (·.item)).count i =
      items.count i
  permits : p.free + s.now.length + s.ready.length + s.sleeping.length + s.atLock.length = workers
  idle : p.waiting ≠ [] → p.free = 0
  holders : s.now.countP (·.held) + s.ready.countP (·.held) + (s.sleeping.map (·.1)).countP (·.held) =
    if p.locked then 1 else 0
  queue : s.atLock ≠ [] → p.locked = true
  queued : ∀ h ∈ s.atLock, h.held = true

/-- How much the workers of a pool may still do. It gets less with everything that one of them does. -/
def load (p : Pool σ) (s : Staff) : Nat :=
  (2 * Worker.patience + 2) * p.entering.length + (2 * Worker.patience + 1) * p.waiting.length +
    (s.now.map fun h => 2 * h.left + 1).sum + (s.ready.map fun h => 2 * h.left + 1).sum +
    (s.sleeping.map fun n => 2 * n.1.left).sum + (s.atLock.map fun h => 2 * h.left + 1).sum

end Pool

end WorkWaves
