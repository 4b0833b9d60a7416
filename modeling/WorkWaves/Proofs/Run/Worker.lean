import WorkWaves.Run.Worker
import WorkWaves.Proofs.Merge.Course

/-!
# The course of a worker

However a worker is answered, it holds the lock only around its merge and ends in an outcome for its own item
(`work_safe`): not started or interrupted only after an interrupt, else completed, failed or out of time. It
asks no more than `Worker.patience` allows (`work_within`).
-/

namespace WorkWaves

open Dialogue

namespace Worker

/-- What a worker must not ask: for the lock while it holds it, and to give it back while it does not. -/
def allow (w : Watch) : WorkerCall → Prop
  | .lock => w.held = false
  | .unlock => w.held = true
  | _ => True

def next (w : Watch) : Exchange WorkerCall WorkerCall.Answer → Watch
  | ⟨.lock, _⟩ => { w with held := true }
  | ⟨.unlock, _⟩ => { w with held := false }
  | ⟨.interrupted, b⟩ => { w with stopped := w.stopped || b }
  | ⟨.fix _, (e : FixEnd)⟩ => { w with stopped := w.stopped || e == .interrupted }
  | _ => w

/-- An item ends in one of the ways in which a worker can end it; it is interrupted only by an interrupt. -/
def EndsWell (w : Watch) (status : Status) : Prop :=
  status = .completed ∨ status = .failed ∨ status = .timeout ∨ status = .interrupted ∧ w.stopped = true

theorem EndsWell.allows {w : Watch} {status : Status} (h : EndsWell w status) :
    Status.running.allows status = true := by
  rcases h with rfl | rfl | rfl | ⟨rfl, -⟩ <;> rfl

theorem EndsWell.isTerminal {w : Watch} {status : Status} (h : EndsWell w status) : status.isTerminal = true := by
  rcases h with rfl | rfl | rfl | ⟨rfl, -⟩ <;> rfl

theorem mergeCall_safe (v : Workspace) (w : Watch) (c : MergeCall) (hc : Merge.allow w c) :
    Safe allow next (fun w' r => w' = Merge.next w ⟨c, r⟩) w (mergeCall v c) := by
  cases c with
  | lock => exact ⟨hc, fun _ => rfl⟩
  | unlock => exact ⟨hc, fun _ => rfl⟩
  | interrupted => exact ⟨trivial, fun _ => rfl⟩
  | repository c => exact ⟨trivial, fun _ => rfl⟩
  | write r => exact ⟨trivial, fun _ => rfl⟩

abbrev EndSafe (w : Watch) (d : Talk End) : Prop :=
  Safe allow next (fun w' e => w'.held = false ∧ EndsWell w' e.status) w d

theorem record_safe (w : Watch) (hw : w.held = false) (s : Setting) (item : Item) (v : Workspace) :
    EndSafe w (record s item v) := by
  refine ⟨trivial, ?_⟩
  rintro (e | (_ | _))
  · exact ⟨hw, .inr (.inl rfl)⟩
  · exact ⟨hw, .inl rfl⟩
  · refine ((Merge.integrate_safe w hw s.exclusions v _).within (mergeCall_safe v)).andThen ?_
    rintro w' (e | (_ | files | _)) ⟨hw', hr⟩
    · exact ⟨hw', .inr (.inl rfl)⟩
    · exact ⟨hw', .inl rfl⟩
    · exact ⟨hw', .inr (.inl rfl)⟩
    · exact ⟨hw', .inr (.inr (.inr ⟨rfl, hr rfl⟩))⟩

theorem fixAndRecord_safe (w : Watch) (hw : w.held = false) (s : Setting) (item : Item) (v : Workspace) :
    EndSafe w (fixAndRecord s item v) := by
  refine ⟨trivial, ?_⟩
  rintro (r | e | _ | _)
  · refine Safe.ite (fun _ => record_safe (next w ⟨.fix _, FixEnd.finished r⟩) hw s item v) fun _ => ?_
    exact ⟨hw, .inr (.inl rfl)⟩
  · exact ⟨hw, .inr (.inl rfl)⟩
  · exact ⟨hw, .inr (.inr (.inl rfl))⟩
  · exact ⟨hw, .inr (.inr (.inr ⟨rfl, Bool.or_true _⟩))⟩

theorem execute_safe (w : Watch) (hw : w.held = false) (s : Setting) (item : Item) :
    EndSafe w (execute s item) := by
  refine ⟨trivial, ?_⟩
  rintro (e | v)
  · exact ⟨hw, .inr (.inl rfl)⟩
  · refine ⟨trivial, fun _ => (fixAndRecord_safe w hw s item v).andThen fun w' e he => ?_⟩
    refine Safe.ite (fun _ => ⟨trivial, fun _ => he⟩) fun _ => ⟨trivial, ?_⟩
    rintro (e' | ⟨⟩)
    · exact ⟨trivial, fun _ => he⟩
    · exact he

/-- What is known of an outcome when the work on the item is over. -/
structure Returned (s : Setting) (item : Item) (w : Watch) (o : Outcome) : Prop where
  itemId : o.itemId = item.id
  waveIndex : o.waveIndex = some s.waveIndex
  notStarted : o.started = false → o.status = .pending ∧ w.stopped = true
  started : o.started = true → EndsWell w o.status
  released : w.held = false

theorem work_safe (s : Setting) (item : Item) :
    Safe allow next (fun w o => Returned s item w o) {} (work s item) := by
  refine ⟨trivial, ?_⟩
  rintro (_ | _)
  · refine ⟨trivial, fun start => ⟨trivial, fun _ => (execute_safe _ rfl s item).andThen ?_⟩⟩
    rintro w e ⟨hw, he⟩
    exact ⟨trivial, fun stop => ⟨trivial, fun _ => ⟨trivial, fun _ => ⟨rfl, rfl, by simp [outcome], fun _ => he, hw⟩⟩⟩⟩
  · exact ⟨rfl, rfl, fun _ => ⟨rfl, rfl⟩, by simp [Outcome.notStarted], rfl⟩

/-! ### How much a worker asks -/

theorem mergeCall_within (v : Workspace) (c : MergeCall) : (mergeCall v c).Within 1 := by
  cases c <;> exact fun _ => trivial

theorem record_within (s : Setting) (item : Item) (v : Workspace) : (record s item v).Within 20 := by
  rintro (e | (_ | _))
  · trivial
  · trivial
  · exact ((Merge.integrate_within s.exclusions v _).within (mergeCall_within v)).andThen (n := 0) fun _ => trivial

theorem fixAndRecord_within (s : Setting) (item : Item) (v : Workspace) :
    (fixAndRecord s item v).Within 21 := by
  rintro (r | e | _ | _)
  · exact Within.ite (fun _ => record_within s item v) fun _ => trivial
  · trivial
  · trivial
  · trivial

theorem execute_within (s : Setting) (item : Item) : (execute s item).Within 25 := by
  rintro (e | v)
  · trivial
  · refine fun _ => (fixAndRecord_within s item v).andThen (n := 2) fun e => ?_
    refine Within.ite (fun _ _ => trivial) fun _ => ?_
    rintro (e' | ⟨⟩)
    · exact fun _ => trivial
    · trivial

theorem work_within (s : Setting) (item : Item) : (work s item).Within patience := by
  rintro (_ | _)
  · refine fun start _ => Within.mono (m := 28) ?_ (by decide)
    exact (execute_within s item).andThen (n := 3) fun e stop _ _ => trivial
  · trivial

end Worker

end WorkWaves
