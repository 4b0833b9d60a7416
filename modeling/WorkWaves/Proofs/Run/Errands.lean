import WorkWaves.Proofs.Run.Pool

/-!
# Whose workspaces a pool asks for

A worker asks for the workspace of its own item and for no other one (`Worker.work_asks`). So a pool keeps what is kept
by making the workspaces of its items and by everything else that can be asked for (`Pool.run_keeps`).
-/

namespace WorkWaves

open Dialogue

namespace Worker

variable {α : Type} {ids : List String}

/-- A call that asks for no workspace, or for that of an item with one of the ids. -/
def Grants (ids : List String) : WorkerCall → Prop
  | .errand (.create id) => id ∈ ids
  | _ => True

/-- All that is asked for is granted, whatever the answers are. -/
abbrev Asks (ids : List String) (d : Talk α) : Prop :=
  Safe (κ := Unit) (fun _ c => Grants ids c) (fun _ _ => ()) (fun _ _ => True) () d

theorem integrate_asks (ids : List String) (x : Exclusions) (w : Workspace) (message : String) :
    Asks ids ((Merge.integrate x w message).within (mergeCall w)) := by
  refine (Safe.all (fun _ _ => ()) () (Merge.integrate x w message)).within fun _ c _ => ?_
  cases c <;> exact ⟨trivial, fun _ => rfl⟩

theorem record_asks (ids : List String) (s : Setting) (item : Item) (w : Workspace) :
    Asks ids (record s item w) := by
  refine ⟨trivial, ?_⟩
  rintro (e | (_ | _))
  · trivial
  · trivial
  · exact (integrate_asks ids s.exclusions w _).andThen fun _ _ _ => trivial

theorem fixAndRecord_asks (ids : List String) (s : Setting) (item : Item) (w : Workspace) :
    Asks ids (fixAndRecord s item w) := by
  refine ⟨trivial, ?_⟩
  rintro (r | e | _ | _)
  · exact Safe.ite (fun _ => record_asks ids s item w) fun _ => trivial
  · trivial
  · trivial
  · trivial

theorem execute_asks (s : Setting) {item : Item} (h : item.id ∈ ids) : Asks ids (execute s item) := by
  refine ⟨h, ?_⟩
  rintro (e | w)
  · trivial
  · refine ⟨trivial, fun _ => (fixAndRecord_asks ids s item w).andThen fun _ e _ => ?_⟩
    refine Safe.ite (fun _ => ⟨trivial, fun _ => trivial⟩) fun _ => ⟨trivial, ?_⟩
    rintro (e' | ⟨⟩)
    · exact ⟨trivial, fun _ => trivial⟩
    · trivial

/-- A worker asks for no workspace but that of its item. -/
theorem work_asks (s : Setting) {item : Item} (h : item.id ∈ ids) : Asks ids (work s item) := by
  refine ⟨trivial, ?_⟩
  rintro (_ | _)
  · refine ⟨trivial, fun _ => ⟨trivial, fun _ => (execute_asks s h).andThen fun _ _ _ => ?_⟩⟩
    exact ⟨trivial, fun _ => ⟨trivial, fun _ => ⟨trivial, fun _ => trivial⟩⟩⟩
  · trivial

end Worker

/-- A property of worlds is kept by all that workers ask for if they ask for workspaces of these items only. -/
structure Surroundings.Keeps {σ : Type} (env : Surroundings σ) (ids : List String) (J : σ → Prop) : Prop where
  errand : ∀ e w, Worker.Grants ids (.errand e) → J w → J (env.errand e w).2
  fix : ∀ r w, J w → J (env.fix r w).2
  tell : ∀ e w, J w → J (env.tell e w)
  write : ∀ r w, J w → J (env.write r w)
  pass : ∀ t w, J w → J (env.pass t w)

namespace Pool

variable {σ : Type} {env : Surroundings σ} {setting : Worker.Setting} {ids : List String} {J : σ → Prop} {p : Pool σ}

/-- All that the workers of a pool may still ask for is granted. -/
structure Tame (ids : List String) (J : σ → Prop) (p : Pool σ) : Prop where
  world : J p.world
  entering : ∀ i ∈ p.entering, i.id ∈ ids
  waiting : ∀ i ∈ p.waiting, i.id ∈ ids
  ready : ∀ t ∈ p.ready, Worker.Asks ids t
  sleeping : ∀ s ∈ p.sleeping, Worker.Asks ids s.talk ∧ ∀ t ∈ s.onInterrupt, Worker.Asks ids t
  atLock : ∀ t ∈ p.atLock, Worker.Asks ids t

namespace Tame

variable (env) in
theorem rouse (h : Tame ids J p) : Tame ids J (p.rouse env) := by
  unfold Pool.rouse
  split
  · refine { h with ready := fun t ht => ?_, sleeping := fun s hs => h.sleeping s ((List.mem_filter.mp hs).1) }
    rcases List.mem_append.mp ht with ht | ht
    · exact h.ready t ht
    · obtain ⟨s, hs, hst⟩ := List.mem_filterMap.mp ht
      exact (h.sleeping s hs).2 t hst
  · exact h

theorem finish (h : Tame ids J p) (o : Outcome) : Tame ids J (p.finish env setting o) := by
  have hr := h.rouse env
  unfold Pool.finish
  dsimp only
  split
  · exact { hr with }
  · next item rest hw =>
    have hwaiting := hr.waiting
    rw [hw] at hwaiting
    obtain ⟨hitem, hrest⟩ := List.forall_mem_cons.mp hwaiting
    refine { hr with waiting := hrest, ready := fun t ht => ?_ }
    rcases List.mem_append.mp ht with ht | ht
    · exact hr.ready t ht
    · rw [List.mem_singleton.mp ht]
      exact Worker.work_asks setting hitem

theorem sleep (h : Tame ids J p) {ms : Nat} {talk : Worker.Talk Outcome} {onInterrupt : Option (Worker.Talk Outcome)}
    (ht : Worker.Asks ids talk) (hi : ∀ t ∈ onInterrupt, Worker.Asks ids t) :
    Tame ids J (p.sleep env ms talk onInterrupt) := by
  refine { h with sleeping := fun s hs => ?_ }
  rcases List.mem_append.mp hs with hs | hs
  · exact h.sleeping s hs
  · rw [List.mem_singleton.mp hs]
    exact ⟨ht, hi⟩

theorem onward (h : Tame ids J p) {w : σ} (hw : J w) : Tame ids J { p with world := w } := { h with world := hw }

theorem advance (henv : env.Keeps ids J) {talk : Worker.Talk Outcome} (ht : Worker.Asks ids talk)
    (h : Tame ids J p) : Tame ids J (advance env setting talk p) := by
  induction talk generalizing p with
  | done o => exact h.finish o
  | ask c k ih =>
    obtain ⟨hc, hk⟩ := ht
    cases c with
    | interrupted | time => exact ih _ (hk _) h
    | tell e => exact ih _ (hk _) (h.onward (henv.tell e _ h.world))
    | write r => exact ih _ (hk _) (h.onward (henv.write r _ h.world))
    | lock =>
      unfold Pool.advance
      split
      · refine { h with atLock := fun t ht => ?_ }
        rcases List.mem_append.mp ht with ht | ht
        · exact h.atLock t ht
        · rw [List.mem_singleton.mp ht]
          exact hk ()
      · exact ih _ (hk ()) { h with }
    | unlock =>
      have hr := h.rouse env
      unfold Pool.advance
      dsimp only
      split
      · exact ih _ (hk ()) { hr with }
      · next next rest hl =>
        have hatLock := hr.atLock
        rw [hl] at hatLock
        obtain ⟨hnext, hrest⟩ := List.forall_mem_cons.mp hatLock
        refine ih _ (hk ()) { hr with atLock := hrest, ready := fun t ht => ?_ }
        rcases List.mem_append.mp ht with ht | ht
        · exact hr.ready t ht
        · rw [List.mem_singleton.mp ht]
          exact hnext
    | fix r =>
      have hw := h.onward (henv.fix r _ h.world)
      unfold Pool.advance
      dsimp only
      split
      · exact ih _ (hk _) hw
      · split
        · exact ih _ (hk _) hw
        · exact hw.sleep (hk _) fun t ht => by cases ht; exact hk _
    | errand e =>
      have hw := h.onward (henv.errand e _ hc h.world)
      unfold Pool.advance
      dsimp only
      split
      · exact ih _ (hk _) hw
      · exact hw.sleep (hk _) fun t ht => by cases ht

theorem enter (henv : env.Keeps ids J) {i : Item} (hi : i.id ∈ ids) (h : Tame ids J p) :
    Tame ids J (enter env setting i p) := by
  unfold Pool.enter
  split
  · refine { h with waiting := fun j hj => ?_ }
    rcases List.mem_append.mp hj with hj | hj
    · exact h.waiting j hj
    · rwa [List.mem_singleton.mp hj]
  · exact advance henv (Worker.work_asks setting hi) { h with }

theorem wake (henv : env.Keeps ids J) {s : Sleeper} {others : List Sleeper} (h : Tame ids J p)
    (hs : firstToWake p.sleeping = some (s, others)) : Tame ids J (p.wake env s others) := by
  have hw := henv.pass s.wakeAt _ h.world
  obtain ⟨pre, post, hsleeping, rfl⟩ := firstToWake_eq_some hs
  have hall := h.sleeping
  rw [hsleeping] at hall
  unfold Pool.wake
  dsimp only
  split
  · exact h.onward hw
  · refine { h with
      world := henv.pass _ _ hw
      sleeping := fun t ht => hall t ?_
      ready := List.forall_mem_singleton.mpr (hall s (by simp)).1 }
    rcases List.mem_append.mp ht with ht | ht <;> simp [ht]

theorem drive (henv : env.Keeps ids J) (fuel : Nat) (h : Tame ids J p) : Tame ids J (drive env setting fuel p) := by
  induction fuel generalizing p with
  | zero => exact h
  | succ fuel ih =>
    have hr := h.rouse env
    unfold Pool.drive
    dsimp only
    split
    · next item rest he =>
      have hentering := hr.entering
      rw [he] at hentering
      obtain ⟨hitem, hrest⟩ := List.forall_mem_cons.mp hentering
      exact ih (enter henv hitem { hr with entering := hrest })
    · next talk rest _ hl =>
      have hready := hr.ready
      rw [hl] at hready
      obtain ⟨htalk, hrest⟩ := List.forall_mem_cons.mp hready
      exact ih (advance henv htalk { hr with ready := hrest })
    · split
      · next s others hs => exact ih (hr.wake henv hs)
      · exact hr

end Tame

/-- A pool keeps what is kept by all that can be asked for its items. -/
theorem run_keeps {items : List Item} {w : σ} (henv : env.Keeps ids J) (hids : ∀ i ∈ items, i.id ∈ ids) (hw : J w) :
    J (run env setting items w).2 := by
  have h : Tame ids J (start (setting.limits.workersFor items.length) items w) :=
    ⟨hw, hids, by simp [start], by simp [start], by simp [start], by simp [start]⟩
  exact (h.drive henv _).world

end Pool

end WorkWaves
