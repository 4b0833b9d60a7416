import Mathlib.Data.List.Induction
import WorkWaves.Proofs.Run.Errands
import WorkWaves.Proofs.Run.Kept
import WorkWaves.Proofs.State.Store

/-!
# What lasts of a run

A `Ledger` shows what lasts of what is done in a world: the files, and the deeds, which are the states that were saved
and the workspaces that were made, in their order. `Ledger.Coherent` says that no deed undoes what is completed: a
state that is saved upholds those saved before, and no workspace is made for what one of them has as completed.
Whatever the workers return and whenever an interrupt comes, a run keeps that (`Ledger.Shows.keeps`).
-/

namespace WorkWaves

/-- What is done and lasts. -/
inductive Deed where
  | saved (state : RunState)
  /-- A workspace was asked for, whether or not there is one then. -/
  | created (itemId : String)

namespace Deed

def state? : Deed → Option RunState
  | .saved s => some s
  | .created _ => none

def itemId? : Deed → Option String
  | .saved _ => none
  | .created id => some id

/-- The second deed may come after the first one: it takes back nothing that is completed. -/
def Allows : Deed → Deed → Prop
  | .saved s, .saved t => s.UpheldBy t
  | .saved s, .created id => s.status? id ≠ some .completed
  | .created _, _ => True

/-- The state that was saved last. -/
def lastSaved (ds : List Deed) : Option RunState := (ds.filterMap state?).getLast?

variable {ds : List Deed} {d : Deed} {s t : RunState}

theorem Allows.saved (h : d.Allows (.saved s)) (hs : s.UpheldBy t) : d.Allows (.saved t) := by
  cases d with
  | saved u => exact RunState.UpheldBy.trans h hs
  | created id => trivial

theorem Allows.created {id : String} (h : d.Allows (.saved s)) (hid : s.status? id ≠ some .completed) :
    d.Allows (.created id) := by
  cases d with
  | saved u => exact fun hu => hid ((congrArg Prod.fst (h id hu)).trans hu)
  | created id => trivial

theorem pairwise_concat (h : ds.Pairwise Allows) (hd : ∀ e ∈ ds, e.Allows d) : (ds ++ [d]).Pairwise Allows :=
  List.pairwise_append.mpr ⟨h, List.pairwise_singleton .., fun e he _ hf => List.mem_singleton.mp hf ▸ hd e he⟩

theorem lastSaved_concat_saved : lastSaved (ds ++ [.saved s]) = some s := by
  simp [lastSaved, state?]

theorem lastSaved_concat_created {id : String} : lastSaved (ds ++ [.created id]) = lastSaved ds := by
  simp [lastSaved, state?]

theorem allows_of_lastSaved_eq_none (h : lastSaved ds = none) : ∀ e ∈ ds, e.Allows d := by
  intro e he
  cases e with
  | created id => trivial
  | saved s =>
    rw [lastSaved, List.getLast?_eq_none_iff, List.filterMap_eq_nil_iff] at h
    cases h _ he

/-- The state that was saved last may be saved again. -/
theorem allows_of_lastSaved (h : ds.Pairwise Allows) (ht : lastSaved ds = some t) : ∀ e ∈ ds, e.Allows (.saved t) := by
  induction ds using List.reverseRecOn with
  | nil => simp
  | append_singleton ds d ih =>
    obtain ⟨hds, -, hd⟩ := List.pairwise_append.mp h
    intro e he
    cases d with
    | saved s =>
      rw [lastSaved_concat_saved] at ht
      cases ht
      rcases List.mem_append.mp he with he | he
      · exact hd e he _ (List.mem_singleton_self _)
      · rw [List.mem_singleton.mp he]
        exact RunState.UpheldBy.refl t
    | created id =>
      rw [lastSaved_concat_created] at ht
      rcases List.mem_append.mp he with he | he
      · exact ih hds ht e he
      · rw [List.mem_singleton.mp he]
        trivial

end Deed

/-- What an errand leaves on record. -/
def Errand.deeds : Errand → List Deed
  | .create id => [.created id]
  | .commit _ _ | .remove _ | .repository _ _ => []

/-- How it is seen of a world what lasts in it: where the state is kept, the files and the deeds. -/
structure Ledger (σ : Type) where
  store : StateStore
  files : σ → FileTree
  deeds : σ → List Deed

namespace Ledger

variable {σ : Type} (l : Ledger σ)

/-- The state that is kept in a world. -/
def kept (w : σ) : Except StateError (Option RunState) := l.store.load (l.files w)

/-- From one world to another, in which `I` holds, the kept state stays and some deeds are added. -/
structure Adds (I : σ → Prop) (ds : List Deed) (w w' : σ) : Prop where
  fits : I w'
  kept : l.kept w' = l.kept w
  deeds : l.deeds w' = l.deeds w ++ ds

/-- In all worlds with `I`, the surroundings save with the store, which does not fail, and nothing else touches the kept
state. What lasts is on record. -/
structure Shows (I : σ → Prop) (env : Surroundings σ) : Prop where
  anchored : ∀ w, I w → (l.files w).Anchored
  clock : ∀ w, I w → (env.now w).Valid
  stored : ∀ s w, I w → l.store.save s (l.files w) = (l.files (env.save s w).2, (env.save s w).1)
  succeeds : ∀ s w, I w → (env.save s w).1 = .ok ()
  saved : ∀ s w, I w → I (env.save s w).2 ∧ l.deeds (env.save s w).2 = l.deeds w ++ [.saved s]
  errand : ∀ e w, I w → l.Adds I e.deeds w (env.errand e w).2
  fix : ∀ r w, I w → l.Adds I [] w (env.fix r w).2
  tell : ∀ e w, I w → l.Adds I [] w (env.tell e w)
  write : ∀ r w, I w → l.Adds I [] w (env.write r w)
  pass : ∀ t w, I w → l.Adds I [] w (env.pass t w)

/-- No deed undoes what is completed, and the kept state is the one that was saved last. -/
structure Coherent (w : σ) : Prop where
  chronicle : (l.deeds w).Pairwise Deed.Allows
  kept : ∀ t, Deed.lastSaved (l.deeds w) = some t → l.kept w = .ok (some t)

/-- Since the deeds in `past`, nothing was done that a state does not allow. -/
def Heeds (past : List Deed) (origin : RunState) (w : σ) : Prop :=
  ∃ ds, l.deeds w = past ++ ds ∧ ∀ d ∈ ds, (Deed.saved origin).Allows d

/-- The world of a run that began with the state `origin` after the deeds in `past`, and the state that it has now. -/
structure Sound (I : σ → Prop) (past : List Deed) (origin : RunState) (w : σ) (s : RunState) : Prop
    extends l.Coherent w where
  fits : I w
  heeds : l.Heeds past origin w
  upholds : origin.UpheldBy s
  allows : ∀ d ∈ l.deeds w, d.Allows (.saved s)
  writable : s.Writable

variable {l} {I : σ → Prop} {past : List Deed} {origin s t : RunState} {w w' : σ} {env : Surroundings σ}

theorem Heeds.concat {d : Deed} (h : l.Heeds past origin w) (hdeeds : l.deeds w' = l.deeds w ++ [d])
    (hd : (Deed.saved origin).Allows d) : l.Heeds past origin w' := by
  obtain ⟨ds, hds, hall⟩ := h
  exact ⟨ds ++ [d], by rw [hdeeds, hds, List.append_assoc],
    List.forall_mem_append.mpr ⟨hall, List.forall_mem_singleton.mpr hd⟩⟩

namespace Sound

theorem adds_nil (h : l.Sound I past origin w s) (ha : l.Adds I [] w w') : l.Sound I past origin w' s := by
  have hdeeds : l.deeds w' = l.deeds w := ha.deeds.trans (List.append_nil _)
  refine ⟨⟨?_, ?_⟩, ha.fits, ?_, h.upholds, ?_, h.writable⟩
  · exact hdeeds ▸ h.chronicle
  · exact fun t ht => ha.kept.trans (h.kept t (hdeeds ▸ ht))
  · obtain ⟨ds, hds, hall⟩ := h.heeds
    exact ⟨ds, hdeeds.trans hds, hall⟩
  · exact hdeeds ▸ h.allows

/-- A deed is added that may come after all states that the present one upholds, and before it is saved. -/
theorem add {d : Deed} (h : l.Sound I past origin w s) (hfits : I w') (hdeeds : l.deeds w' = l.deeds w ++ [d])
    (hafter : ∀ e : Deed, e.Allows (.saved s) → e.Allows d) (hbefore : d.Allows (.saved s))
    (hkept : ∀ t, Deed.lastSaved (l.deeds w') = some t → l.kept w' = .ok (some t)) :
    l.Sound I past origin w' s := by
  refine ⟨⟨?_, hkept⟩, hfits, h.heeds.concat hdeeds (hafter _ h.upholds), h.upholds, ?_, h.writable⟩ <;> rw [hdeeds]
  · exact Deed.pairwise_concat h.chronicle fun e he => hafter e (h.allows e he)
  · exact List.forall_mem_append.mpr ⟨h.allows, List.forall_mem_singleton.mpr hbefore⟩

theorem adds_created {id : String} (h : l.Sound I past origin w s) (ha : l.Adds I [.created id] w w')
    (hid : s.status? id ≠ some .completed) : l.Sound I past origin w' s := by
  refine h.add ha.fits ha.deeds (fun e he => he.created hid) trivial fun t ht => ?_
  rw [ha.deeds, Deed.lastSaved_concat_created] at ht
  exact ha.kept.trans (h.kept t ht)

theorem save (h : l.Sound I past origin w s) (henv : l.Shows I env) : l.Sound I past origin (env.save s w).2 s := by
  obtain ⟨hfits, hdeeds⟩ := henv.saved s w h.fits
  refine h.add hfits hdeeds (fun _ he => he) (RunState.UpheldBy.refl s) fun t ht => ?_
  rw [hdeeds, Deed.lastSaved_concat_saved] at ht
  cases ht
  refine StateStore.load_of_save (henv.anchored w h.fits) h.writable ((henv.stored s w h.fits).trans ?_)
  rw [henv.succeeds s w h.fits]

/-- The state may become one that upholds it. -/
theorem upheld (h : l.Sound I past origin w s) (ht : t.Writable) (hst : s.UpheldBy t) : l.Sound I past origin w t :=
  ⟨h.toCoherent, h.fits, h.heeds, h.upholds.trans hst, fun d hd => (h.allows d hd).saved hst, ht⟩

end Sound

theorem Shows.pool (henv : l.Shows I env) (setting : Worker.Setting) {items : List Item}
    (h : l.Sound I past origin w s) (hitems : ∀ i ∈ items, s.status? i.id ≠ some .completed) :
    l.Sound I past origin (Pool.run env setting items w).2 s := by
  have hkeeps : env.Keeps (items.map (·.id)) fun w => l.Sound I past origin w s :=
    { errand := fun e w he hw => by
        cases e with
        | create id =>
          obtain ⟨i, hi, rfl⟩ := List.mem_map.mp he
          exact hw.adds_created (henv.errand (.create i.id) w hw.fits) (hitems i hi)
        | commit v message => exact hw.adds_nil (henv.errand (.commit v message) w hw.fits)
        | remove v => exact hw.adds_nil (henv.errand (.remove v) w hw.fits)
        | repository v c => exact hw.adds_nil (henv.errand (.repository v c) w hw.fits)
      fix := fun r w hw => hw.adds_nil (henv.fix r w hw.fits)
      tell := fun e w hw => hw.adds_nil (henv.tell e w hw.fits)
      write := fun r w hw => hw.adds_nil (henv.write r w hw.fits)
      pass := fun t w hw => hw.adds_nil (henv.pass t w hw.fits) }
  exact Pool.run_keeps hkeeps (fun i hi => List.mem_map_of_mem hi) h

/-- A run keeps its ledger sound if its waves can be counted. -/
theorem Shows.keeps (henv : l.Shows I env) {order : RunOrder}
    (hwaves : ∀ v ∈ order.plan.waves, v.wave.index + 1 < Nat.pow 2 64) : order.Keeps env (l.Sound I past origin) where
  tell e w _ h := h.adds_nil (henv.tell e w h.fits)
  write r w _ h := h.adds_nil (henv.write r w h.fits)
  save _ _ h := h.save henv
  pool setting _ _ _ h hitems := henv.pool setting h hitems
  register id _ _ h := h.upheld (h.writable.register id) RunState.upheldBy_register
  setStatus _ _ w _ _ h hs := h.upheld (h.writable.setStatus (henv.clock w h.fits) hs)
    (RunState.upheldBy_of_move (RunState.allows_of_setStatus hs) (RunState.stand_of_setStatus hs))
  setStatusFor _ _ _ w _ _ h hs := h.upheld (h.writable.setStatusFor (henv.clock w h.fits) hs)
    (RunState.upheldBy_of_move (RunState.allows_of_setStatusFor hs) (RunState.stand_of_setStatusFor hs))
  waveIndex v hv _ _ h := h.upheld { h.writable with waveIndex := hwaves v hv } fun _ _ => rfl

end Ledger

end WorkWaves
