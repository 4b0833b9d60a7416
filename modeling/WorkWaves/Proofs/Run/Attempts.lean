import WorkWaves.Proofs.Planning
import WorkWaves.Proofs.Run.Ledger
import WorkWaves.Proofs.Run.Safety

/-!
# What lasts over several attempts

An attempt begins with a new state or resumes with the kept one, plans the items of a manifest, and runs the plan. In
a series of attempts, all but the first resume with what the one before has kept, and manifests, workers and interrupts
may be others each time. `Attempt.Series.lasting`: what is completed stays so, is neither planned nor worked on again,
and no other item is lost.
-/

namespace WorkWaves

/-- How a plan is made and run, in which surroundings, and in which world this begins. -/
structure Attempt (σ : Type) where
  env : Surroundings σ
  world : σ
  /-- Whether to go on from the kept state. -/
  resumes : Bool
  root : String
  settings : Settings
  manifest : String
  runId : String
  exclusions : Exclusions

namespace Attempt

variable {σ : Type} (l : Ledger σ) (a : Attempt σ)

/-- The state to begin with. -/
def start : Except StateError RunState :=
  if a.resumes then l.store.resume (a.env.now a.world) (l.files a.world) else .ok (.new (a.env.now a.world))

/-- The plan, in view of what a state has as completed. -/
def draft (s : RunState) : Except CommandError Planning.Draft :=
  Planning.draft (l.files a.world) a.root a.settings a.manifest s.completed

def order (p : Plan) : RunOrder := ⟨a.runId, p, a.settings.limits, a.exclusions⟩

/-- There is a state and a plan to run from it. -/
structure Runs (s : RunState) (d : Planning.Draft) : Prop where
  start : a.start l = .ok s
  draft : a.draft l s = .ok d

/-- The world after the attempt. Without a state or without a plan nothing is run. -/
def left : σ :=
  match a.start l with
  | .error _ => a.world
  | .ok s =>
    match a.draft l s with
    | .error _ => a.world
    | .ok d => ((a.order d.plan).run a.env s a.world).world

/-- The second attempt resumes with the state that the first one has left. Anything else may have changed. -/
structure Follows (a b : Attempt σ) : Prop where
  resumes : b.resumes = true
  kept : l.kept b.world = l.kept (a.left l)
  deeds : l.deeds b.world = l.deeds (a.left l)

/-- Attempts one after the other, the first of which begins anew, in worlds with `I`. -/
structure Series (I : σ → Prop) (first : Attempt σ) (rest : List (Attempt σ)) : Prop where
  anew : first.resumes = false
  nothing : l.deeds first.world = []
  follows : (first :: rest).IsChain (Follows l)
  fits : ∀ a ∈ first :: rest, I a.world
  shows : ∀ a ∈ first :: rest, l.Shows I a.env
  /-- A machine word counts the items of each manifest. -/
  countable : ∀ a ∈ first :: rest, ∀ s d, a.Runs l s d → d.manifest.items.length < Nat.pow 2 64

/-- What has been done up to the end of an attempt, how the attempt goes on from what was done before, and what it
plans. -/
structure Lasting : Prop where
  /-- What is saved upholds what was saved before, and there is no workspace for what is completed. -/
  chronicle : (l.deeds (a.left l)).Pairwise Deed.Allows
  kept : ∀ t, Deed.lastSaved (l.deeds (a.left l)) = some t → l.kept (a.left l) = .ok (some t)
  past : l.deeds a.world <+: l.deeds (a.left l)
  /-- What is done in the attempt takes back nothing that is completed in the state to begin with. -/
  heeds : ∀ s, a.start l = .ok s → l.Heeds (l.deeds a.world) s (a.left l)
  resumed : a.resumes = true → ∀ t, l.kept a.world = .ok (some t) → ∃ s, a.start l = .ok s ∧ t.RenewedBy s
  /-- Nothing that is completed in a state saved before, or in the one to begin with, is in a wave or blocked. -/
  spared : ∀ s d, a.Runs l s d → ∀ t, t = s ∨ .saved t ∈ l.deeds a.world →
    ∀ id, t.status? id = some .completed → id ∉ d.plan.ids
  /-- All that is not complete is in a wave or blocked. -/
  planned : ∀ s d, a.Runs l s d → ∀ i ∈ d.manifest.items, i.id ∉ d.completed → i.id ∈ d.plan.ids

variable {l a} {b first : Attempt σ} {rest : List (Attempt σ)} {I : σ → Prop} {s t : RunState} {d : Planning.Draft}

theorem start_of_kept (hr : a.resumes = true) (hk : l.kept a.world = .ok (some t)) :
    a.start l = .ok (t.beginAttempt (a.env.now a.world)) := by
  have hload : l.store.load (l.files a.world) = .ok (some t) := hk
  simp only [start, hr, if_true, StateStore.resume, hload, Except.map]

/-- A state to begin with is new, or the kept one renewed. -/
theorem start_eq_ok (h : a.start l = .ok s) : s = .new (a.env.now a.world) ∨
    ∃ t, a.resumes = true ∧ l.kept a.world = .ok (some t) ∧ s = t.beginAttempt (a.env.now a.world) := by
  unfold start at h
  split at h
  · next hr =>
    unfold StateStore.resume at h
    cases hk : l.store.load (l.files a.world) with
    | error e => simp [hk, Except.map] at h
    | ok k =>
      cases k with
      | none =>
        simp only [hk, Except.map, Except.ok.injEq] at h
        exact .inl h.symm
      | some t =>
        simp only [hk, Except.map, Except.ok.injEq] at h
        exact .inr ⟨t, hr, hk, h.symm⟩
  · cases h
    exact .inl rfl

/-- What was done before an attempt allows the state with which it begins to be saved. -/
theorem allows_of_start (hw : l.Coherent a.world) (hr : a.resumes = true ∨ l.deeds a.world = [])
    (h : a.start l = .ok s) : ∀ e ∈ l.deeds a.world, e.Allows (.saved s) := by
  rcases hr with hr | hr
  · cases hlast : Deed.lastSaved (l.deeds a.world) with
    | none => exact Deed.allows_of_lastSaved_eq_none hlast
    | some t =>
      have hs := start_of_kept hr (hw.kept t hlast)
      cases hs.symm.trans h
      intro e he
      exact (Deed.allows_of_lastSaved hw.chronicle hlast e he).saved RunState.renewedBy_beginAttempt.upheld
  · simp [hr]

theorem sound_of_start (henv : l.Shows I a.env) (hI : I a.world) (hw : l.Coherent a.world)
    (hr : a.resumes = true ∨ l.deeds a.world = []) (h : a.start l = .ok s) :
    l.Sound I (l.deeds a.world) s a.world s := by
  have hheeds : l.Heeds (l.deeds a.world) s a.world := ⟨[], (List.append_nil _).symm, by simp⟩
  refine ⟨hw, hI, hheeds, RunState.UpheldBy.refl s, allows_of_start hw hr h, ?_⟩
  have hclock := henv.clock a.world hI
  rcases start_eq_ok h with rfl | ⟨t, -, hk, rfl⟩
  · exact RunState.Writable.new hclock
  · exact (StateStore.writable_of_load hk).beginAttempt hclock

theorem Runs.left_eq (h : a.Runs l s d) : a.left l = ((a.order d.plan).run a.env s a.world).world := by
  simp only [left, h.start, h.draft]

/-- Waves can be counted if the items can. -/
theorem Runs.index_lt (h : a.Runs l s d) (hd : d.manifest.items.length < Nat.pow 2 64) :
    ∀ v ∈ d.plan.waves, v.wave.index + 1 < Nat.pow 2 64 := by
  intro v hv
  have hmem : v.wave.index ∈ List.range d.plan.waves.length :=
    (Planning.sound_of_draft h.draft).index ▸ List.mem_map_of_mem (f := (·.wave.index)) hv
  have hlt := List.mem_range.mp hmem
  have hle := Planning.length_waves_le_of_draft h.draft
  omega

theorem idle_or_runs (l : Ledger σ) (a : Attempt σ) : a.left l = a.world ∨ ∃ s d, a.Runs l s d := by
  cases hs : a.start l with
  | error e => exact .inl (by simp only [left, hs])
  | ok s =>
    cases hd : a.draft l s with
    | error e => exact .inl (by simp only [left, hs, hd])
    | ok d => exact .inr ⟨s, d, hs, hd⟩

/-- An attempt leaves a coherent world if it begins in one, and heeds the state with which it begins. -/
theorem coherent_left (henv : l.Shows I a.env) (hI : I a.world) (hw : l.Coherent a.world)
    (hr : a.resumes = true ∨ l.deeds a.world = [])
    (hd : ∀ s d, a.Runs l s d → d.manifest.items.length < Nat.pow 2 64) :
    l.Coherent (a.left l) ∧ l.deeds a.world <+: l.deeds (a.left l) ∧
      ∀ s, a.start l = .ok s → l.Heeds (l.deeds a.world) s (a.left l) := by
  rcases idle_or_runs l a with hleft | ⟨s, d, hruns⟩
  · rw [hleft]
    exact ⟨hw, List.prefix_rfl, fun s _ => ⟨[], (List.append_nil _).symm, by simp⟩⟩
  · have hafter := (a.order d.plan).run_keeps (henv.keeps (hruns.index_lt (hd s d hruns)))
      (sound_of_start henv hI hw hr hruns.start)
    rw [← hruns.left_eq] at hafter
    obtain ⟨ds, hds, -⟩ := hafter.heeds
    refine ⟨hafter.toCoherent, ⟨ds, hds.symm⟩, fun s' hs => ?_⟩
    cases hruns.start.symm.trans hs
    exact hafter.heeds

theorem lasting_of_coherent (henv : l.Shows I a.env) (hI : I a.world) (hw : l.Coherent a.world)
    (hr : a.resumes = true ∨ l.deeds a.world = [])
    (hd : ∀ s d, a.Runs l s d → d.manifest.items.length < Nat.pow 2 64) : a.Lasting l := by
  obtain ⟨hleft, hpast, hheeds⟩ := coherent_left henv hI hw hr hd
  refine ⟨hleft.chronicle, hleft.kept, hpast, hheeds, fun hres t hk => ?_, ?_, ?_⟩
  · exact ⟨_, start_of_kept hres hk, RunState.renewedBy_beginAttempt⟩
  · intro s d hruns t ht id hid
    have hs : s.status? id = some .completed := by
      rcases ht with rfl | ht
      · exact hid
      · exact (congrArg Prod.fst (allows_of_start hw hr hruns.start _ ht id hid)).trans hid
    exact Planning.fresh_of_draft hruns.draft (RunState.mem_completed.mpr hs)
  · exact fun s d hruns i hi hid => Planning.mem_ids_of_draft hruns.draft hi hid

theorem Follows.of_world (hr : b.resumes = true) (hw : b.world = a.left l) : Follows l a b :=
  ⟨hr, by rw [hw], by rw [hw]⟩

theorem Follows.coherent (h : Follows l a b) (ha : l.Coherent (a.left l)) : l.Coherent b.world :=
  ⟨h.deeds ▸ ha.chronicle, fun t ht => h.kept.trans (ha.kept t (h.deeds ▸ ht))⟩

/-- What attempts leave lasts through a series, whatever manifests they have, whatever their workers return and whenever
they are interrupted. -/
theorem Series.lasting (h : Series l I first rest) : ∀ a ∈ first :: rest, a.Lasting l := by
  have hfirst : l.Coherent first.world := ⟨by simp [h.nothing], by simp [h.nothing, Deed.lastSaved]⟩
  have hr : first.resumes = true ∨ l.deeds first.world = [] := .inr h.nothing
  obtain ⟨-, -, hfollows, hfits, hshows, hcountable⟩ := h
  induction rest generalizing first with
  | nil =>
    have hmem : first ∈ [first] := List.mem_singleton_self first
    refine List.forall_mem_singleton.mpr ?_
    exact lasting_of_coherent (hshows _ hmem) (hfits _ hmem) hfirst hr (hcountable _ hmem)
  | cons next rest ih =>
    have hmem : first ∈ first :: next :: rest := List.mem_cons_self ..
    have hone := lasting_of_coherent (hshows _ hmem) (hfits _ hmem) hfirst hr (hcountable _ hmem)
    obtain ⟨hnext, hrest⟩ := List.isChain_cons_cons.mp hfollows
    have hafter := (coherent_left (hshows _ hmem) (hfits _ hmem) hfirst hr (hcountable _ hmem)).1
    refine List.forall_mem_cons.mpr ⟨hone, ih (hnext.coherent hafter) (.inl hnext.resumes) hrest ?_ ?_ ?_⟩
    · exact fun a ha => hfits a (List.mem_cons_of_mem first ha)
    · exact fun a ha => hshows a (List.mem_cons_of_mem first ha)
    · exact fun a ha => hcountable a (List.mem_cons_of_mem first ha)

/-! ### Another attempt after one with a full disk -/

def retryItems : List Item := [{ id := "a" }, { id := "b" }]

def retryText : String := (Json.obj [("items", .arr (retryItems.map fun i => .obj [("id", .str i.id)]))]).compact

/-- A directory with a manifest, and with the text of a state if one is kept. -/
def retryFiles (state : Option String) : FileTree where
  entries := (state.toList.map fun t => (["state.json"], .file t)) ++ [(["items.json"], .file retryText)]

def retryLedger : Ledger (Option RunState × List Deed) where
  store := ⟨"state.json"⟩
  files w := retryFiles (w.1.map RunState.fileText)
  deeds w := w.2

def retryTime : Timestamp := ⟨2024, 2, 29, 12, 30, 0, 0⟩

theorem valid_retryTime : retryTime.Valid := by constructor <;> decide

/-- Surroundings with room for the workspace of `a` only, in which the state is kept and what lasts is on record. -/
def retrySurroundings : Surroundings (Option RunState × List Deed) where
  errand e w := (((Surroundings.fullDisk fun _ => false).errand e 0).1, (w.1, w.2 ++ e.deeds))
  fix _ w := (⟨.ok ⟨0, "", ""⟩, 3⟩, w)
  tell _ w := w
  write _ w := w
  save s w := (.ok (), (some s, w.2 ++ [.saved s]))
  interrupted _ := false
  elapsed _ := 0
  pass _ w := w
  now _ := retryTime

theorem shows_retry : retryLedger.Shows (fun _ => True) retrySurroundings where
  anchored w _ p hp := by
    rw [List.prefix_nil.mp hp]
    rfl
  clock _ _ := valid_retryTime
  stored s w _ := by
    obtain ⟨state, ds⟩ := w
    cases state with
    | none => exact StateStore.save_of_steps rfl rfl rfl rfl
    | some state => exact StateStore.save_of_steps rfl rfl rfl rfl
  succeeds _ _ _ := rfl
  saved _ _ _ := ⟨trivial, rfl⟩
  errand _ _ _ := ⟨trivial, rfl, rfl⟩
  fix _ _ _ := ⟨trivial, rfl, (List.append_nil _).symm⟩
  tell _ _ _ := ⟨trivial, rfl, (List.append_nil _).symm⟩
  write _ _ _ := ⟨trivial, rfl, (List.append_nil _).symm⟩
  pass _ _ _ := ⟨trivial, rfl, (List.append_nil _).symm⟩

theorem manifest_retryFiles (state : Option String) :
    Planning.manifest (retryFiles state) "items.json" = .ok { items := retryItems } := by
  have hread : (retryFiles state).read "items.json" = .ok retryText := by cases state <;> rfl
  have htext : Manifest.ofText retryText = .ok { items := retryItems } := by decide +kernel
  simp only [Planning.manifest, hread, htext, Except.mapError]

/-- Neither the manifest nor the archive has anything as complete. -/
def retryDone (s : RunState) : StringSet := (∅ ∪ ∅) ∪ s.completed

theorem completed_retryFiles (state : Option String) (s : RunState) :
    Planning.completed (retryFiles state) "" {} { items := retryItems } s.completed = .ok (retryDone s) := by
  cases state <;> rfl

/-- An attempt in a world, which resumes or does not. -/
def retry (resumes : Bool) (w : Option RunState × List Deed) : Attempt (Option RunState × List Deed) :=
  ⟨retrySurroundings, w, resumes, "", {}, "items.json", "run", {}⟩

section Retry

variable {resumes : Bool} {w : Option RunState × List Deed} {g : Graph} {p : Plan}

theorem deeds_retry : retryLedger.deeds w = w.2 := rfl

theorem world_retry : (retry resumes w).world = w := rfl

theorem start_retry : (retry false w).start retryLedger = .ok (.new retryTime) := rfl

theorem start_retry_of_kept (h : retryLedger.kept w = .ok (some t)) :
    (retry true w).start retryLedger = .ok (t.beginAttempt retryTime) := start_of_kept rfl h

theorem draft_retry (hg : Graph.build retryItems (retryDone s) .block = .ok g)
    (hp : Plan.build g (retryDone s) = .ok p) :
    (retry resumes w).draft retryLedger s = .ok ⟨{ items := retryItems }, retryDone s, g, p⟩ := by
  have hm := manifest_retryFiles (w.1.map RunState.fileText)
  have hc := completed_retryFiles (w.1.map RunState.fileText) s
  have hg' : Graph.build retryItems (retryDone s) ({} : Settings).scheduler.orphanPolicy = .ok g := hg
  exact Planning.draft_eq_ok.mpr ⟨hm, hc, hg', hp⟩

theorem left_retry (hs : (retry resumes w).start retryLedger = .ok s)
    (hg : Graph.build retryItems (retryDone s) .block = .ok g) (hp : Plan.build g (retryDone s) = .ok p) :
    (retry resumes w).left retryLedger = (((retry resumes w).order p).run retrySurroundings s w).world := by
  have hruns : (retry resumes w).Runs retryLedger s _ := ⟨hs, draft_retry hg hp⟩
  exact hruns.left_eq

theorem length_items_retry (h : (retry resumes w).Runs retryLedger s d) :
    d.manifest.items.length < Nat.pow 2 64 := by
  obtain ⟨hm, -⟩ := Planning.draft_eq_ok.mp h.draft
  have hd : d.manifest = { items := retryItems } :=
    Except.ok.inj (hm.symm.trans (manifest_retryFiles (w.1.map RunState.fileText)))
  rw [hd]
  exact show 2 < Nat.pow 2 64 by decide

theorem series_retry (h : w.2 = []) :
    Series retryLedger (fun _ => True) (retry false w) [retry true ((retry false w).left retryLedger)] where
  anew := rfl
  nothing := h
  follows := .cons_cons (.of_world rfl world_retry) (.singleton _)
  fits _ _ := trivial
  shows := List.forall_mem_cons.mpr ⟨shows_retry, List.forall_mem_singleton.mpr shows_retry⟩
  countable := List.forall_mem_cons.mpr
    ⟨fun _ _ => length_items_retry, List.forall_mem_singleton.mpr fun _ _ => length_items_retry⟩

end Retry

/-- The first attempt asks for both workspaces, and the second one for that of `b` alone, as `a` is completed. -/
theorem Series.lasting_of_retry : ∃ first second : Attempt (Option RunState × List Deed),
    Series retryLedger (fun _ => True) first [second] ∧ (∀ a ∈ [first, second], a.Lasting retryLedger) ∧
      (retryLedger.deeds (second.left retryLedger)).filterMap Deed.itemId? = ["a", "b", "b"] := by
  have h : ((Graph.build retryItems (retryDone (.new retryTime)) .block).bind fun g =>
      (Plan.build g (retryDone (.new retryTime))).map fun p =>
        let w := (((retry false (none, [])).order p).run retrySurroundings (.new retryTime) (none, [])).world
        (Deed.lastSaved w.2).map fun t =>
          let s := t.beginAttempt retryTime
          (Graph.build retryItems (retryDone s) .block).bind fun g =>
            (Plan.build g (retryDone s)).map fun p =>
              (((retry true w).order p).run retrySurroundings s w).world.2.filterMap Deed.itemId?) =
      .ok (some (.ok ["a", "b", "b"])) := by
    -- Evaluation would count up to the limit of the attempts, so the limit is left open.
    unfold RunState.beginAttempt
    generalize RunState.attemptLimit = limit
    cbv
  obtain ⟨g, p, hg, hp, hv⟩ := Plan.exists_of_bind_eq_ok h
  have hleft := left_retry (w := (none, [])) start_retry hg hp
  dsimp only at hv
  rw [← hleft] at hv
  obtain ⟨t, ht, hv⟩ := Option.map_eq_some_iff.mp hv
  obtain ⟨g', p', hg', hp', hv⟩ := Plan.exists_of_bind_eq_ok hv
  have hseries := series_retry (w := (none, [])) rfl
  have hall := hseries.lasting
  have hkept := (hall _ (List.mem_cons_self ..)).kept t ((congrArg Deed.lastSaved deeds_retry).trans ht)
  refine ⟨_, _, hseries, hall, ?_⟩
  rw [left_retry (start_retry_of_kept hkept) hg' hp', deeds_retry]
  exact hv

end Attempt

end WorkWaves
