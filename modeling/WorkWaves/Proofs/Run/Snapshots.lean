import WorkWaves.Proofs.Run.Errands
import WorkWaves.Proofs.Run.Kept
import WorkWaves.Proofs.Run.Safety
import WorkWaves.Proofs.State.Store

/-!
# What a run leaves on disk

`RunOrder.chronicled` is a run together with its chronicle: the waves that were begun, those that an interrupt cut
off, and each attempt to save the state. `snapshots_of_build`: the state file holds the state that was saved last; a
save that fails ends the run; and every state that is saved is a `Snapshot`, which shows the waves before the one that
is due as done with, and those after it as untouched.

That nothing but a save touches the file is shown of surroundings that do not save at all: a wave does the same in
them (`wave_savingBy`).
-/

namespace WorkWaves

/-! ### Nothing is saved inside a wave -/

namespace Surroundings

variable {σ : Type} (env : Surroundings σ)

/-- The surroundings with another way to save. -/
def savingBy (save : RunState → σ → Except StateError Unit × σ) : Surroundings σ := { env with save := save }

variable {save : RunState → σ → Except StateError Unit × σ} {setting : Worker.Setting}

theorem advance_savingBy : Pool.advance (env.savingBy save) setting = Pool.advance env setting := by
  delta Pool.advance
  rfl

theorem drive_savingBy (n : Nat) (p : Pool σ) :
    Pool.drive (env.savingBy save) setting n p = Pool.drive env setting n p := by
  induction n generalizing p with
  | zero => rfl
  | succ n ih =>
    have henter : Pool.enter (env.savingBy save) setting = Pool.enter env setting := by
      unfold Pool.enter
      rw [advance_savingBy]
    unfold Pool.drive
    simp only [ih, advance_savingBy, henter]
    rfl

theorem choose_savingBy : Execution.choose (env.savingBy save) = Execution.choose env := by
  delta Execution.choose
  rfl

theorem wave_savingBy (order : RunOrder) (w : RefinedWave) (p : Progress σ) :
    Execution.wave (env.savingBy save) order w p = Execution.wave env order w p := by
  unfold Execution.wave Execution.opening Execution.carryOut Pool.executeWave Pool.withPermits Pool.conduct
  simp only [choose_savingBy, drive_savingBy]
  rfl

end Surroundings

/-- In all worlds with `I`, a save that succeeds is one of the store, a save that fails leaves the state file as it
was, and so does everything else. -/
structure StateStore.Guarded {σ : Type} (store : StateStore) (files : σ → FileTree) (I : σ → Prop)
    (env : Surroundings σ) : Prop where
  anchored : ∀ w, I w → (files w).Anchored
  saved : ∀ s w, I w → (env.save s w).1 = .ok () →
    store.save s (files w) = (files (env.save s w).2, .ok ())
  refused : ∀ s w e, I w → (env.save s w).1 = .error e →
    (files (env.save s w).2).read store.path = (files w).read store.path
  errand : ∀ e w, I w → (files (env.errand e w).2).read store.path = (files w).read store.path
  fix : ∀ r w, I w → (files (env.fix r w).2).read store.path = (files w).read store.path
  tell : ∀ e w, I w → (files (env.tell e w)).read store.path = (files w).read store.path
  write : ∀ r w, I w → (files (env.write r w)).read store.path = (files w).read store.path
  pass : ∀ t w, I w → (files (env.pass t w)).read store.path = (files w).read store.path

namespace Execution

/-- What a chronicle of a run says. -/
inductive Note where
  | begun (w : RefinedWave)
  /-- An interrupt came while the wave was carried out. -/
  | cutOff (w : RefinedWave)
  | saved (s : RunState)
  | refused (s : RunState) (e : StateError)

namespace Note

/-- The state that was to be saved. -/
def state? : Note → Option RunState
  | saved s | refused s _ => some s
  | begun _ | cutOff _ => none

def saved? : Note → Option RunState
  | saved s => some s
  | refused _ _ | begun _ | cutOff _ => none

def fault? : Note → Option StateError
  | refused _ e => some e
  | saved _ | begun _ | cutOff _ => none

/-- How a save went. -/
def ofSave (s : RunState) : Except StateError Unit → Note
  | .ok () => saved s
  | .error e => refused s e

/-- What the state file holds after some notes, if it held `old` before: the state that was saved last. -/
def held (old : Except FileFault String) (notes : List Note) : Except FileFault String :=
  ((notes.filterMap saved?).getLast?.map fun s => .ok s.fileText).getD old

theorem held_append (old : Except FileFault String) (l m : List Note) : held old (l ++ m) = held (held old l) m := by
  unfold held
  rw [List.filterMap_append, List.getLast?_append]
  cases (m.filterMap saved?).getLast? <;> rfl

end Note

variable {σ : Type} (env : Surroundings σ) (order : RunOrder)

/-- The state when a wave is closed: the next one is due. -/
def nextDue (w : RefinedWave) (s : RunState) : RunState := { s with waveIndex := w.wave.index + 1 }

/-- Runs waves, and keeps the chronicle. -/
def chronicle : List RefinedWave → Progress σ → List Note × Part σ (Bool × Progress σ)
  | [], p => ([], .ok (false, p))
  | w :: rest, p =>
    if env.interrupted p.world then ([], .ok (true, p))
    else
      match wave env order w p with
      | .error g => ([.begun w], .error g)
      | .ok p =>
        if env.interrupted p.world then
          ([.begun w, .cutOff w],
            .ok (true, write env .warn "Interrupted, persisting state" [("wave", .count w.wave.index)] p))
        else
          let n := Note.ofSave (nextDue w p.state) (env.save (nextDue w p.state) p.world).1
          match close env w p with
          | .error g => ([.begun w, n], .error g)
          | .ok p =>
            let r := chronicle rest p
            ([.begun w, n] ++ r.1, r.2)

/-- Runs a plan from the wave that is due, and keeps the chronicle. -/
def chronicleWhole (p : Progress σ) : List Note × Part σ (Summary × Progress σ) :=
  match prepare env order p with
  | .error g => ([], .error g)
  | .ok q =>
    match chronicle env order (order.plan.waves.drop q.state.waveIndex) q with
    | (notes, .error g) => (notes, .error g)
    | (notes, .ok (b, q)) =>
      (notes ++ [.ofSave q.state (env.save q.state q.world).1], conclude env order (env.elapsed p.world) b q)

theorem chronicle_snd (ws : List RefinedWave) (p : Progress σ) :
    (chronicle env order ws p).2 = waves env order ws p := by
  induction ws generalizing p with
  | nil => rfl
  | cons w rest ih =>
    unfold chronicle waves
    split
    · rfl
    · cases hwave : wave env order w p with
      | error g => rfl
      | ok q =>
        simp only [bind, Except.bind]
        split
        · rfl
        · cases hclose : close env w q with
          | error g => rfl
          | ok q' => exact ih q'

theorem chronicleWhole_snd (p : Progress σ) : (chronicleWhole env order p).2 = whole env order p := by
  unfold chronicleWhole whole
  cases hprep : prepare env order p with
  | error g => rfl
  | ok q =>
    simp only [← chronicle_snd, bind, Except.bind]
    rcases chronicle env order (order.plan.waves.drop q.state.waveIndex) q with ⟨notes, g | ⟨b, q'⟩⟩
    · rfl
    · rfl

end Execution

/-- Carries out a run order from a state on, and keeps the chronicle. -/
def RunOrder.chronicled {σ : Type} (order : RunOrder) (env : Surroundings σ) (state : RunState) (world : σ) :
    List Execution.Note × RunResult σ :=
  let r := Execution.chronicleWhole env order { world := world, state := state }
  (r.1, .of r.2)

theorem RunOrder.chronicled_snd {σ : Type} (order : RunOrder) (env : Surroundings σ) (state : RunState) (world : σ) :
    (order.chronicled env state world).2 = order.run env state world := by
  unfold RunOrder.run
  rw [← Execution.chronicleWhole_snd]
  rfl

/-- How a state stands between two waves of a plan. Of the wave that is due, nothing was begun unless it is among
those that were cut off. -/
structure Plan.Snapshot (plan : Plan) (cut : RefinedWave → Prop) (s : RunState) : Prop where
  idle : ∀ id, s.status? id ≠ some .running
  before : ∀ v ∈ plan.waves, v.wave.index < s.waveIndex →
    ∀ i ∈ v.items, ∃ st, s.status? i.id = some st ∧ st.isTerminal = true
  due : ∀ v ∈ plan.waves, v.wave.index = s.waveIndex → ¬ cut v → ∀ i ∈ v.items, s.status? i.id = some .pending
  after : ∀ v ∈ plan.waves, s.waveIndex < v.wave.index → ∀ i ∈ v.items, s.status? i.id = some .pending

theorem Plan.Snapshot.mono {plan : Plan} {cut cut' : RefinedWave → Prop} {s : RunState} (h : plan.Snapshot cut s)
    (hc : ∀ v, cut v → cut' v) : plan.Snapshot cut' s :=
  ⟨h.idle, h.before, fun v hv he hn => h.due v hv he fun hcut => hn (hc v hcut), h.after⟩

namespace Plan.Sound

variable {items : List Item} {completed : StringSet} {policy : OrphanPolicy} {p : Plan} {pre post : List RefinedWave}
  {v w : RefinedWave}

theorem index_eq (h : Sound items completed policy p) (hs : p.waves = pre ++ w :: post) :
    w.wave.index = pre.length := by
  have hget : (p.waves.map (·.wave.index))[pre.length]? = some w.wave.index := by simp [hs]
  rw [h.index, List.getElem?_range (by simp [hs])] at hget
  exact (Option.some.inj hget).symm

theorem mem_pre (h : Sound items completed policy p) (hs : p.waves = pre ++ post) (hv : v ∈ p.waves)
    (hi : v.wave.index < pre.length) : v ∈ pre := by
  rw [hs] at hv
  refine (List.mem_append.mp hv).resolve_right fun hpost => ?_
  obtain ⟨l, m, rfl⟩ := List.append_of_mem hpost
  have := h.index_eq (hs.trans (List.append_assoc ..).symm)
  rw [List.length_append] at this
  omega

theorem mem_post (h : Sound items completed policy p) (hs : p.waves = pre ++ post) (hv : v ∈ p.waves)
    (hi : pre.length ≤ v.wave.index) : v ∈ post := by
  rw [hs] at hv
  refine (List.mem_append.mp hv).resolve_left fun hpre => ?_
  obtain ⟨l, m, rfl⟩ := List.append_of_mem hpre
  have := h.index_eq (hs.trans (List.append_assoc ..))
  rw [List.length_append, List.length_cons] at hi
  omega

end Plan.Sound

/-! ### Snapshots between the waves -/

namespace Execution

variable {σ : Type} {env : Surroundings σ} {I : σ → Prop} {order : RunOrder} {p q : Progress σ}
  {items : List Item} {completed : StringSet} {policy : OrphanPolicy} {pre post : List RefinedWave}
  {old : String → Option String} {t : Turn σ}

theorem Done.idle (hd : Done env I order p t q) (h : ∀ id, p.state.status? id ≠ some .running) (id : String) :
    q.state.status? id ≠ some .running := by
  by_cases hid : id ∈ t.wave.ids
  · obtain ⟨i, hi, rfl⟩ := List.mem_map.mp hid
    cases hu : unmetBlocker order.plan p.state i.id with
    | some b =>
      have hst : q.state.status? i.id = some .skipped := congrArg Prod.fst (hd.skipped i hi b hu)
      rw [hst]
      simp
    | none =>
      obtain ⟨o, ho, hstand⟩ := hd.worked i (hd.mem_items.mpr ⟨hi, hu⟩)
      obtain ⟨v, hv, -⟩ := ho.returned
      have hst : q.state.status? i.id = _ := congrArg Prod.fst hstand
      rw [hst]
      by_cases hs : o.started = true
      · rw [if_pos hs]
        intro hrun
        have hterm := (hv.started hs).isTerminal
        rw [Option.some.inj hrun] at hterm
        cases hterm
      · rw [if_neg hs]
        exact h i.id
  · have hst : q.state.status? id = p.state.status? id := congrArg Prod.fst (hd.others id hid)
    rw [hst]
    exact h id

/-- What a wave does leaves the waves before and after it as they were. -/
theorem Between.around (h : Between Ended old pre (t.wave :: post) p.state) (hd : Done env I order p t q)
    (hplan : order.plan.Sound items completed policy) (hs : order.plan.waves = pre ++ t.wave :: post) :
    Between Ended old pre post q.state := by
  have hapart := (hplan.wave_nodup hs).2
  refine ⟨fun id hid => ?_, fun id hid => ?_⟩
  · rw [hd.others id fun hmem => (hapart id hmem).1 hid]
    exact h.ended id hid
  · rw [hd.others id fun hmem => (hapart id hmem).2 hid]
    exact h.pending id (by simp [hid])

/-- A state is a snapshot of a plan in which one wave at most is on its way. -/
theorem Between.snapshot (mid : List RefinedWave) {s : RunState} {cut : RefinedWave → Prop} (h : Between Ended old pre post s)
    (hidle : ∀ id, s.status? id ≠ some .running) (hplan : order.plan.Sound items completed policy)
    (hs : order.plan.waves = pre ++ mid ++ post) (hi : s.waveIndex = pre.length) (hmid : mid.length ≤ 1)
    (hcut : ∀ v ∈ mid, cut v) : order.plan.Snapshot cut s := by
  have hpending : ∀ v ∈ post, ∀ i ∈ v.items, s.status? i.id = some .pending := fun v hv i hi =>
    congrArg Prod.fst (h.pending i.id (List.mem_flatMap.mpr ⟨v, hv, List.mem_map_of_mem hi⟩))
  have hs' : order.plan.waves = pre ++ (mid ++ post) := by rw [hs, List.append_assoc]
  refine ⟨hidle, fun v hv hlt i hi' => ?_, fun v hv heq hn => ?_, fun v hv hlt => ?_⟩
  · have hpre := hplan.mem_pre hs' hv (hi ▸ hlt)
    exact h.ended i.id (List.mem_flatMap.mpr ⟨v, hpre, List.mem_map_of_mem hi'⟩)
  · have hmem := hplan.mem_post hs' hv (heq ▸ Nat.le_of_eq hi.symm)
    exact hpending v ((List.mem_append.mp hmem).resolve_left fun hm => hn (hcut v hm))
  · refine hpending v (hplan.mem_post hs hv ?_)
    rw [List.length_append]
    omega

/-! ### The state file -/

variable {store : StateStore} {files : σ → FileTree} {α : Type}

variable (order) in
theorem keeps_of_guarded (hg : store.Guarded files I env) (henv : env.Steady I) (c : Except FileFault String) :
    order.Keeps (env.savingBy fun _ w => (.ok (), w)) fun w _ => I w ∧ (files w).read store.path = c where
  tell e w _ h := ⟨(henv.tell e w h.1).kept, (hg.tell e w h.1).trans h.2⟩
  write r w _ h := ⟨(henv.write r w h.1).kept, (hg.write r w h.1).trans h.2⟩
  save _ _ h := h
  pool setting is w _ h _ := by
    have hkeeps : (env.savingBy fun _ w => (.ok (), w)).Keeps (is.map (·.id)) fun w =>
        I w ∧ (files w).read store.path = c :=
      { errand := fun e w _ h => ⟨(henv.errand e w h.1).kept, (hg.errand e w h.1).trans h.2⟩
        fix := fun r w h => ⟨(henv.fix r w h.1).kept, (hg.fix r w h.1).trans h.2⟩
        tell := fun e w h => ⟨(henv.tell e w h.1).kept, (hg.tell e w h.1).trans h.2⟩
        write := fun r w h => ⟨(henv.write r w h.1).kept, (hg.write r w h.1).trans h.2⟩
        pass := fun n w h => ⟨(henv.pass n w h.1).kept, (hg.pass n w h.1).trans h.2⟩ }
    exact Pool.run_keeps hkeeps (fun i hi => List.mem_map_of_mem hi) h
  register _ _ _ h := h
  setStatus _ _ _ _ _ h _ := h
  setStatusFor _ _ _ _ _ _ h _ := h
  waveIndex _ _ _ _ h := h

theorem read_of_wave (hg : store.Guarded files I env) (henv : env.Steady I) {w : RefinedWave} (hp : I p.world)
    (h : wave env order w p = .ok q) : (files q.world).read store.path = (files p.world).read store.path := by
  have hleaves := wave_leaves (p := p) (keeps_of_guarded order hg henv _) w ⟨hp, rfl⟩
  rw [env.wave_savingBy, h] at hleaves
  exact hleaves.2

theorem read_of_prepare (hg : store.Guarded files I env) (henv : env.Steady I) (hp : I p.world)
    (h : prepare env order p = .ok q) : (files q.world).read store.path = (files p.world).read store.path := by
  have hleaves := prepare_leaves (p := p) (keeps_of_guarded order hg henv _) ⟨hp, rfl⟩
  have hsame : prepare (env.savingBy fun _ w => (.ok (), w)) order p = prepare env order p := rfl
  rw [hsame, h] at hleaves
  exact hleaves.2

variable (store files I) in
/-- Notes of a part of a run agree with how it ends: the state file, which held `old`, holds what was saved last, and
the part is given up with the first save that fails, and only then. -/
def Recorded (old : Except FileFault String) (f : α → Progress σ) : List Note × Part σ α → Prop
  | (notes, .ok a) => I (f a).world ∧ (files (f a).world).read store.path = Note.held old notes ∧
      ∀ n ∈ notes, n.fault? = none
  | (notes, .error g) => (files g.progress.world).read store.path = Note.held old notes ∧
      ∃ l s e, notes = l ++ [.refused s e] ∧ (∀ n ∈ l, n.fault? = none) ∧ g.error = .state e

theorem Recorded.append {f : α → Progress σ} {x : Part σ α} {c : Except FileFault String} {l m : List Note}
    (hl : ∀ n ∈ l, n.fault? = none) (h : Recorded I store files (Note.held c l) f (m, x)) :
    Recorded I store files c f (l ++ m, x) := by
  cases x with
  | ok a =>
    obtain ⟨hI, hread, hm⟩ := h
    exact ⟨hI, hread.trans (Note.held_append ..).symm, List.forall_mem_append.mpr ⟨hl, hm⟩⟩
  | error g =>
    obtain ⟨hread, l', s, e, rfl, hl', he⟩ := h
    refine ⟨hread.trans (Note.held_append ..).symm, l ++ l', s, e, (List.append_assoc ..).symm, ?_, he⟩
    exact List.forall_mem_append.mpr ⟨hl, hl'⟩

theorem save_recorded (hg : store.Guarded files I env) (henv : env.Steady I) (hp : I p.world) :
    Recorded I store files ((files p.world).read store.path) id
      ([.ofSave p.state (env.save p.state p.world).1], save env p) := by
  obtain ⟨hworld, hsave⟩ := save_eq henv hp
  rw [hsave]
  cases hr : (env.save p.state p.world).1 with
  | ok u =>
    refine ⟨hworld.kept, ?_, List.forall_mem_singleton.mpr rfl⟩
    exact StateStore.read_of_save (hg.anchored _ hp) (hg.saved _ _ hp hr)
  | error e => exact ⟨hg.refused _ _ e hp hr, [], _, e, rfl, by simp, rfl⟩

theorem Recorded.map {β : Type} {f : α → Progress σ} {g : β → Progress σ} {k : α → β} {x : Part σ α} {c : Except FileFault String}
    {l : List Note} (h : Recorded I store files c f (l, x))
    (hk : ∀ a, x = .ok a → I (f a).world → I (g (k a)).world ∧
      (files (g (k a)).world).read store.path = (files (f a).world).read store.path) :
    Recorded I store files c g (l, x.map k) := by
  cases x with
  | ok a =>
    obtain ⟨hI, hread, hl⟩ := h
    obtain ⟨hI', hread'⟩ := hk a rfl hI
    exact ⟨hI', hread'.trans hread, hl⟩
  | error g => exact h

theorem close_recorded (hg : store.Guarded files I env) (henv : env.Steady I) (w : RefinedWave) (hp : I p.world) :
    Recorded I store files ((files p.world).read store.path) id
      ([.ofSave (nextDue w p.state) (env.save (nextDue w p.state) p.world).1], close env w p) := by
  have hsave := save_recorded hg henv (p := { p with state := nextDue w p.state }) hp
  have hclose : close env w p = (save env { p with state := nextDue w p.state }).map
      (tell env (.waveEnd w.wave.index (countsOf p.state w.ids))) := by
    unfold close nextDue
    cases save env { p with state := { p.state with waveIndex := w.wave.index + 1 } } <;> rfl
  rw [hclose]
  exact hsave.map fun q _ hq => ⟨(henv.tell _ _ hq).kept, hg.tell _ _ hq⟩

theorem state_of_close {w : RefinedWave} (h : close env w p = .ok q) : q.state = nextDue w p.state := by
  unfold close save at h
  split at h
  · cases h
    rfl
  · cases h

variable (order) in
theorem conclude_recorded (hg : store.Guarded files I env) (henv : env.Steady I) (ms : Nat) (b : Bool)
    (hp : I p.world) : Recorded I store files ((files p.world).read store.path) Prod.snd
      ([.ofSave p.state (env.save p.state p.world).1], conclude env order ms b p) := by
  have hsave := save_recorded hg henv hp
  have hend : conclude env order ms b p = (save env p).map fun q =>
      let s := summary env order ms b q
      (s, tell env (.runEnd s) (write env .info "Run finished"
        [("completed", .count s.counts.completed), ("unsuccessful", .count s.counts.unsuccessful),
          ("interrupted", .flag b)] q)) := by
    unfold conclude
    cases save env p <;> rfl
  rw [hend]
  exact hsave.map fun q _ hq => ⟨(henv.tell _ _ (henv.write _ _ hq).kept).kept,
    (hg.tell _ _ (henv.write _ _ hq).kept).trans (hg.write _ _ hq)⟩

/-! ### The chronicle of a run -/

/-- A wave that is closed makes one attempt to save. -/
theorem Note.forall_state? {P : RunState → Prop} {s : RunState} (w : RefinedWave) (r : Except StateError Unit)
    (h : P s) : ∀ n ∈ [Note.begun w, Note.ofSave s r], ∀ s', n.state? = some s' → P s' := by
  intro n hn s' hs
  rcases List.mem_cons.mp hn with rfl | hn
  · cases hs
  · rw [List.mem_singleton] at hn
    subst hn
    cases r with
    | ok u =>
      cases hs
      exact h
    | error e =>
      cases hs
      exact h

theorem chronicle_recorded (henv : env.Steady I) (hg : store.Guarded files I env)
    (hplan : order.plan.Sound items completed policy) (hs : order.plan.waves = pre ++ post)
    (hb : Between Ended old pre post p.state) (hidle : ∀ id, p.state.status? id ≠ some .running)
    (hi : p.state.waveIndex = pre.length) (hp : I p.world) :
    Recorded I store files ((files p.world).read store.path) Prod.snd (chronicle env order post p) ∧
    (∀ n ∈ (chronicle env order post p).1, ∀ s, n.state? = some s → order.plan.Snapshot (fun _ => False) s) ∧
    ∀ b q, (chronicle env order post p).2 = .ok (b, q) →
      order.plan.Snapshot (fun v => .cutOff v ∈ (chronicle env order post p).1) q.state := by
  have hstill : order.plan.Snapshot (fun _ => False) p.state :=
    hb.snapshot [] hidle hplan (by rw [hs, List.append_nil]) hi (by simp) (by simp)
  induction post generalizing pre p with
  | nil =>
    refine ⟨⟨hp, rfl, by simp⟩, by simp [chronicle], fun b q h => ?_⟩
    cases h
    exact hstill.mono fun _ h => h.elim
  | cons w rest ih =>
    obtain ⟨t, q, rfl, hd⟩ := hb.wave_done henv hp hplan hs
    have hlater := hd.before.trans hd.after
    have hread := read_of_wave hg henv hp hd.wave_eq_ok
    unfold chronicle
    split
    · refine ⟨⟨hp, rfl, by simp⟩, by simp, fun b q h => ?_⟩
      cases h
      exact hstill.mono fun _ h => h.elim
    simp only [hd.wave_eq_ok]
    split
    · -- The interrupt came while the wave was carried out.
      refine ⟨⟨(henv.write _ _ hlater.world.kept).kept, (hg.write _ _ hlater.world.kept).trans hread,
        by simp [Note.fault?]⟩, by simp [Note.state?], fun b q' h => ?_⟩
      cases h
      exact (hb.around hd hplan hs).snapshot [t.wave] (hd.idle hidle) hplan (by rw [hs]; simp)
        (hlater.waveIndex.trans hi) (by simp) (by simp)
    · next hstop =>
      have hstep := hb.step hd hplan hs (hd.ended hstop)
      have hwaves : order.plan.waves = (pre ++ [t.wave]) ++ rest := by rw [hs, List.append_assoc]; rfl
      have hindex : t.wave.wave.index + 1 = (pre ++ [t.wave]).length := by
        rw [hplan.index_eq hs, List.length_append]
        rfl
      have hafter : Between Ended old (pre ++ [t.wave]) rest (nextDue t.wave q.state) := hstep.congr rfl
      have hsnap : order.plan.Snapshot (fun _ => False) (nextDue t.wave q.state) :=
        hafter.snapshot [] (hd.idle hidle) hplan (by rw [hwaves, List.append_nil]) hindex (by simp) (by simp)
      have hclosed := close_recorded hg henv t.wave hlater.world.kept
      rw [hread] at hclosed
      have hnotes := Note.forall_state? t.wave (env.save (nextDue t.wave q.state) q.world).1 hsnap
      cases hclose : close env t.wave q with
      | error g =>
        rw [hclose] at hclosed
        refine ⟨Recorded.append (l := [.begun t.wave]) (by simp [Note.fault?]) hclosed, hnotes, fun b q h => ?_⟩
        cases h
      | ok q' =>
        rw [hclose] at hclosed
        obtain ⟨hq', hread', hfault⟩ := hclosed
        have hstate := state_of_close hclose
        have hidle' : ∀ id, q'.state.status? id ≠ some .running := by
          rw [hstate]
          exact hd.idle hidle
        obtain ⟨hrec, hsaved, hlast⟩ := ih hwaves (hstate ▸ hafter) hidle' (by rw [hstate]; exact hindex) hq'
          (hstate ▸ hsnap)
        have hread' : (files q'.world).read store.path = _ := hread'
        rw [hread'] at hrec
        refine ⟨Recorded.append (List.forall_mem_cons.mpr ⟨rfl, hfault⟩) hrec,
          List.forall_mem_append.mpr ⟨hnotes, hsaved⟩, fun b r h => (hlast b r h).mono fun v hv => ?_⟩
        exact List.mem_append_right _ hv

theorem of_conclude_eq_ok {ms : Nat} {b : Bool} {m : Summary} (h : conclude env order ms b p = .ok (m, q)) :
    q.state = p.state ∧ (env.save p.state p.world).1 = .ok () := by
  unfold conclude save at h
  split at h
  · next hr =>
    cases h
    exact ⟨rfl, by rw [hr]⟩
  · cases h

theorem split_concat {α : Type} {l pre post : List α} {a x : α} (h : l ++ [x] = pre ++ a :: post) :
    post = [] ∧ pre = l ∧ a = x ∨ ∃ rest, post = rest ++ [x] ∧ l = pre ++ a :: rest := by
  rcases List.eq_nil_or_concat post with rfl | ⟨rest, y, rfl⟩
  · obtain ⟨hl, hx⟩ := List.append_inj' h rfl
    exact .inl ⟨rfl, hl.symm, (List.singleton_inj.mp hx).symm⟩
  · rw [List.concat_eq_append, ← List.cons_append, ← List.append_assoc] at h
    obtain ⟨hl, hx⟩ := List.append_inj' h rfl
    exact .inr ⟨rest, by rw [List.concat_eq_append, List.singleton_inj.mp hx], hl⟩

theorem chronicleWhole_recorded (henv : env.Steady I) (hg : store.Guarded files I env)
    (hplan : order.plan.Sound items completed policy) (hfresh : p.state.Fresh completed) (hp : I p.world) :
    Recorded I store files ((files p.world).read store.path) Prod.snd (chronicleWhole env order p) ∧
    (∀ before n rest s, (chronicleWhole env order p).1 = before ++ n :: rest → n.state? = some s →
      order.plan.Snapshot (fun v => .cutOff v ∈ before) s) ∧
    ∀ m q, (chronicleWhole env order p).2 = .ok (m, q) →
      ∃ before, (chronicleWhole env order p).1 = before ++ [.saved q.state] := by
  obtain ⟨q, hq, hworld, hindex, hblocked, hothers, hbetween⟩ := prepare_between (E := Ended) henv hp hplan hfresh
  have hidle : ∀ id, q.state.status? id ≠ some .running := by
    intro id
    by_cases hb : id ∈ order.plan.blockedIds
    · obtain ⟨b, hmem, rfl⟩ := List.mem_map.mp hb
      rw [show q.state.status? b.itemId = _ from congrArg Prod.fst (hblocked b hmem)]
      simp
    by_cases hw : id ∈ order.plan.waveIds
    · rw [show q.state.status? id = _ from congrArg Prod.fst (hbetween.pending id hw)]
      simp
    · have hid : id ∉ order.plan.ids := by simp [Plan.ids_eq, hb, hw]
      rw [show q.state.status? id = _ from congrArg Prod.fst (hothers id hid)]
      intro hrun
      rcases hfresh.statuses id _ hrun with h | ⟨h, -⟩ <;> cases h
  obtain ⟨hrec, hsaved, hlast⟩ := chronicle_recorded henv hg hplan (List.nil_append _).symm hbetween hidle hindex
    hworld.kept
  rw [read_of_prepare hg henv hp hq] at hrec
  unfold chronicleWhole
  simp only [hq, hindex, List.drop_zero]
  generalize chronicle env order order.plan.waves q = c at hrec hsaved hlast ⊢
  obtain ⟨notes, g | ⟨b, r⟩⟩ := c
  · refine ⟨hrec, fun before n rest s h hs => ?_, fun m q h => by cases h⟩
    exact (hsaved n (by rw [show notes = _ from h]; simp) s hs).mono fun _ h => h.elim
  · obtain ⟨hr, hread, hfault⟩ := hrec
    have hend := conclude_recorded order hg henv (env.elapsed p.world) b hr
    rw [hread] at hend
    refine ⟨hend.append hfault, fun before n rest s h hs => ?_, fun m q' h => ?_⟩
    · rcases split_concat h with ⟨-, rfl, rfl⟩ | ⟨rest, -, hnotes⟩
      · have hstate : s = r.state := by
          cases hsave : (env.save r.state r.world).1 <;> rw [hsave] at hs <;> cases hs <;> rfl
        exact hstate ▸ hlast b r rfl
      · exact (hsaved n (by rw [show notes = _ from hnotes]; simp) s hs).mono fun _ h => h.elim
    · obtain ⟨hstate, hsave⟩ := of_conclude_eq_ok h
      refine ⟨notes, ?_⟩
      show notes ++ [Note.ofSave r.state (env.save r.state r.world).1] = _
      rw [hsave, hstate]
      rfl

end Execution

/-- Whatever the workers return, whenever an interrupt comes for good and whichever saves fail, the state file holds
the state that was saved last, and each state that was to be saved shows the waves as done with, due or still to come.
The first save that fails ends the run, and nothing else makes it fail; then no other wave is begun. -/
theorem RunOrder.snapshots_of_build {items : List Item} {completed : StringSet} {policy : OrphanPolicy} {g : Graph}
    {order : RunOrder} {state : RunState} {σ : Type} {env : Surroundings σ} {I : σ → Prop} {store : StateStore}
    {files : σ → FileTree} (hg : Graph.build items completed policy = .ok g)
    (hp : Plan.build g completed = .ok order.plan) (hstate : state.Fresh completed) (henv : env.Steady I)
    (hstore : store.Guarded files I env) (world : σ) (hworld : I world) :
    ∃ (notes : List Execution.Note) (r : RunResult σ), order.run env state world = r ∧
      order.chronicled env state world = (notes, r) ∧
      (files r.world).read store.path = Execution.Note.held ((files world).read store.path) notes ∧
      (∀ before s e rest, notes = before ++ .refused s e :: rest → rest = [] ∧ r.summary = .error (.state e)) ∧
      (∀ e, r.summary = .error e → ∃ before s e', notes = before ++ [.refused s e'] ∧ e = .state e') ∧
      (∀ before n rest s, notes = before ++ n :: rest → n.state? = some s →
        order.plan.Snapshot (fun v => .cutOff v ∈ before) s) ∧
      ∀ m, r.summary = .ok m → (∃ before, notes = before ++ [.saved r.state]) ∧
        (files r.world).read store.path = .ok r.state.fileText ∧
        (r.state.Writable → store.load (files r.world) = .ok (some r.state)) := by
  have hplan := Plan.sound_of_build (Graph.built_of_build hg) hp
  obtain ⟨hrec, hsnap, hlast⟩ := Execution.chronicleWhole_recorded (p := { world := world, state := state }) henv hstore
    hplan hstate hworld
  refine ⟨(order.chronicled env state world).1, _, rfl, Prod.ext rfl (order.chronicled_snd env state world), ?_⟩
  rw [← order.chronicled_snd]
  unfold RunOrder.chronicled
  generalize Execution.chronicleWhole env order { world := world, state := state } = c at hrec hsnap hlast ⊢
  obtain ⟨notes, g | ⟨m, q⟩⟩ := c
  · obtain ⟨hread, l, s, e, rfl, hl, he⟩ := hrec
    refine ⟨hread, fun before s' e' rest h => ?_, fun e' h => ?_, hsnap, fun m h => by cases h⟩
    · rcases Execution.split_concat h with ⟨rfl, -, h⟩ | ⟨rest, -, rfl⟩
      · cases h
        exact ⟨rfl, congrArg Except.error he⟩
      · have := hl (.refused s' e') (by simp)
        cases this
    · cases h
      exact ⟨l, s, e, rfl, he⟩
  · obtain ⟨hI, hread, hfault⟩ := hrec
    refine ⟨hread, fun before s e rest h => ?_, fun e h => (by cases h), hsnap, fun m' h => ?_⟩
    · have := hfault (.refused s e) (by rw [show notes = _ from h]; simp)
      cases this
    · obtain ⟨before, hnotes⟩ := hlast m q rfl
      have htext : (files q.world).read store.path = .ok q.state.fileText := by
        refine hread.trans ?_
        rw [show notes = _ from hnotes, Execution.Note.held_append]
        rfl
      exact ⟨⟨before, hnotes⟩, htext, fun hw => StateStore.load_of_read hw htext⟩

/-- Surroundings with room for the workspace of `a` only, in which one save succeeds and no other. The world is the
number of saves, and what is kept. -/
def Surroundings.wornDisk : Surroundings (Nat × Option RunState) where
  errand e w := (((fullDisk fun _ => false).errand e 0).1, w)
  fix _ w := (⟨.ok ⟨0, "", ""⟩, 3⟩, w)
  tell _ w := w
  write _ w := w
  save s w :=
    match w with
    | (0, _) => (.ok (), (1, some s))
    | (n + 1, kept) => (.error (.write ".state.json.tmp" .denied), (n + 2, kept))
  interrupted _ := false
  elapsed _ := 0
  pass _ w := w
  now _ := default

theorem Surroundings.wornDisk_steady : wornDisk.Steady fun _ => True where
  errand _ _ hw := .refl hw
  fix _ _ hw := .refl hw
  tell _ _ hw := .refl hw
  write _ _ hw := .refl hw
  save _ _ _ := ⟨trivial, id⟩
  pass _ _ hw := .refl hw

/-- A directory in which a state is kept, or nothing. -/
def StateStore.alone (w : Nat × Option RunState) : FileTree where
  entries := w.2.toList.map fun s => (["state.json"], .file s.fileText)

theorem StateStore.alone_guarded : (StateStore.mk "state.json").Guarded alone (fun _ => True) .wornDisk where
  anchored w _ p hp := by
    rw [List.prefix_nil.mp hp]
    rfl
  saved s w _ h := by
    obtain ⟨n, kept⟩ := w
    cases n with
    | zero =>
      cases kept with
      | none => exact save_of_steps rfl rfl rfl rfl
      | some state => exact save_of_steps rfl rfl rfl rfl
    | succ n => cases h
  refused s w e _ h := by
    obtain ⟨n, kept⟩ := w
    cases n with
    | zero => cases h
    | succ n => rfl
  errand _ _ _ := rfl
  fix _ _ _ := rfl
  tell _ _ _ := rfl
  write _ _ _ := rfl
  pass _ _ _ := rfl

/-- The second of three waves cannot be saved, so the third is not begun, and the file holds what was saved after the
first. -/
theorem RunOrder.snapshots_of_chain : ∃ (order : RunOrder) (notes : List Execution.Note)
    (r : RunResult (Nat × Option RunState)), order.run .wornDisk (.new default) (0, none) = r ∧
      notes.map (fun n => (n.state?.map (·.waveIndex), n.fault?.isSome)) =
        [(none, false), (some 1, false), (none, false), (some 2, true)] ∧
      order.chronicled .wornDisk (.new default) (0, none) = (notes, r) ∧
      (StateStore.alone r.world).read "state.json" = Execution.Note.held (.error .notFound) notes ∧
      (∀ before s e rest, notes = before ++ .refused s e :: rest → rest = [] ∧ r.summary = .error (.state e)) ∧
      (∀ e, r.summary = .error e → ∃ before s e', notes = before ++ [.refused s e'] ∧ e = .state e') ∧
      (∀ before n rest s, notes = before ++ n :: rest → n.state? = some s →
        order.plan.Snapshot (fun v => .cutOff v ∈ before) s) ∧
      ∀ m, r.summary = .ok m → (∃ before, notes = before ++ [.saved r.state]) ∧
        (StateStore.alone r.world).read "state.json" = .ok r.state.fileText ∧
        (r.state.Writable → (StateStore.mk "state.json").load (StateStore.alone r.world) = .ok (some r.state)) := by
  have h : ((Graph.build Plan.chain ∅ .block).bind fun g => (Plan.build g ∅).map fun p =>
      ((⟨"run", p, ⟨2, 1000, false⟩, {}⟩ : RunOrder).chronicled .wornDisk (.new default) (0, none)).1.map
        fun n => (n.state?.map (·.waveIndex), n.fault?.isSome)) =
      .ok [(none, false), (some 1, false), (none, false), (some 2, true)] := by cbv
  obtain ⟨g, p, hg, hp, hv⟩ := Plan.exists_of_bind_eq_ok h
  have hp : Plan.build g ∅ = .ok (⟨"run", p, ⟨2, 1000, false⟩, {}⟩ : RunOrder).plan := hp
  obtain ⟨notes, r, hr, hnotes, hall⟩ := snapshots_of_build hg hp RunState.fresh_new Surroundings.wornDisk_steady
    StateStore.alone_guarded (0, none) trivial
  rw [hnotes] at hv
  exact ⟨_, notes, r, hr, hv, hnotes, hall⟩

end WorkWaves
