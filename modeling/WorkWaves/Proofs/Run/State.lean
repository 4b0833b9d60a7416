import WorkWaves.State.Basic

/-!
# What moves do to a state

`stand` shows where an item stands and why, and the lemmas say what each operation does to it. A state is `Fresh`
when a run may begin with it: a new state is, and so is one with which another attempt begins.
-/

namespace WorkWaves.RunState

variable {s : RunState} {completed : StringSet} {id x : String} {now : Timestamp}

/-- Where an item stands, and why. -/
def stand (s : RunState) (id : String) : Option Status × Option String := (s.status? id, s.reason? id)

theorem status?_register : (s.register id).status? x =
    if x = id then some ((s.status? id).getD .pending) else s.status? x := by
  unfold register
  split
  · next h =>
    split
    · next hx =>
      subst hx
      obtain ⟨st, hst⟩ := Option.isSome_iff_exists.mp h
      have hst : s.status? x = some st := hst
      rw [hst]
      rfl
    · rfl
  · next h =>
    have hnone : s.status? id = none := Option.not_isSome_iff_eq_none.mp h
    show (s.statuses.insert id .pending).get? x = _
    rw [StringMap.get?_insert, hnone]
    rfl

theorem reason?_register : (s.register id).reason? x = s.reason? x := by
  unfold register
  split <;> rfl

theorem waveIndex_register : (s.register id).waveIndex = s.waveIndex := by
  unfold register
  split <;> rfl

/-- Registering ids makes them known, and changes nothing else. -/
theorem stand_foldl_register {ids : List String} : (ids.foldl register s).stand x =
    (if x ∈ ids then some ((s.status? x).getD .pending) else s.status? x, s.reason? x) := by
  induction ids generalizing s with
  | nil => rfl
  | cons id ids ih =>
    rw [List.foldl_cons, ih, status?_register, reason?_register]
    by_cases hx : x = id
    · subst hx
      simp
    · simp [hx]

theorem waveIndex_foldl_register {ids : List String} : (ids.foldl register s).waveIndex = s.waveIndex := by
  induction ids generalizing s with
  | nil => rfl
  | cons id ids ih => rw [List.foldl_cons, ih, waveIndex_register]

theorem attempt_register : (s.register id).attempt = s.attempt := by
  unfold register
  split <;> rfl

theorem attempt_foldl_register {ids : List String} : (ids.foldl register s).attempt = s.attempt := by
  induction ids generalizing s with
  | nil => rfl
  | cons id ids ih => rw [List.foldl_cons, ih, attempt_register]

/-! ### Moves -/

/-- A move that is allowed changes where the item stands, and nothing else. -/
theorem setStatus_eq_ok (now : Timestamp) {target : Status} (h : ((s.status? id).getD .pending).allows target = true) :
    ∃ s', s.setStatus now id target = .ok s' ∧ s'.waveIndex = s.waveIndex ∧
      ∀ x, s'.stand x = if x = id then (some target, s.reason? id) else s.stand x := by
  rw [setStatus_eq]
  refine ⟨_, if_pos h, rfl, fun x => ?_⟩
  show ((s.statuses.insert id target).get? x, s.reason? x) = _
  rw [StringMap.get?_insert]
  split
  · next hx => rw [hx]
  · rfl

theorem setStatusFor_eq_ok (now : Timestamp) {target : Status} (reason : String)
    (h : ((s.status? id).getD .pending).allows target = true) :
    ∃ s', s.setStatusFor now id target reason = .ok s' ∧ s'.waveIndex = s.waveIndex ∧
      ∀ x, s'.stand x = if x = id then (some target, some reason) else s.stand x := by
  obtain ⟨s₁, h₁, hw, hs⟩ := setStatus_eq_ok now h
  refine ⟨_, setStatusFor_eq_ok_iff.mpr ⟨s₁, h₁, rfl⟩, hw, fun x => ?_⟩
  have hx := hs x
  show (s₁.status? x, (s₁.reasons.insert id reason).get? x) = _
  rw [StringMap.get?_insert]
  split at hx
  · next hx' => rw [if_pos hx', if_pos hx', show s₁.status? x = _ from congrArg Prod.fst hx]
  · next hx' => rw [if_neg hx', if_neg hx', ← hx]; rfl

theorem allows_of_setStatus {s' : RunState} {target : Status} (h : s.setStatus now id target = .ok s') :
    ((s.status? id).getD .pending).allows target = true := by
  rw [setStatus_eq] at h
  split at h
  · assumption
  · cases h

theorem stand_of_setStatus {s' : RunState} {target : Status} (h : s.setStatus now id target = .ok s') :
    ∀ x, s'.stand x = if x = id then (some target, s.reason? id) else s.stand x := by
  obtain ⟨s₁, h₁, -, hs⟩ := setStatus_eq_ok now (allows_of_setStatus h)
  cases h₁.symm.trans h
  exact hs

theorem allows_of_setStatusFor {s' : RunState} {target : Status} {reason : String}
    (h : s.setStatusFor now id target reason = .ok s') : ((s.status? id).getD .pending).allows target = true := by
  obtain ⟨t, ht, -⟩ := setStatusFor_eq_ok_iff.mp h
  exact allows_of_setStatus ht

theorem stand_of_setStatusFor {s' : RunState} {target : Status} {reason : String}
    (h : s.setStatusFor now id target reason = .ok s') :
    ∀ x, s'.stand x = if x = id then (some target, some reason) else s.stand x := by
  obtain ⟨s₁, h₁, -, hs⟩ := setStatusFor_eq_ok now reason (allows_of_setStatusFor h)
  cases h₁.symm.trans h
  exact hs

theorem mem_completed : id ∈ s.completed ↔ s.status? id = some .completed := by
  unfold completed idsWith status?
  rw [StringSet.mem_ofList, ← StringMap.mem_entries, List.mem_map]
  constructor
  · rintro ⟨⟨id, st⟩, he, rfl⟩
    obtain ⟨he, hst⟩ := List.mem_filter.mp he
    exact eq_of_beq hst ▸ he
  · exact fun h => ⟨(id, .completed), List.mem_filter.mpr ⟨h, rfl⟩, rfl⟩

/-! ### States with which a run begins -/

/-- No wave was run, and nothing is known of any item but that it is pending or completed beforehand. -/
structure Fresh (completed : StringSet) (s : RunState) : Prop where
  waveIndex : s.waveIndex = 0
  statuses : ∀ id st, s.status? id = some st → st = .pending ∨ st = .completed ∧ id ∈ completed

/-- Ids that are not completed are pending once a fresh state knows them. -/
theorem Fresh.stand_foldl_register {ids : List String} (h : s.Fresh completed) (hids : ∀ id ∈ ids, id ∉ completed)
    (hx : x ∈ ids) : (ids.foldl register s).stand x = (some .pending, s.reason? x) := by
  rw [RunState.stand_foldl_register, if_pos hx]
  cases hst : s.status? x with
  | none => rfl
  | some st =>
    rcases h.statuses x st hst with rfl | ⟨-, hc⟩
    · rfl
    · exact absurd hc (hids x hx)

theorem fresh_new : Fresh completed (new now) := ⟨rfl, fun _ _ h => by cases h⟩

theorem status?_beginAttempt : (s.beginAttempt now).status? id =
    (s.status? id).map fun st => if st = .completed then st else .pending := StringMap.get?_map

/-- A state with which a run begins has reasons for nothing but what is completed. -/
structure Begun (completed : StringSet) (s : RunState) : Prop extends Fresh completed s where
  reasons : ∀ id, s.reason? id ≠ none → s.status? id = some .completed

theorem Begun.reason?_eq_none (h : Begun completed s) (hid : id ∉ completed) : s.reason? id = none := by
  by_cases hr : s.reason? id = none
  · exact hr
  · rcases h.statuses id _ (h.reasons id hr) with hc | ⟨-, hc⟩
    · cases hc
    · exact absurd hc hid

theorem begun_new : Begun completed (new now) := ⟨fresh_new, fun _ h => absurd rfl h⟩

/-! ### States that uphold what is completed -/

/-- Another attempt leaves what is completed, and all other known items are pending for no reason. -/
theorem stand_beginAttempt : (s.beginAttempt now).stand id = match s.status? id with
    | some .completed => s.stand id
    | some _ => (some .pending, none)
    | none => (none, s.reason? id) := by
  have hreason : (s.beginAttempt now).reason? id = (s.reasons.filter _).get? id := rfl
  unfold stand
  rw [status?_beginAttempt, hreason, StringMap.get?_filter]
  cases s.status? id with
  | none => cases hr : s.reasons.get? id <;> simp [reason?, hr]
  | some st => cases st <;> cases hr : s.reasons.get? id <;> simp [reason?, hr]

/-- What is completed stands as before. -/
def UpheldBy (s t : RunState) : Prop := ∀ id, s.status? id = some .completed → t.stand id = s.stand id

theorem UpheldBy.refl (s : RunState) : s.UpheldBy s := fun _ _ => rfl

theorem UpheldBy.trans {s t u : RunState} (h : s.UpheldBy t) (h' : t.UpheldBy u) : s.UpheldBy u := fun id hid =>
  (h' id ((congrArg Prod.fst (h id hid)).trans hid)).trans (h id hid)

theorem upheldBy_register : s.UpheldBy (s.register id) := fun x hx => by
  unfold stand
  rw [status?_register, reason?_register]
  split
  · next he => rw [← he, hx]; rfl
  · rfl

/-- No move takes a completed item away. -/
theorem upheldBy_of_move {s' : RunState} {target : Status} {stand' : Option Status × Option String}
    (h : ((s.status? id).getD .pending).allows target = true)
    (hs : ∀ x, s'.stand x = if x = id then stand' else s.stand x) : s.UpheldBy s' := fun x hx => by
  rw [hs, if_neg]
  rintro rfl
  rw [hx] at h
  cases target <;> cases h

/-- What is completed stands as before, all other known items are pending for no reason, and no item is new. -/
structure RenewedBy (s t : RunState) : Prop where
  upheld : s.UpheldBy t
  pending : ∀ id st, s.status? id = some st → st ≠ .completed → t.stand id = (some .pending, none)
  unknown : ∀ id, s.status? id = none → t.status? id = none

theorem renewedBy_beginAttempt : s.RenewedBy (s.beginAttempt now) where
  upheld id hid := by
    rw [stand_beginAttempt, hid]
  pending id st hid hst := by
    rw [stand_beginAttempt, hid]
    cases st with
    | completed => exact absurd rfl hst
    | _ => rfl
  unknown id hid := by
    rw [status?_beginAttempt, hid]
    rfl

end WorkWaves.RunState
