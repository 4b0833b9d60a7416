import WorkWaves.Proofs.Json.Reading
import WorkWaves.Proofs.Timestamp
import WorkWaves.State.Json

/-!
# A state is read back from its text

The text of a state is the document of its JSON value, every field of which is read as what was written. So a state
whose numbers and points in time are in range is just what its file says (`ofText_fileText`), and such is every state
that was read (`ofText_writable`).
-/

namespace WorkWaves

theorem Status.read_text (s : Status) : Status.read (.string (some s.text)) = .ok s := by
  cases s <;> rfl

theorem Timestamp.read_text {t : Timestamp} (h : t.Valid) : Timestamp.read (.string (some t.text)) = .ok t := by
  simp [Timestamp.read, ofText?_text h]

theorem Timestamp.read_valid {t : Timestamp} {n : Json.Node} (h : Timestamp.read n = .ok t) : t.Valid := by
  unfold Timestamp.read at h
  split at h
  · split at h
    · next ht =>
      cases h
      exact ofText?_valid ht
    · cases h
  · exact absurd h (Json.Read.mismatch_ne_ok _ _ _)

namespace RunState

open Json Json.Read

/-- The numbers of a state fit their counters, and its points in time exist. -/
structure Writable (s : RunState) : Prop where
  waveIndex : s.waveIndex < Nat.pow 2 64
  attempt : s.attempt < attemptLimit
  startedAt : s.startedAt.Valid
  updatedAt : s.updatedAt.Valid

variable {s : RunState}

namespace Writable

variable {id : String} {now : Timestamp} {target : Status} {s' : RunState}

theorem new (hnow : now.Valid) : (RunState.new now).Writable :=
  ⟨show 0 < Nat.pow 2 64 by decide, show 1 < attemptLimit by decide, hnow, hnow⟩

theorem register (h : s.Writable) (id : String) : (s.register id).Writable := by
  unfold RunState.register
  split
  · exact h
  · exact { h with }

theorem setStatus (h : s.Writable) (hnow : now.Valid) (hs : s.setStatus now id target = .ok s') : s'.Writable := by
  rw [RunState.setStatus_eq] at hs
  split at hs
  · cases hs
    exact { h with updatedAt := hnow }
  · cases hs

theorem setStatusFor {reason : String} (h : s.Writable) (hnow : now.Valid)
    (hs : s.setStatusFor now id target reason = .ok s') : s'.Writable := by
  obtain ⟨t, ht, rfl⟩ := RunState.setStatusFor_eq_ok_iff.mp hs
  exact { h.setStatus hnow ht with }

theorem beginAttempt (h : s.Writable) (hnow : now.Valid) : (s.beginAttempt now).Writable :=
  ⟨Nat.two_pow_pos 64, Nat.mod_lt _ (Nat.two_pow_pos 32), h.startedAt, hnow⟩

end Writable

theorem node_toJson (s : RunState) : node s.toJson = .object
    ([(.string (some "wave_index"), .number (numeralOf s.waveIndex)),
      (.string (some "items"), .object (s.statuses.entries.map fun e => (.string (some e.1), .string (some e.2.text))) true)] ++
    (if s.reasons.isEmpty then [] else
      [(.string (some "reasons"), .object (s.reasons.entries.map fun e => (.string (some e.1), .string (some e.2))) true)]) ++
    [(.string (some "attempt"), .number (numeralOf s.attempt)),
      (.string (some "started_at"), .string (some s.startedAt.text)),
      (.string (some "updated_at"), .string (some s.updatedAt.text))]) true := by
  cases h : s.reasons.isEmpty <;>
    simp [toJson, node, memberNodes_eq, h, Json.nat, Timestamp.toJson, Function.comp_def]

theorem reasons_eq_empty (h : s.reasons.isEmpty = true) : s.reasons = ∅ :=
  StringMap.ext (List.isEmpty_iff.mp h)

/-- A state is what the text of its file says. -/
theorem ofText_fileText (h : s.Writable) : ofText s.fileText = .ok s := by
  have hwave : natural (Nat.pow 2 64) "usize" (.number (numeralOf s.waveIndex)) = .ok s.waveIndex :=
    natural_numeralOf h.waveIndex h.waveIndex
  have hattempt : natural attemptLimit "u32" (.number (numeralOf s.attempt)) = .ok s.attempt :=
    natural_numeralOf h.attempt (Nat.lt_trans h.attempt (by decide))
  have hstatuses := map_object (fun st => .string (some (Status.text st))) Status.read_text s.statuses
  have hreasons := @map_object _ string (fun r => .string (some r)) (fun _ => rfl) s.reasons
  have hstarted := Timestamp.read_text h.startedAt
  have hupdated := Timestamp.read_text h.updatedAt
  rw [ofText, fileText, readText_pretty, RunState.read, node_toJson]
  cases he : s.reasons.isEmpty with
  | true =>
    -- The reasons are left out, and stay the empty ones.
    simp [record, readMember, fields, hwave, hstatuses, hattempt, hstarted, hupdated, Except.map, bind, Except.bind,
      pure, Except.pure, Parts.state]
    exact congrArg (fun r => { s with reasons := r }) (reasons_eq_empty he).symm
  | false =>
    simp [record, readMember, fields, hwave, hstatuses, hreasons, hattempt, hstarted, hupdated, Except.map, bind,
      Except.bind, pure, Except.pure, Parts.state]

/-! ### What is read can be written -/

/-- The parts that were read fit, as far as they are there. -/
structure Parts.Fit (p : Parts) : Prop where
  waveIndex : ∀ n ∈ p.waveIndex, n < Nat.pow 2 64
  attempt : ∀ n ∈ p.attempt, n < attemptLimit
  startedAt : ∀ t ∈ p.startedAt, t.Valid
  updatedAt : ∀ t ∈ p.updatedAt, t.Valid

theorem fields_fit : ∀ f ∈ fields, ∀ n p p', f.read n p = .ok p' → Parts.Fit p → Parts.Fit p' := by
  simp only [fields, List.forall_mem_cons, List.not_mem_nil, false_implies, implies_true, and_true]
  refine ⟨?_, ?_, ?_, ?_, ?_, ?_⟩
  all_goals
    intro n p p' h hp
    obtain ⟨v, hv, rfl⟩ := exists_of_map h
  · exact { hp with waveIndex := fun m hm => by cases hm; exact natural_lt hv }
  · exact { hp with }
  · exact { hp with }
  · exact { hp with attempt := fun m hm => by cases hm; exact natural_lt hv }
  · exact { hp with startedAt := fun t ht => by cases ht; exact Timestamp.read_valid hv }
  · exact { hp with updatedAt := fun t ht => by cases ht; exact Timestamp.read_valid hv }

theorem fields_set : ∀ f ∈ fields, ∀ n p p', f.read n p = .ok p' → f.isSet p' = true := by
  simp only [fields, List.forall_mem_cons, List.not_mem_nil, false_implies, implies_true, and_true]
  refine ⟨?_, ?_, ?_, ?_, ?_, ?_⟩
  all_goals
    intro n p p' h
    obtain ⟨v, -, rfl⟩ := exists_of_map h
    rfl

theorem fields_keep : ∀ g ∈ fields, ∀ f ∈ fields, ∀ n p p', f.read n p = .ok p' → g.isSet p = true →
    g.isSet p' = true := by
  intro g hg
  simp only [fields, List.forall_mem_cons, List.not_mem_nil, false_implies, implies_true, and_true]
  refine ⟨?_, ?_, ?_, ?_, ?_, ?_⟩
  all_goals
    intro n p p' h hset
    obtain ⟨v, -, rfl⟩ := exists_of_map h
    simp only [fields, List.mem_cons, List.not_mem_nil, or_false] at hg
    rcases hg with rfl | rfl | rfl | rfl | rfl | rfl <;> first | rfl | exact hset

/-- A state that was read can be written. -/
theorem ofText_writable {text : String} (h : ofText text = .ok s) : s.Writable := by
  unfold ofText readText at h
  cases hr : read (Document.ofText text).root with
  | error e => simp [hr, bind, Except.bind] at h
  | ok s' =>
    simp only [hr, bind, Except.bind] at h
    split at h
    · cases h
      unfold RunState.read at hr
      cases hp : record "ExecutionState" fields {} (Document.ofText text).root with
      | error e => simp [hp, Except.map] at hr
      | ok p =>
        simp only [hp, Except.map, Except.ok.injEq] at hr
        obtain ⟨hfit, hreq⟩ := record_eq_ok hp fields_fit ⟨by simp, by simp, by simp, by simp⟩ fields_set fields_keep
        simp only [fields, List.forall_mem_cons] at hreq
        obtain ⟨-, -, -, -, hstarted, hupdated, -⟩ := hreq
        obtain ⟨started, hs⟩ := Option.isSome_iff_exists.mp (hstarted trivial)
        obtain ⟨updated, hu⟩ := Option.isSome_iff_exists.mp (hupdated trivial)
        subst hr
        refine ⟨?_, ?_, ?_, ?_⟩
        · show p.waveIndex.getD 0 < Nat.pow 2 64
          cases hw : p.waveIndex with
          | none => decide
          | some n => exact hfit.waveIndex n hw
        · show p.attempt.getD 1 < attemptLimit
          cases ha : p.attempt with
          | none => decide
          | some n => exact hfit.attempt n ha
        · show (p.startedAt.getD default).Valid
          rw [show p.startedAt = _ from hs]
          exact hfit.startedAt started hs
        · show (p.updatedAt.getD default).Valid
          rw [show p.updatedAt = _ from hu]
          exact hfit.updatedAt updated hu
    · cases h

end RunState

end WorkWaves
