import WorkWaves.Graph.Waves
import WorkWaves.Proofs.Graph.Build

/-!
# Waves respect what their items wait for

`InTurn`: groups of items are taken up one after the other, and whatever an item waits for is there before its
group begins. The waves of a graph are in turn (`wavesFrom_inTurn`), take up each item at most once, and hold
exactly what is done after them and was not before.
-/

namespace WorkWaves

/-- Groups of items, each taken up only when what its items wait for is there. -/
def InTurn (waits : Item → String → Prop) : (String → Prop) → List (List Item) → Prop
  | _, [] => True
  | there, is :: rest =>
    (∀ i ∈ is, ∀ b, waits i b → there b) ∧ InTurn waits (fun id => there id ∨ id ∈ is.map (·.id)) rest

namespace InTurn

variable {waits : Item → String → Prop} {there there' : String → Prop} {iss jss : List (List Item)}

theorem imp {waits' : Item → String → Prop} (h : InTurn waits there iss)
    (hw : ∀ i ∈ iss.flatten, ∀ b, waits' i b → waits i b) (hm : ∀ id, there id → there' id) :
    InTurn waits' there' iss := by
  induction iss generalizing there there' with
  | nil => trivial
  | cons is rest ih =>
    obtain ⟨hi, hr⟩ := h
    refine ⟨fun i hi' b hb => hm b (hi i hi' b (hw i (by simp [hi']) b hb)), ih hr ?_ fun id => Or.imp_left (hm id)⟩
    exact fun i hi' => hw i (by simp [hi'])

theorem mono (h : InTurn waits there iss) (hm : ∀ id, there id → there' id) : InTurn waits there' iss :=
  h.imp (fun _ _ _ hb => hb) hm

theorem of_forall (h : ∀ is ∈ iss, ∀ i ∈ is, ∀ b, waits i b → there b) : InTurn waits there iss := by
  induction iss generalizing there with
  | nil => trivial
  | cons is rest ih =>
    refine ⟨h is (by simp), ih fun js hj i hi b hb => .inl (h js (by simp [hj]) i hi b hb)⟩

theorem append_iff : InTurn waits there (iss ++ jss) ↔
    InTurn waits there iss ∧ InTurn waits (fun id => there id ∨ id ∈ iss.flatten.map (·.id)) jss := by
  induction iss generalizing there with
  | nil => simp [InTurn]
  | cons is rest ih =>
    simp only [List.cons_append, InTurn, ih, and_assoc, List.flatten_cons, List.map_append, List.mem_append, or_assoc]

/-- What an item waits for is there beforehand or in an earlier group. -/
theorem of_split {pre post : List (List Item)} {is : List Item} (h : InTurn waits there (pre ++ is :: post))
    {i : Item} (hi : i ∈ is) {b : String} (hb : waits i b) :
    there b ∨ ∃ js ∈ pre, b ∈ js.map (·.id) := by
  rcases (append_iff.mp h).2.1 i hi b hb with h | h
  · exact .inl h
  · obtain ⟨j, hj, rfl⟩ := List.mem_map.mp h
    obtain ⟨js, hjs, hj⟩ := List.mem_flatten.mp hj
    exact .inr ⟨js, hjs, List.mem_map_of_mem hj⟩

/-- Ids of which none is there, and each of which waits for another one of them, never get their turn. -/
theorem not_mem_of_closed {S : String → Prop} (h : InTurn waits there iss) (hS : ∀ id, S id → ¬ there id)
    (hc : ∀ i ∈ iss.flatten, S i.id → ∃ b, waits i b ∧ S b) : ∀ i ∈ iss.flatten, ¬ S i.id := by
  induction iss generalizing there with
  | nil => simp
  | cons is rest ih =>
    obtain ⟨hi, hr⟩ := h
    have his : ∀ i ∈ is, ¬ S i.id := fun i hi' hs =>
      let ⟨b, hb, hb'⟩ := hc i (by simp [hi']) hs
      hS b hb' (hi i hi' b hb)
    have hrest := ih hr (fun id hs => by
      rintro (hd | hd)
      · exact hS id hs hd
      · obtain ⟨j, hj, rfl⟩ := List.mem_map.mp hd
        exact his j hj hs) fun i hi' => hc i (by simp [hi'])
    intro i hi'
    rw [List.flatten_cons, List.mem_append] at hi'
    exact hi'.elim (his i) (hrest i)

end InTurn

namespace Graph

variable {g : Graph} {done : StringSet}

theorem wavesFrom_succ_of_ready_eq_nil {fuel k : Nat} (h : g.ready done = []) :
    g.wavesFrom (fuel + 1) k done = ([], done) := by
  simp [wavesFrom, h]

theorem wavesFrom_succ_of_ready_ne_nil {fuel k : Nat} (h : g.ready done ≠ []) :
    g.wavesFrom (fuel + 1) k done =
      let rest := g.wavesFrom fuel (k + 1) (done ∪ .ofList ((g.ready done).map (·.id)))
      (⟨k, g.ready done⟩ :: rest.1, rest.2) := by
  rw [wavesFrom]
  split
  · next hr => exact absurd hr h
  · rfl

theorem isDone_union_ready {id : String} :
    g.isDone (done ∪ .ofList ((g.ready done).map (·.id))) id = true ↔
      g.isDone done id = true ∨ id ∈ (g.ready done).map (·.id) := by
  simp only [isDone_iff, StringSet.mem_union, StringSet.mem_ofList]
  constructor <;> (rintro ((h | h) | h) <;> simp [h])

/-- The waves of a graph: they are in turn, hold each item once and nothing that is done, and make done what they hold. -/
structure WavesOk (g : Graph) (done : StringSet) (ws : List Wave) (done' : StringSet) : Prop where
  inTurn : InTurn (fun i b => b ∈ g.blockersOf i.id) (g.isDone done · = true) (ws.map (·.items))
  nodup : (ws.flatMap Wave.ids).Nodup
  fresh : ∀ id ∈ ws.flatMap Wave.ids, g.isDone done id = false
  mem_items : ∀ w ∈ ws, ∀ i ∈ w.items, i ∈ g.items
  isDone_iff : ∀ id, g.isDone done' id = true ↔ g.isDone done id = true ∨ id ∈ ws.flatMap Wave.ids

theorem wavesOk_nil : WavesOk g done [] done := by
  refine ⟨trivial, ?_, ?_, ?_, ?_⟩ <;> simp

theorem WavesOk.cons (hn : g.ids.Nodup) {k : Nat} {ws : List Wave} {done' : StringSet}
    (h : WavesOk g (done ∪ .ofList ((g.ready done).map (·.id))) ws done') :
    WavesOk g done (⟨k, g.ready done⟩ :: ws) done' := by
  have hready : ∀ i ∈ g.ready done, i ∈ g.items ∧ g.isDone done i.id = false ∧
      ∀ b ∈ g.blockersOf i.id, g.isDone done b = true := fun i hi => (mem_ready hn).mp hi
  have hfresh : ∀ id ∈ ws.flatMap Wave.ids, g.isDone done id = false ∧ id ∉ (g.ready done).map (·.id) := by
    intro id hid
    have hnot := h.fresh id hid
    rw [← Bool.not_eq_true, isDone_union_ready, not_or, Bool.not_eq_true] at hnot
    exact hnot
  refine ⟨⟨fun i hi b hb => (hready i hi).2.2 b hb, ?_⟩, ?_, ?_, ?_, ?_⟩
  · exact h.inTurn.mono fun id hd => isDone_union_ready.mp hd
  · rw [List.flatMap_cons, List.nodup_append]
    refine ⟨hn.sublist (items_map_id ▸ ready_sublist.map _), h.nodup, ?_⟩
    rintro a ha b hb rfl
    exact (hfresh a hb).2 ha
  · intro id hid
    rw [List.flatMap_cons, List.mem_append] at hid
    rcases hid with hid | hid
    · obtain ⟨i, hi, rfl⟩ := List.mem_map.mp hid
      exact (hready i hi).2.1
    · exact (hfresh id hid).1
  · intro w hw i hi
    rcases List.mem_cons.mp hw with rfl | hw
    · exact (hready i hi).1
    · exact h.mem_items w hw i hi
  · intro id
    rw [h.isDone_iff, isDone_union_ready, List.flatMap_cons, List.mem_append, or_assoc]
    rfl

theorem wavesFrom_ok (hn : g.ids.Nodup) (fuel k : Nat) (done : StringSet) :
    WavesOk g done (g.wavesFrom fuel k done).1 (g.wavesFrom fuel k done).2 := by
  induction fuel generalizing k done with
  | zero => exact wavesOk_nil
  | succ fuel ih =>
    by_cases hr : g.ready done = []
    · rw [wavesFrom_succ_of_ready_eq_nil hr]
      exact wavesOk_nil
    · rw [wavesFrom_succ_of_ready_ne_nil hr]
      exact (ih (k + 1) _).cons hn

/-- No wave is without items. -/
theorem items_ne_nil_of_mem_wavesFrom {fuel k : Nat} {w : Wave} (hw : w ∈ (g.wavesFrom fuel k done).1) :
    w.items ≠ [] := by
  induction fuel generalizing k done with
  | zero => simp [wavesFrom] at hw
  | succ fuel ih =>
    by_cases hr : g.ready done = []
    · rw [wavesFrom_succ_of_ready_eq_nil hr] at hw
      simp at hw
    · rw [wavesFrom_succ_of_ready_ne_nil hr] at hw
      rcases List.mem_cons.mp hw with rfl | hw
      · exact hr
      · exact ih hw

/-- Every item is done after the waves or counts as blocked, if the waves can be arranged at all. -/
theorem waves_eq_ok {ws : List Wave} (h : g.waves done = .ok ws) :
    ∃ done', g.wavesFrom (g.size + 1) 0 done = (ws, done') ∧
      ∀ id ∈ g.ids, g.isDone done' id = true ∨ id ∈ (g.blocked done).map (·.itemId) := by
  unfold waves at h
  split at h
  next ws' done' hw =>
  split at h
  · next hl =>
    cases h
    refine ⟨done', hw, fun id hid => ?_⟩
    have hnot : id ∉ g.leftover done' (g.blocked done) := by simp [hl]
    rw [leftover, List.mem_filter, not_and] at hnot
    have h := hnot hid
    simp only [Bool.and_eq_true, Bool.not_eq_true', not_and, Bool.not_eq_false, List.any_eq_true, beq_iff_eq] at h
    by_cases hd : g.isDone done' id = true
    · exact .inl hd
    · exact .inr (List.mem_map.mpr (h (by simpa using hd)))
  · split at h <;> cases h

end Graph

end WorkWaves
