import WorkWaves.Proofs.Graph.Refusal

/-!
# Waves are the earliest possible

`Earliest`: the waves are numbered in a row, an item comes after all that it waits for, and it comes right after
something that it waits for unless it is in the first wave. The waves of a graph are so because whatever is ready is
taken up at once (`wavesFrom_earliest`), so the number of an item's wave is the length of the longest way down to
what is done (`earliest_of_build`).
-/

namespace WorkWaves.Graph

variable {g : Graph} {items : List Item} {external completed done : StringSet} {policy : OrphanPolicy} {k : Nat}
  {ws : List Wave}

/-- Waves from the one numbered `k` on, in which no item could be earlier. -/
structure Earliest (g : Graph) (done : StringSet) (k : Nat) (ws : List Wave) : Prop where
  index : ws.map (·.index) = List.range' k ws.length
  after : ∀ w ∈ ws, ∀ i ∈ w.items, ∀ b ∈ g.blockersOf i.id, g.isDone done b = false →
    ∃ v ∈ ws, b ∈ v.ids ∧ v.index < w.index
  tight : ∀ w ∈ ws, ∀ i ∈ w.items, w.index = k ∨
    ∃ b ∈ g.blockersOf i.id, g.isDone done b = false ∧ ∃ v ∈ ws, b ∈ v.ids ∧ w.index = v.index + 1

theorem earliest_nil : Earliest g done k [] := by
  refine ⟨rfl, ?_, ?_⟩ <;> simp

theorem Earliest.le_index (h : Earliest g done k ws) {w : Wave} (hw : w ∈ ws) : k ≤ w.index := by
  have hmem : w.index ∈ List.range' k ws.length := h.index ▸ List.mem_map_of_mem hw
  exact (List.mem_range'_1.mp hmem).1

/-- What is ready comes first, and then the waves that follow when it is done. -/
theorem Earliest.cons (hn : g.ids.Nodup) {done' : StringSet}
    (h : Earliest g (done ∪ .ofList ((g.ready done).map (·.id))) (k + 1) ws)
    (hok : WavesOk g (done ∪ .ofList ((g.ready done).map (·.id))) ws done') :
    Earliest g done k (⟨k, g.ready done⟩ :: ws) := by
  have hready : ∀ i ∈ g.ready done, ∀ b ∈ g.blockersOf i.id, g.isDone done b = true := fun i hi =>
    ((mem_ready hn).mp hi).2.2
  have hundone {b : String} (hb : g.isDone (done ∪ .ofList ((g.ready done).map (·.id))) b = false) :
      g.isDone done b = false := by
    rw [← Bool.not_eq_true, isDone_union_ready, not_or] at hb
    exact Bool.eq_false_iff.mpr hb.1
  refine ⟨?_, fun w hw i hi b hb hd => ?_, fun w hw i hi => ?_⟩
  · rw [List.map_cons, h.index, List.length_cons, List.range'_succ]
  · rcases List.mem_cons.mp hw with rfl | hw
    · rw [hready i hi b hb] at hd
      cases hd
    · by_cases hb' : b ∈ (g.ready done).map (·.id)
      · exact ⟨_, List.mem_cons_self .., hb', h.le_index hw⟩
      · have hd' : g.isDone (done ∪ .ofList ((g.ready done).map (·.id))) b = false := by
          rw [← Bool.not_eq_true, isDone_union_ready, not_or]
          exact ⟨Bool.eq_false_iff.mp hd, hb'⟩
        obtain ⟨v, hv, hbv, hlt⟩ := h.after w hw i hi b hb hd'
        exact ⟨v, List.mem_cons_of_mem _ hv, hbv, hlt⟩
  · rcases List.mem_cons.mp hw with rfl | hw
    · exact .inl rfl
    · refine .inr ?_
      rcases h.tight w hw i hi with hk | ⟨b, hb, hd, v, hv, hbv, he⟩
      · -- An item of the second wave was not ready before: something that it waits for is in the first one.
        have hitem := hok.mem_items w hw i hi
        have hfresh := hok.fresh i.id (List.mem_flatMap.mpr ⟨w, hw, List.mem_map_of_mem hi⟩)
        rw [← Bool.not_eq_true, isDone_union_ready, not_or] at hfresh
        have hnot : i ∉ g.ready done := fun hi' => hfresh.2 (List.mem_map_of_mem hi')
        rw [mem_ready hn] at hnot
        obtain ⟨b, hb, hd⟩ : ∃ b ∈ g.blockersOf i.id, g.isDone done b = false := by
          simpa [hitem, Bool.eq_false_iff.mpr hfresh.1] using hnot
        refine ⟨b, hb, hd, _, List.mem_cons_self .., ?_, hk⟩
        by_contra hb'
        have hd' : g.isDone (done ∪ .ofList ((g.ready done).map (·.id))) b = false := by
          rw [← Bool.not_eq_true, isDone_union_ready, not_or]
          exact ⟨Bool.eq_false_iff.mp hd, hb'⟩
        obtain ⟨v, hv, -, hlt⟩ := h.after w hw i hi b hb hd'
        have := h.le_index hv
        omega
      · exact ⟨b, hb, hundone hd, v, List.mem_cons_of_mem _ hv, hbv, he⟩

theorem wavesFrom_earliest (hn : g.ids.Nodup) (fuel k : Nat) (done : StringSet) :
    Earliest g done k (g.wavesFrom fuel k done).1 := by
  induction fuel generalizing k done with
  | zero => exact earliest_nil
  | succ fuel ih =>
    by_cases hr : g.ready done = []
    · rw [wavesFrom_succ_of_ready_eq_nil hr]
      exact earliest_nil
    · rw [wavesFrom_succ_of_ready_ne_nil hr]
      exact (ih (k + 1) _).cons hn (wavesFrom_ok hn fuel (k + 1) _)

/-- The items of a wave are in the order in which they are taken up. -/
theorem inPlace_of_mem_wavesFrom (hg : g.items.Pairwise Item.InPlace) {fuel : Nat} {w : Wave}
    (hw : w ∈ (g.wavesFrom fuel k done).1) : w.items.Pairwise Item.InPlace := by
  induction fuel generalizing k done with
  | zero => simp [wavesFrom] at hw
  | succ fuel ih =>
    by_cases hr : g.ready done = []
    · rw [wavesFrom_succ_of_ready_eq_nil hr] at hw
      simp at hw
    · rw [wavesFrom_succ_of_ready_ne_nil hr] at hw
      rcases List.mem_cons.mp hw with rfl | hw
      · exact hg.sublist ready_sublist
      · exact ih hw

theorem items_inPlace (hg : Graph.build items external policy = .ok g) : g.items.Pairwise Item.InPlace := by
  obtain ⟨-, rfl⟩ := build_eq_ok_iff.mp hg
  have hitems : (declared items external policy).items = Item.inOrder items := by
    rw [Graph.items, declared, List.map_map]
    exact List.map_id _
  rw [hitems]
  exact Item.inOrder_inPlace items

/-- No id is in two waves. -/
theorem WavesOk.eq_of_mem {done' : StringSet} (h : WavesOk g done ws done') {v w : Wave} (hv : v ∈ ws) (hw : w ∈ ws)
    {id : String} (hid : id ∈ v.ids) (hid' : id ∈ w.ids) : v = w := by
  obtain ⟨-, hdisjoint⟩ := List.nodup_flatMap.mp h.nodup
  have : Std.Symm (Function.onFun List.Disjoint Wave.ids) := ⟨fun _ _ h => h.symm⟩
  by_contra hne
  exact hdisjoint.forall hv hw hne hid hid'

/-- In waves from the first on, a wave that waits for something has the number after the largest one among those
that it waits for. -/
theorem Earliest.isGreatest {done' : StringSet} (h : Earliest g done 0 ws) (hok : WavesOk g done ws done') {w : Wave}
    (hw : w ∈ ws) {i : Item} (hi : i ∈ w.items) (hb : ∃ b ∈ g.blockersOf i.id, g.isDone done b = false) :
    IsGreatest {n | ∃ b ∈ g.blockersOf i.id, g.isDone done b = false ∧ ∃ v ∈ ws, b ∈ v.ids ∧ n = v.index + 1}
      w.index := by
  constructor
  · rcases h.tight w hw i hi with h0 | htight
    · obtain ⟨b, hb, hd⟩ := hb
      obtain ⟨v, -, -, hlt⟩ := h.after w hw i hi b hb hd
      omega
    · exact htight
  · rintro n ⟨b, hb, hd, v, hv, hbv, rfl⟩
    obtain ⟨v', hv', hbv', hlt⟩ := h.after w hw i hi b hb hd
    rw [hok.eq_of_mem hv hv' hbv hbv']
    exact hlt

/-! ### Nothing is missing -/

/-- What can be done by completing ready items, one after the other. -/
inductive Attained (g : Graph) (completed : StringSet) : StringSet → Prop
  | start : Attained g completed completed
  | complete {done : StringSet} {i : Item} : Attained g completed done → i ∈ g.ready done →
    Attained g completed (done.insert i.id)

/-- Where nothing is ready, everything is done that can be done. -/
theorem Attained.isDone (h : g.Attained completed done) (hn : g.ids.Nodup) {last : StringSet}
    (hlast : g.ready last = []) (hmono : ∀ id, g.isDone completed id = true → g.isDone last id = true) :
    ∀ id, g.isDone done id = true → g.isDone last id = true := by
  induction h with
  | start => exact hmono
  | @complete done i _ hi ih =>
    have hitem := (mem_ready hn).mp hi
    intro id hid
    rw [Graph.isDone_iff, StringSet.mem_insert, or_assoc, ← Graph.isDone_iff] at hid
    rcases hid with rfl | hid
    · by_contra hnot
      have : i ∈ g.ready last :=
        (mem_ready hn).mpr ⟨hitem.1, Bool.eq_false_iff.mpr hnot, fun b hb => ih b (hitem.2.2 b hb)⟩
      rw [hlast] at this
      cases this
    · exact ih id hid

theorem Attained.mono (h : g.Attained completed done) {id : String} (hid : g.isDone completed id = true) :
    g.isDone done id = true := by
  induction h with
  | start => exact hid
  | complete _ _ ih => exact Graph.isDone_iff.mpr ((Graph.isDone_iff.mp ih).imp_left fun h =>
      StringSet.mem_insert.mpr (.inr h))

/-- The search for waves comes to an end with nothing ready. Its waves are numbered in a row, and none is empty or out
of order. An item is in the first one if all that it awaits is completed, and otherwise in the one after the largest
wave of what it awaits and what is not completed, all of which is in waves. Nothing is missing that could be attained
by completing ready items. -/
theorem earliest_of_build (hg : Graph.build items external policy = .ok g) (completed : StringSet) :
    g.ready (g.wavesFrom (g.size + 1) 0 completed).2 = [] ∧
    ∀ ws, g.waves completed = .ok ws →
      ws.map (·.index) = List.range ws.length ∧ (ws.flatMap Wave.ids).Nodup ∧
      (∀ w ∈ ws, w.items ≠ [] ∧ w.items.Pairwise Item.InPlace) ∧
      (∀ w ∈ ws, ∀ i ∈ w.items, i ∈ items ∧
        ((∀ b, Awaits items external policy i b → b ∈ completed ∨ b ∈ external) → w.index = 0) ∧
        ((∃ b, Awaits items external policy i b ∧ ¬ (b ∈ completed ∨ b ∈ external)) →
          IsGreatest {n | ∃ b, Awaits items external policy i b ∧ ¬ (b ∈ completed ∨ b ∈ external) ∧
            ∃ v ∈ ws, b ∈ v.ids ∧ n = v.index + 1} w.index) ∧
        ∀ b, Awaits items external policy i b → ¬ (b ∈ completed ∨ b ∈ external) → b ∈ ws.flatMap Wave.ids) ∧
      ∀ done, g.Attained completed done → ∀ i ∈ g.ready done, i.id ∈ ws.flatMap Wave.ids := by
  have h := built_of_build hg
  have hready := ready_waves h.ids_nodup completed
  refine ⟨hready, fun ws hws => ?_⟩
  obtain ⟨last, hfrom, -⟩ := waves_eq_ok hws
  have hok := wavesFrom_ok h.ids_nodup (g.size + 1) 0 completed
  have hearly := wavesFrom_earliest h.ids_nodup (g.size + 1) 0 completed
  have hplace : ∀ w ∈ (g.wavesFrom (g.size + 1) 0 completed).1, w.items ≠ [] ∧ w.items.Pairwise Item.InPlace :=
    fun _ hw => ⟨items_ne_nil_of_mem_wavesFrom hw, inPlace_of_mem_wavesFrom (items_inPlace hg) hw⟩
  rw [hfrom] at hready hok hearly hplace
  have hdone : ∀ b, g.isDone completed b = true ↔ b ∈ completed ∨ b ∈ external := fun b => by
    rw [Graph.isDone_iff, h.external]
  refine ⟨hearly.index.trans List.range_eq_range'.symm, hok.nodup, hplace,
    fun w hw i hi => ?_, fun done hatt i hi => ?_⟩
  · have hitem : i ∈ items := h.mem_items.mp (hok.mem_items w hw i hi)
    simp only [← h.mem_blockersOf hitem, ← hdone, Bool.not_eq_true]
    refine ⟨hitem, fun hall => ?_, hearly.isGreatest hok hw hi, fun b hb hd => ?_⟩
    · rcases hearly.tight w hw i hi with h0 | ⟨b, hb, hd, -⟩
      · exact h0
      · rw [hall b hb] at hd
        cases hd
    · obtain ⟨v, hv, hbv, -⟩ := hearly.after w hw i hi b hb hd
      exact List.mem_flatMap.mpr ⟨v, hv, hbv⟩
  · have hi' := (mem_ready h.ids_nodup).mp hi
    have hmono : ∀ id, g.isDone completed id = true → g.isDone last id = true := fun id hid =>
      (hok.isDone_iff id).mpr (.inl hid)
    have hlast : g.isDone last i.id = true := by
      refine (hatt.complete hi).isDone h.ids_nodup hready hmono i.id ?_
      exact Graph.isDone_iff.mpr (.inl (StringSet.mem_insert.mpr (.inl rfl)))
    refine ((hok.isDone_iff i.id).mp hlast).resolve_left fun hc => ?_
    rw [hatt.mono hc] at hi'
    cases hi'.2.1

/-- The cycle of `a` and `b` is broken when `a` is completed, `e` waits for an orphan, and `c` waits for what is done,
for `b` and for `d`, which waits for `b` too. -/
def staircase : List Item :=
  [{ id := "a", blockedBy := .ofList ["b"] }, { id := "b", blockedBy := .ofList ["a"] },
    { id := "c", blockedBy := .ofList ["a", "b", "d"] }, { id := "d", blockedBy := .ofList ["b", "old"] },
    { id := "e", blockedBy := .ofList ["ghost"] }]

theorem earliest_of_staircase : ∃ g ws, Graph.build staircase (.ofList ["old"]) .block = .ok g ∧
    g.waves (.ofList ["a"]) = .ok ws ∧ ws.map Wave.ids = [["b"], ["d"], ["c"]] ∧
    g.ready (g.wavesFrom (g.size + 1) 0 (.ofList ["a"])).2 = [] ∧
    ws.map (·.index) = List.range ws.length ∧ (ws.flatMap Wave.ids).Nodup ∧
    (∀ w ∈ ws, w.items ≠ [] ∧ w.items.Pairwise Item.InPlace) ∧
    (∀ w ∈ ws, ∀ i ∈ w.items, i ∈ staircase ∧
      ((∀ b, Awaits staircase (.ofList ["old"]) .block i b → b ∈ StringSet.ofList ["a"] ∨ b ∈ StringSet.ofList ["old"]) →
        w.index = 0) ∧
      ((∃ b, Awaits staircase (.ofList ["old"]) .block i b ∧
          ¬ (b ∈ StringSet.ofList ["a"] ∨ b ∈ StringSet.ofList ["old"])) →
        IsGreatest {n | ∃ b, Awaits staircase (.ofList ["old"]) .block i b ∧
          ¬ (b ∈ StringSet.ofList ["a"] ∨ b ∈ StringSet.ofList ["old"]) ∧
            ∃ v ∈ ws, b ∈ v.ids ∧ n = v.index + 1} w.index) ∧
      ∀ b, Awaits staircase (.ofList ["old"]) .block i b →
        ¬ (b ∈ StringSet.ofList ["a"] ∨ b ∈ StringSet.ofList ["old"]) → b ∈ ws.flatMap Wave.ids) ∧
    ∀ done, g.Attained (.ofList ["a"]) done → ∀ i ∈ g.ready done, i.id ∈ ws.flatMap Wave.ids := by
  have h : ((Graph.build staircase (.ofList ["old"]) .block).bind fun g =>
      (g.waves (.ofList ["a"])).map (·.map Wave.ids)) = .ok [["b"], ["d"], ["c"]] := by cbv
  obtain ⟨g, hg⟩ : ∃ g, Graph.build staircase (.ofList ["old"]) .block = .ok g := build_eq_ok_of_nodup (by decide)
  rw [hg] at h
  cases hws : g.waves (.ofList ["a"]) with
  | error e =>
    rw [Except.bind, hws] at h
    cases h
  | ok ws =>
    rw [Except.bind, hws] at h
    obtain ⟨hready, hall⟩ := earliest_of_build hg (.ofList ["a"])
    exact ⟨g, ws, hg, hws, Except.ok.inj h, hready, hall ws hws⟩

end WorkWaves.Graph
