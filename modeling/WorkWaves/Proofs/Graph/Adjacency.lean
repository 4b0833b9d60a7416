import WorkWaves.Proofs.Graph.Spread

/-!
# What waits for what

A graph is refused for the first item whose id occurred before (`firstRepeated_eq_some`). Otherwise an item waits for
what it names and for what names it (`Declared`), less the orphans where they are let through, and the orphans are
listed by item and then by blocker. Since `buildIn_eq` says what the loops leave, whatever their order, this is read
off the declarations.
-/

namespace WorkWaves

namespace Graph

variable {items : List Item} {completed : StringSet} {policy : OrphanPolicy} {g : Graph} {id b : String}

/-! ### Repeated ids -/

theorem firstRepeated_eq_some {seen l : List String} {a : String} : firstRepeated seen l = some a ↔
    ∃ front back, l = front ++ a :: back ∧ front.Nodup ∧ (∀ x ∈ front, x ∉ seen) ∧ (a ∈ front ∨ a ∈ seen) := by
  induction l generalizing seen with
  | nil => simp [firstRepeated]
  | cons c l ih =>
    unfold firstRepeated
    split
    · next hc =>
      constructor
      · intro h
        obtain rfl := Option.some.inj h
        exact ⟨[], l, rfl, .nil, by simp, .inr hc⟩
      · rintro ⟨front, back, hl, -, hnew, -⟩
        cases front with
        | nil => rw [(List.cons.inj hl).1]
        | cons x front => exact absurd ((List.cons.inj hl).1 ▸ hc) (hnew x (List.mem_cons_self ..))
    · next hc =>
      have hshift (front : List String) : a ∈ c :: front ∨ a ∈ seen ↔ a ∈ front ∨ a ∈ c :: seen := by
        rw [List.mem_cons, List.mem_cons, or_assoc, or_left_comm]
      rw [ih]
      constructor
      · rintro ⟨front, back, rfl, hn, hnew, ha⟩
        refine ⟨c :: front, back, rfl, ?_, ?_, ?_⟩
        · exact List.nodup_cons.mpr ⟨fun hcf => hnew c hcf (List.mem_cons_self ..), hn⟩
        · exact List.forall_mem_cons.mpr ⟨hc, fun x hx hs => hnew x hx (List.mem_cons_of_mem c hs)⟩
        · exact (hshift front).mpr ha
      · rintro ⟨front, back, hl, hn, hnew, ha⟩
        cases front with
        | nil =>
          obtain ⟨rfl, -⟩ := List.cons.inj hl
          exact absurd (ha.resolve_left List.not_mem_nil) hc
        | cons x front =>
          obtain ⟨rfl, rfl⟩ := List.cons.inj hl
          obtain ⟨hx, hn⟩ := List.nodup_cons.mp hn
          refine ⟨front, back, rfl, hn, fun y hy => ?_, ?_⟩
          · rw [List.mem_cons, not_or]
            exact ⟨fun he => hx (he ▸ hy), hnew y (List.mem_cons_of_mem c hy)⟩
          · exact (hshift front).mp ha

theorem build_eq_error {e : GraphError} : build items completed policy = .error e ↔
    ∃ front i back, items = front ++ i :: back ∧ (front.map (·.id)).Nodup ∧ (∃ j ∈ front, j.id = i.id) ∧
      e = .duplicateId i.id := by
  have herror : build items completed policy = .error e ↔
      ∃ a, firstRepeated [] (items.map (·.id)) = some a ∧ e = .duplicateId a := by
    rw [build_eq]
    cases firstRepeated [] (items.map (·.id)) with
    | none => simp
    | some a => simp [eq_comm]
  rw [herror]
  constructor
  · rintro ⟨a, ha, rfl⟩
    obtain ⟨front, back, hl, hn, -, hmem⟩ := firstRepeated_eq_some.mp ha
    obtain ⟨front, rest, rfl, rfl, hrest⟩ := List.map_eq_append_iff.mp hl
    obtain ⟨i, back, rfl, rfl, -⟩ := List.map_eq_cons_iff.mp hrest
    exact ⟨front, i, back, rfl, hn, List.mem_map.mp (hmem.resolve_right List.not_mem_nil), rfl⟩
  · rintro ⟨front, i, back, rfl, hn, hmem, rfl⟩
    refine ⟨i.id, firstRepeated_eq_some.mpr ?_, rfl⟩
    exact ⟨front.map (·.id), back.map (·.id), by simp, hn, by simp, .inl (List.mem_map.mpr hmem)⟩

/-! ### Orphans and blockers -/

namespace Built

variable (h : Built items completed policy g)
include h

theorem mem_orphans_iff : ⟨id, b⟩ ∈ g.orphans ↔ Declared items id b ∧ b ∉ completed ∧ ∀ j ∈ items, j.id ≠ b := by
  rw [h.mem_orphans, and_comm (a := b ∉ completed)]
  constructor
  · rintro ⟨i, hi, rfl, hb, ho⟩
    exact ⟨(mem_declaredBlockers_iff h.nodup hi).mp hb, isOrphan_iff.mp ho⟩
  · rintro ⟨⟨i, hi, rfl, hb⟩, ho⟩
    exact ⟨i, hi, rfl, mem_declaredBlockers.mpr hb, isOrphan_iff.mpr ho⟩

/-- An item waits for what is declared, but under a policy that lets orphans through for none of them. -/
theorem mem_blockersOf_iff : b ∈ g.blockersOf id ↔
    Declared items id b ∧ ¬ (policy = .satisfy ∧ ⟨id, b⟩ ∈ g.orphans) := by
  rw [h.mem_orphans_iff]
  constructor
  · intro hb
    obtain ⟨i, hi, rfl⟩ := List.mem_map.mp (h.ids_perm.mem_iff.mp (mem_ids_of_mem_blockersOf hb))
    obtain ⟨hd, hp⟩ := (h.mem_blockersOf hi).mp hb
    refine ⟨⟨i, hi, rfl, hd⟩, fun ⟨hsatisfy, _, hnc, hni⟩ => ?_⟩
    rcases hp hsatisfy with hc | ⟨j, hj, hjb⟩
    · exact hnc hc
    · exact hni j hj hjb
  · rintro ⟨hd, hp⟩
    obtain ⟨i, hi, rfl, hb⟩ := hd
    refine (h.mem_blockersOf hi).mpr ⟨hb, fun hsatisfy => ?_⟩
    by_contra hno
    rw [not_or, not_exists] at hno
    exact hp ⟨hsatisfy, ⟨i, hi, rfl, hb⟩, hno.1, fun j hj hjb => hno.2 j ⟨hj, hjb⟩⟩

end Built

theorem exists_build_eq_error : (∃ e, build items completed policy = .error e) ↔ ¬ (items.map (·.id)).Nodup := by
  constructor
  · rintro ⟨e, he⟩ hn
    obtain ⟨g, hg⟩ : ∃ g, build items completed policy = .ok g := build_eq_ok_of_nodup hn
    cases he.symm.trans hg
  · intro hn
    cases hb : build items completed policy with
    | error e => exact ⟨e, rfl⟩
    | ok g => exact absurd (built_of_build hb).nodup hn

/-- In whatever order the tables are gone through, the graph is the same. It is refused exactly if ids repeat, for the
first item whose id occurred before. Otherwise its orphans are, in strict order, all that is declared and neither an
item nor completed; an item waits for what is declared, but for no orphan that is let through; and the dependents of an
id, be it an item or not, are the items that wait for it. -/
theorem adjacency_of_build (items : List Item) (completed : StringSet) (policy : OrphanPolicy) :
    (∀ turns, buildIn turns items completed policy = build items completed policy) ∧
    ((∃ e, build items completed policy = .error e) ↔ ¬ (items.map (·.id)).Nodup) ∧
    (∀ e, build items completed policy = .error e ↔ ∃ front i back, items = front ++ i :: back ∧
      (front.map (·.id)).Nodup ∧ (∃ j ∈ front, j.id = i.id) ∧ e = .duplicateId i.id) ∧
    ∀ g, build items completed policy = .ok g →
      g.orphans.Pairwise Orphan.Before ∧
      (∀ id b, ⟨id, b⟩ ∈ g.orphans ↔ Declared items id b ∧ b ∉ completed ∧ ∀ j ∈ items, j.id ≠ b) ∧
      (∀ id b, b ∈ g.blockersOf id ↔ Declared items id b ∧ ¬ (policy = .satisfy ∧ ⟨id, b⟩ ∈ g.orphans)) ∧
      ∀ id b, id ∈ g.dependentsOf b ↔ b ∈ g.blockersOf id := by
  have hturns (turns : Turns) : buildIn turns items completed policy = build items completed policy := by
    rw [buildIn_eq, build_eq]
  refine ⟨hturns, exists_build_eq_error, fun e => build_eq_error, fun g hg => ?_⟩
  have h := built_of_build hg
  have hsorted : g.orphans.Pairwise Orphan.Before := by
    obtain ⟨hn, rfl⟩ := build_eq_ok_iff.mp hg
    exact orphansOf_sorted hn
  exact ⟨hsorted, fun _ _ => h.mem_orphans_iff, fun _ _ => h.mem_blockersOf_iff, h.reversed⟩

/-- `a` waits for itself, for something completed and for an orphan, and both say that `b` waits for `a`. -/
def snarl : List Item :=
  [{ id := "a", blockedBy := .ofList ["a", "ghost", "old"], blocks := .ofList ["b", "nobody"] },
   { id := "b", blockedBy := .ofList ["a"] }]

theorem adjacency_of_snarl :
    (∃ g, build snarl (.ofList ["old"]) .satisfy = .ok g ∧ g.orphans = [⟨"a", "ghost"⟩] ∧
      g.orphans.Pairwise Orphan.Before ∧
      (∀ id b, ⟨id, b⟩ ∈ g.orphans ↔
        Declared snarl id b ∧ b ∉ StringSet.ofList ["old"] ∧ ∀ j ∈ snarl, j.id ≠ b) ∧
      (∀ id b, b ∈ g.blockersOf id ↔
        Declared snarl id b ∧ ¬ (OrphanPolicy.satisfy = .satisfy ∧ ⟨id, b⟩ ∈ g.orphans)) ∧
      ∀ id b, id ∈ g.dependentsOf b ↔ b ∈ g.blockersOf id) ∧
    build (snarl ++ [{ id := "a" }, { id := "b" }]) ∅ .block = .error (.duplicateId "a") := by
  have hn : (snarl.map (·.id)).Nodup := by decide
  obtain ⟨g, hg⟩ : ∃ g, build snarl (.ofList ["old"]) .satisfy = .ok g := build_eq_ok_of_nodup hn
  have horphans : orphansOf snarl (.ofList ["old"]) = [⟨"a", "ghost"⟩] := by
    rw [orphansOf, List.mergeSort_of_pairwise (by decide)]
    decide
  have hlisted : g.orphans = [⟨"a", "ghost"⟩] := by
    obtain ⟨-, rfl⟩ := build_eq_ok_iff.mp hg
    exact horphans
  refine ⟨⟨g, hg, hlisted, (adjacency_of_build snarl _ _).2.2.2 g hg⟩, ?_⟩
  exact ((adjacency_of_build _ _ _).2.2.1 _).mpr
    ⟨snarl, { id := "a" }, [{ id := "b" }], rfl, by decide, ⟨_, List.mem_cons_self .., rfl⟩, rfl⟩

end Graph

end WorkWaves
