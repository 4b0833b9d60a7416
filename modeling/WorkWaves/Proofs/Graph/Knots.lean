import WorkWaves.Proofs.Graph.Cycles

/-!
# Which items the refusal of cycles names

A refusal names the items on the loops that are reported. Each of them waits for itself, and every cycle takes a step
from one named item to another (`not_transGen_unnamed`). An item on a cycle may still go unnamed: the search does not
look again at what it has finished. It is named if nothing that it is knotted with waits for two items of the knot
(`mem_cycleMembers_of_simple`), since a loop through such a knot passes all of it.
-/

namespace WorkWaves.Graph

open Relation

variable {g : Graph} {a b x y : String} {items : List Item} {external : StringSet} {policy : OrphanPolicy}

/-- Two items that wait for one another, by themselves or through others. -/
structure Knotted (g : Graph) (a b : String) : Prop where
  there : TransGen g.Waits a b
  back : TransGen g.Waits b a

/-- An item whose knot is a single loop: no item of the knot waits for two items of it. -/
def SimplyKnotted (g : Graph) (x : String) : Prop :=
  ∀ y, g.Knotted x y → ∀ a b, g.Waits y a → g.Waits y b → g.Knotted x a → g.Knotted x b → a = b

theorem mem_cycleMembers {cs : List (List String)} :
    x ∈ (GraphError.circular cs).cycleMembers ↔ ∃ c ∈ cs, x ∈ c := by
  rw [GraphError.cycleMembers, StringSet.mem_ofList, List.mem_flatten]

theorem transGen_of_mem_cycleMembers (hx : x ∈ (GraphError.circular g.cycles).cycleMembers) :
    TransGen g.Waits x x := by
  obtain ⟨c, hc, hxc⟩ := mem_cycleMembers.mp hx
  exact (loop_of_mem_cycles hc).transGen hxc hxc

/-- Without the steps between named items, no item waits for itself. -/
theorem not_transGen_unnamed (g : Graph) (x : String) :
    ¬ TransGen (fun a b => g.Waits a b ∧ ¬ (a ∈ (GraphError.circular g.cycles).cycleMembers ∧
      b ∈ (GraphError.circular g.cycles).cycleMembers)) x x := by
  intro hx
  refine not_transGen_waitsBeside g x (TransGen.mono (fun a b hab => ⟨hab.1, fun c hc hlast => hab.2 ?_⟩) x x hx)
  have hmem : ∀ y ∈ [a, b], y ∈ c := fun y hy => hlast.subset hy
  exact ⟨mem_cycleMembers.mpr ⟨c, hc, hmem a (by simp)⟩, mem_cycleMembers.mpr ⟨c, hc, hmem b (by simp)⟩⟩

/-- A way that does not consist of some of its steps takes one of the others. -/
theorem exists_step {α : Type} {R S : α → α → Prop} {x y : α} (h : TransGen R x y) (hno : ¬ TransGen S x y) :
    ∃ a b, ReflTransGen R x a ∧ R a b ∧ ¬ S a b ∧ ReflTransGen R b y := by
  induction h with
  | single hxy => exact ⟨x, _, .refl, hxy, fun hs => hno (.single hs), .refl⟩
  | @tail b c hxb hbc ih =>
    by_cases hs : S b c
    · obtain ⟨a, a', hxa, ha, hnot, hab⟩ := ih fun hxb => hno (hxb.tail hs)
      exact ⟨a, a', hxa, ha, hnot, hab.tail hbc⟩
    · exact ⟨b, c, hxb.to_reflTransGen, hbc, hs, .refl⟩

/-- Every cycle comes through a loop that is reported. -/
theorem exists_loop_of_transGen (hx : TransGen g.Waits x x) :
    ∃ c ∈ g.cycles, ∃ b ∈ c, ReflTransGen g.Waits x b ∧ ReflTransGen g.Waits b x := by
  obtain ⟨a, b, hxa, hab, hnot, hbx⟩ := exists_step hx (not_transGen_waitsBeside g x)
  have hlast : ∃ c ∈ g.cycles, [a, b] <:+ c := by
    by_contra hno
    exact hnot ⟨hab, fun c hc hs => hno ⟨c, hc, hs⟩⟩
  obtain ⟨c, hc, hs⟩ := hlast
  exact ⟨c, hc, b, hs.subset (by simp), hxa.tail hab, hbx⟩

theorem mem_cycleMembers_of_simple (hx : TransGen g.Waits x x) (hsimple : g.SimplyKnotted x) :
    x ∈ (GraphError.circular g.cycles).cycleMembers := by
  obtain ⟨c, hc, b, hbc, hxb, hbx⟩ := exists_loop_of_transGen hx
  have hloop := loop_of_mem_cycles hc
  have hknot : ∀ y ∈ c, g.Knotted x y := fun y hy =>
    ⟨TransGen.trans_right hxb (hloop.transGen hbc hy), TransGen.trans_left (hloop.transGen hy hbc) hbx⟩
  -- The loop goes on inside the knot from each of its items, and there is only one way to do so.
  have hall : ∀ y, ReflTransGen g.Waits b y → ReflTransGen g.Waits y x → y ∈ c := by
    intro y hby
    induction hby with
    | refl => exact fun _ => hbc
    | @tail y z hby hyz ih =>
      intro hzx
      have hyc : y ∈ c := ih (.head hyz hzx)
      obtain ⟨z', hz', hyz'⟩ := hloop.exists_waits hyc
      have hz : g.Knotted x z :=
        ⟨(hknot y hyc).there.tail hyz, TransGen.trans_right hzx hx⟩
      rw [hsimple y (hknot y hyc) z z' hyz hyz' hz (hknot z' hz')]
      exact hz'
  exact mem_cycleMembers.mpr ⟨c, hc, hall x hbx .refl⟩

/-- A graph with a cycle is refused, with the loops that are reported. What the refusal names waits for itself. Every
cycle takes a step between named items, so each knot has named items; and an item whose knot is a single loop is named
exactly if it waits for itself. -/
theorem members_of_build (hg : Graph.build items external policy = .ok g) (hx : ∃ x, TransGen g.Waits x x) :
    ∃ e, g.validate = .error e ∧ (∀ e', g.validate = .error e' → e' = e) ∧ e.cycleMembers.toList.Pairwise (· < ·) ∧
      (∀ a b, g.Waits a b ↔
        (∃ i ∈ items, i.id = a ∧ Awaits items external policy i b) ∧ ∃ j ∈ items, j.id = b) ∧
      (∀ x ∈ e.cycleMembers, TransGen g.Waits x x) ∧
      (¬ ∃ x, TransGen (fun a b => g.Waits a b ∧ ¬ (a ∈ e.cycleMembers ∧ b ∈ e.cycleMembers)) x x) ∧
      (∀ x, TransGen g.Waits x x → ∃ y ∈ e.cycleMembers, g.Knotted x y) ∧
      ∀ x, g.SimplyKnotted x → (x ∈ e.cycleMembers ↔ TransGen g.Waits x x) := by
  refine ⟨.circular g.cycles, validate_eq_error.mpr ⟨hx, rfl⟩, fun e' he' => (validate_eq_error.mp he').2,
    (GraphError.circular g.cycles).cycleMembers.increasing, fun a b => (built_of_build hg).waits_iff,
    fun x hx => transGen_of_mem_cycleMembers hx, fun ⟨x, hx⟩ => not_transGen_unnamed g x hx, fun x hx => ?_,
    fun x hsimple => ⟨transGen_of_mem_cycleMembers, fun hx => mem_cycleMembers_of_simple hx hsimple⟩⟩
  obtain ⟨c, hc, b, hbc, hxb, hbx⟩ := exists_loop_of_transGen hx
  have hb : TransGen g.Waits b b := (loop_of_mem_cycles hc).transGen hbc hbc
  exact ⟨b, mem_cycleMembers.mpr ⟨c, hc, hbc⟩, TransGen.trans_right hxb hb, TransGen.trans_left hb hbx⟩

theorem transGen_tangle (h : Built tangle ∅ .block g) : TransGen g.Waits "c" "c" := by
  have hstep : ∀ i ∈ tangle, ∀ j ∈ tangle, j.id ∈ i.blockedBy → g.Waits i.id j.id := fun i hi j hj hij =>
    h.waits_iff.mpr ⟨⟨i, hi, rfl, .inl hij, fun hp => by cases hp⟩, j, hj, rfl⟩
  have hcb : g.Waits "c" "b" := hstep tangle[2] (by decide) tangle[1] (by decide) (by decide)
  have hba : g.Waits "b" "a" := hstep tangle[1] (by decide) tangle[0] (by decide) (by decide)
  have hac : g.Waits "a" "c" := hstep tangle[0] (by decide) tangle[2] (by decide) (by decide)
  exact ((TransGen.single hcb).tail hba).tail hac

/-- The item `c` is on the cycle from `c` to `b`, `a` and back, but `b` is finished when the search comes to it. -/
theorem unnamed_of_tangle : ∃ g, Graph.build tangle ∅ .block = .ok g ∧
    g.validate = .error (.circular [["a", "b", "a"], ["d", "d"]]) ∧ TransGen g.Waits "c" "c" ∧
    (GraphError.circular [["a", "b", "a"], ["d", "d"]]).cycleMembers.toList = ["a", "b", "d"] := by
  obtain ⟨g, hg⟩ : ∃ g, Graph.build tangle ∅ .block = .ok g := build_eq_ok_of_nodup (by decide)
  have hx := transGen_tangle (built_of_build hg)
  exact ⟨g, hg, validate_eq_error.mpr ⟨⟨"c", hx⟩, by rw [cycles_tangle hg]⟩, hx, by decide⟩

theorem members_of_tangle : ∃ g, Graph.build tangle ∅ .block = .ok g ∧ (∃ x, TransGen g.Waits x x) ∧
    ∃ e, g.validate = .error e ∧ (∀ e', g.validate = .error e' → e' = e) ∧ e.cycleMembers.toList.Pairwise (· < ·) ∧
      (∀ a b, g.Waits a b ↔ (∃ i ∈ tangle, i.id = a ∧ Awaits tangle ∅ .block i b) ∧ ∃ j ∈ tangle, j.id = b) ∧
      (∀ x ∈ e.cycleMembers, TransGen g.Waits x x) ∧
      (¬ ∃ x, TransGen (fun a b => g.Waits a b ∧ ¬ (a ∈ e.cycleMembers ∧ b ∈ e.cycleMembers)) x x) ∧
      (∀ x, TransGen g.Waits x x → ∃ y ∈ e.cycleMembers, g.Knotted x y) ∧
      ∀ x, g.SimplyKnotted x → (x ∈ e.cycleMembers ↔ TransGen g.Waits x x) := by
  obtain ⟨g, hg⟩ : ∃ g, Graph.build tangle ∅ .block = .ok g := build_eq_ok_of_nodup (by decide)
  have hx : ∃ x, TransGen g.Waits x x := ⟨"c", transGen_tangle (built_of_build hg)⟩
  exact ⟨g, hg, hx, members_of_build hg hx⟩

end WorkWaves.Graph
