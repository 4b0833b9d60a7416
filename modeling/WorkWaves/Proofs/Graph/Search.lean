import Mathlib.Data.List.Perm.Subperm
import WorkWaves.Graph.Cycles
import WorkWaves.Proofs.Graph.Build

/-!
# The search for cycles comes to an end

`Explores`: a depth-first search through ids as it would go on without a bound on its steps, one rule for each thing
that it can meet. It never makes two things of one walk (`Explores.unique`). A path holds no item twice, so a search
that may take one step more than there are items never runs out of them (`explores_foldl_look`), and `cycles` is what
the search without a bound reports (`explores_ids`).
-/

namespace WorkWaves.Graph

variable {g : Graph} {b id : String} {path bs : List String} {fuel : Nat} {w v w' : Walk}

theorem contains_iff : g.contains id = true ↔ id ∈ g.ids := by
  simp only [contains, entry?, List.find?_isSome, ids, List.mem_map, beq_iff_eq]

/-- A search goes through the ids `bs`, with `path` behind it, and makes `w'` of the walk `w`. -/
inductive Explores (g : Graph) : List String → List String → Walk → Walk → Prop
  | nil {path : List String} {w : Walk} : Explores g path [] w w
  | stranger {path bs : List String} {b : String} {w w' : Walk} : b ∉ g.ids →
    Explores g path bs w w' → Explores g path (b :: bs) w w'
  | close {path bs : List String} {b : String} {w w' : Walk} : b ∈ g.ids → b ∈ path →
    Explores g path bs { w with cycles := w.cycles ++ [closing path b] } w' → Explores g path (b :: bs) w w'
  | finished {path bs : List String} {b : String} {w w' : Walk} : b ∈ g.ids → b ∉ path → b ∈ w.finished →
    Explores g path bs w w' → Explores g path (b :: bs) w w'
  | enter {path bs : List String} {b : String} {w v w' : Walk} : b ∈ g.ids → b ∉ path → b ∉ w.finished →
    Explores g (b :: path) (g.blockersOf b).toList w v →
    Explores g path bs { v with finished := b :: v.finished } w' → Explores g path (b :: bs) w w'

theorem Explores.unique (h : Explores g path bs w w') {w'' : Walk} (h' : Explores g path bs w w'') : w' = w'' := by
  induction h generalizing w'' with
  | nil => cases h'; rfl
  | stranger hb _ ih =>
    cases h' with
    | stranger _ h' => exact ih h'
    | close hb' => exact absurd hb' hb
    | finished hb' => exact absurd hb' hb
    | enter hb' => exact absurd hb' hb
  | close hb hp _ ih =>
    cases h' with
    | stranger hb' => exact absurd hb hb'
    | close _ _ h' => exact ih h'
    | finished _ hp' => exact absurd hp hp'
    | enter _ hp' => exact absurd hp hp'
  | finished hb hp hf _ ih =>
    cases h' with
    | stranger hb' => exact absurd hb hb'
    | close _ hp' => exact absurd hp' hp
    | finished _ _ _ h' => exact ih h'
    | enter _ _ hf' => exact absurd hf hf'
  | enter hb hp hf _ _ ihv ih =>
    cases h' with
    | stranger hb' => exact absurd hb hb'
    | close _ hp' => exact absurd hp' hp
    | finished _ _ hf' => exact absurd hf' hf
    | enter _ _ _ hv h' =>
      cases ihv hv
      exact ih h'

/-! ### Steps that suffice -/

/-- What a walk makes of one id that the last item of its path waits for. -/
def look (g : Graph) (fuel : Nat) (path : List String) (w : Walk) (b : String) : Walk :=
  if !g.contains b then w
  else if path.contains b then { w with cycles := w.cycles ++ [closing path b] }
  else if w.finished.contains b then w
  else visit g fuel path b w

theorem visit_succ : visit g (fuel + 1) path id w =
    let w := (g.blockersOf id).toList.foldl (look g fuel (id :: path)) w
    { w with finished := id :: w.finished } := rfl

theorem look_stranger (hb : b ∉ g.ids) : look g fuel path w b = w := by
  have hc : g.contains b = false := Bool.eq_false_iff.mpr fun hc => hb (contains_iff.mp hc)
  simp [look, hc]

theorem look_close (hb : b ∈ g.ids) (hp : b ∈ path) :
    look g fuel path w b = { w with cycles := w.cycles ++ [closing path b] } := by
  simp [look, contains_iff.mpr hb, hp]

theorem look_finished (hb : b ∈ g.ids) (hp : b ∉ path) (hf : b ∈ w.finished) : look g fuel path w b = w := by
  simp [look, contains_iff.mpr hb, hp, hf]

theorem look_enter (hb : b ∈ g.ids) (hp : b ∉ path) (hf : b ∉ w.finished) :
    look g fuel path w b = visit g fuel path b w := by
  simp [look, contains_iff.mpr hb, hp, hf]

/-- With a step for every item that is not on the path, and one more, a search never runs out of steps. -/
theorem explores_foldl_look (hn : path.Nodup) (hids : ∀ x ∈ path, x ∈ g.ids) (hfuel : g.size < path.length + fuel)
    (bs : List String) (w : Walk) : Explores g path bs w (bs.foldl (look g fuel path) w) := by
  induction fuel generalizing path bs w with
  | zero =>
    have hle : path.length ≤ g.ids.length := (List.subperm_of_subset hn hids).length_le
    simp only [ids, List.length_map, size] at hle hfuel
    omega
  | succ fuel ih =>
    induction bs generalizing w with
    | nil => exact .nil
    | cons b bs ihbs =>
      rw [List.foldl_cons]
      by_cases hb : b ∈ g.ids
      · by_cases hp : b ∈ path
        · rw [look_close hb hp]
          exact .close hb hp (ihbs _)
        · by_cases hf : b ∈ w.finished
          · rw [look_finished hb hp hf]
            exact .finished hb hp hf (ihbs w)
          · have hids' : ∀ x ∈ b :: path, x ∈ g.ids := by
              intro x hx
              rcases List.mem_cons.mp hx with rfl | hx
              · exact hb
              · exact hids x hx
            have hfuel' : g.size < (b :: path).length + fuel := by
              rw [List.length_cons]
              omega
            rw [look_enter hb hp hf, visit_succ]
            exact .enter hb hp hf (ih (List.nodup_cons.mpr ⟨hp, hn⟩) hids' hfuel' _ w) (ihbs _)
      · rw [look_stranger hb]
        exact .stranger hb (ihbs w)

variable (g) in
/-- The search through all items comes to an end, and `cycles` is what it reports. -/
theorem explores_ids : ∃ w, g.Explores [] (StringSet.ofList g.ids).toList {} w ∧ w.cycles = g.cycles := by
  have hroots : (StringSet.ofList g.ids).toList.foldl (look g (g.size + 1) []) {} =
      (StringSet.ofList g.ids).toList.foldl (fun (w : Walk) id =>
        if w.finished.contains id then w else visit g (g.size + 1) [] id w) {} := by
    refine List.foldl_ext _ _ _ fun w b hb => ?_
    have hid : b ∈ g.ids := StringSet.mem_ofList.mp hb
    simp [look, contains_iff.mpr hid]
  have hfuel : g.size < ([] : List String).length + (g.size + 1) := by simp
  refine ⟨_, explores_foldl_look List.nodup_nil (by simp) hfuel _ {}, ?_⟩
  rw [hroots]
  rfl

end WorkWaves.Graph
