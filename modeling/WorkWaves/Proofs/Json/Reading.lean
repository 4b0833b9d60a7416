import Mathlib.Data.List.Forall2
import WorkWaves.Proofs.Json.Written

/-!
# What readers give

A map is read back if its values are (`map_object`), a list if its elements are (`list_arr`), and a number if it fits
(`natural_numeralOf`). A record that was read has every property that the readers of its fields keep, and all the fields
that it requires (`record_eq_ok`).
-/

namespace WorkWaves

namespace StringMap

variable {α : Type}

theorem putInto_of_lt {k : String} {v : α} {l : List (String × α)} (h : ∀ e ∈ l, e.1 < k) :
    putInto k v l = l ++ [(k, v)] := by
  induction l with
  | nil => rfl
  | cons e l ih =>
    have he := h e (List.mem_cons_self ..)
    rw [putInto, if_neg (String.lt_asymm he), if_neg fun hk => String.lt_irrefl _ (hk ▸ he),
      ih fun e' he' => h e' (List.mem_cons_of_mem e he'), List.cons_append]

theorem entries_foldl_insert {m : StringMap α} {l : List (String × α)}
    (h : ((m.entries ++ l).map (·.1)).Pairwise (· < ·)) :
    (l.foldl (fun m e => m.insert e.1 e.2) m).entries = m.entries ++ l := by
  induction l generalizing m with
  | nil => simp
  | cons e l ih =>
    have hlast : (m.insert e.1 e.2).entries = m.entries ++ [e] := putInto_of_lt fun e' he' => by
      rw [List.map_append, List.pairwise_append] at h
      exact h.2.2 _ (List.mem_map_of_mem he') _ (by simp)
    rw [List.foldl_cons, ih (by rw [hlast]; simpa using h), hlast]
    simp

/-- A map is the map of its entries. -/
theorem ofList_entries (m : StringMap α) : ofList m.entries = m :=
  ext ((entries_foldl_insert (m := empty) (by simpa [empty] using m.increasing)).trans (by simp [empty]))

end StringMap

namespace Json.Read

variable {α ρ : Type}

theorem foldlM_insert {read : Read α} {enc : α → Node} (henc : ∀ v, read (enc v) = .ok v)
    (l : List (String × α)) (m : StringMap α) :
    (l.map fun e => (Node.string (some e.1), enc e.2)).foldlM (m := Except Fault) (fun m e =>
      match e.1 with
      | .string (some k) => (read e.2).map (m.insert k)
      | _ => .error .malformed) m = .ok (l.foldl (fun m e => m.insert e.1 e.2) m) := by
  induction l generalizing m with
  | nil => rfl
  | cons e l ih =>
    rw [List.map_cons, List.foldlM_cons]
    simp only [henc, Except.map, bind, Except.bind]
    exact ih _

/-- A map is read back if its values are. -/
theorem map_object {read : Read α} (enc : α → Node) (henc : ∀ v, read (enc v) = .ok v) (m : StringMap α) :
    map read (.object (m.entries.map fun e => (.string (some e.1), enc e.2)) true) = .ok m := by
  have hmembers := congrArg (·.bind Except.ok) (foldlM_insert henc m.entries ∅)
  exact hmembers.trans (congrArg Except.ok (StringMap.ofList_entries m))

/-- A list is read back if its elements are. -/
theorem list_arr {read : Read α} {values : List Json} {l : List α}
    (h : List.Forall₂ (fun v a => read (node v) = .ok a) values l) : list read (node (.arr values)) = .ok l := by
  have hmapM : (nodes values).mapM read = .ok l := by
    induction h with
    | nil => rfl
    | cons hv _ ih =>
      rw [nodes, List.mapM_cons, hv, ih]
      rfl
  rw [node, list, hmapM]
  rfl

theorem list_strs (l : List String) : list string (node (.strs l)) = .ok l := by
  refine list_arr ?_
  induction l with
  | nil => exact .nil
  | cons s l ih => exact .cons rfl ih

theorem set_strs (s : StringSet) : set (node (.strs s.toList)) = .ok s := by
  rw [set, list_strs, Except.map, StringSet.ofList_toList]

theorem mismatch_ne_ok (n : Node) (expected : String) (a : α) : (n.mismatch expected : Except Fault α) ≠ .ok a := by
  unfold Node.mismatch
  cases n.found <;> simp [bind, Except.bind]

theorem natural_numeralOf {limit n : Nat} {kind : String} (h : n < limit) (h' : n < Nat.pow 2 64) :
    natural limit kind (.number (numeralOf n)) = .ok n := by
  simp only [natural, amount?_numeralOf h']
  exact if_pos h

theorem natural_lt {limit v : Nat} {kind : String} {n : Node} (h : natural limit kind n = .ok v) : v < limit := by
  unfold natural at h
  split at h
  · split at h
    · split at h
      · next hlt => cases h; exact hlt
      · cases h
    · cases h
    · cases h
    · cases h
  · exact absurd h (mismatch_ne_ok _ _ _)

theorem exists_of_map {x : Except Fault α} {set : Option α → ρ} {parts : ρ}
    (h : (x >>= fun a => pure (some a)).map set = .ok parts) : ∃ a, x = .ok a ∧ set (some a) = parts := by
  cases x with
  | error e => simp [bind, Except.bind, Except.map] at h
  | ok a => exact ⟨a, rfl, Except.ok.inj h⟩

/-! ### What the fields of a record keep -/

section Record

variable {fields : List (Field ρ)} {parts parts' : ρ} {P : ρ → Prop}

theorem foldlM_readMember_keeps (hP : ∀ f ∈ fields, ∀ n p p', f.read n p = .ok p' → P p → P p')
    {members : List (Node × Node)} (hp : P parts) (h : members.foldlM (readMember fields) parts = .ok parts') :
    P parts' := by
  induction members generalizing parts with
  | nil => cases h; exact hp
  | cons m members ih =>
    rw [List.foldlM_cons] at h
    cases hm : readMember fields parts m with
    | error e => simp [hm, bind, Except.bind] at h
    | ok q =>
      simp only [hm, bind, Except.bind] at h
      refine ih ?_ h
      unfold readMember at hm
      split at hm
      · split at hm
        · next f hf =>
          split at hm
          · cases hm
          · exact hP f (List.mem_of_find?_eq_some hf) _ _ _ hm hp
        · next n _ _ =>
          cases hskip : n.skip with
          | error e => simp [hskip, Except.map] at hm
          | ok u =>
            simp only [hskip, Except.map, Except.ok.injEq] at hm
            exact hm ▸ hp
      · cases hm

theorem readInOrder_keeps {name : String} {size k : Nat} {closed : Bool} {elements : List Node}
    (hP : ∀ f ∈ fields, ∀ n p p', f.read n p = .ok p' → P p → P p') (hp : P parts)
    (h : readInOrder name size fields k elements closed parts = .ok parts') : P parts' := by
  induction fields generalizing k elements parts with
  | nil =>
    cases elements with
    | nil =>
      unfold readInOrder at h
      split at h
      · cases h; exact hp
      · cases h
    | cons n ns => cases h
  | cons f fields ih =>
    obtain ⟨hf, hP⟩ := List.forall_mem_cons.mp hP
    cases elements with
    | nil =>
      unfold readInOrder at h
      split at h
      · cases h
      · split at h
        · cases h
        · exact ih hP hp h
    | cons n ns =>
      unfold readInOrder at h
      cases hr : f.read n parts with
      | error e => simp [hr, bind, Except.bind] at h
      | ok q =>
        simp only [hr, bind, Except.bind] at h
        exact ih hP (hf n parts q hr hp) h

/-- A field that is required and stays set is set in the end. -/
theorem readInOrder_isSet {name : String} {size k : Nat} {closed : Bool} {elements : List Node} {g : Field ρ}
    (hg : g ∈ fields) (hreq : g.required = true) (hset : ∀ n p p', g.read n p = .ok p' → g.isSet p' = true)
    (hkeep : ∀ f ∈ fields, ∀ n p p', f.read n p = .ok p' → g.isSet p = true → g.isSet p' = true)
    (h : readInOrder name size fields k elements closed parts = .ok parts') : g.isSet parts' = true := by
  induction fields generalizing k elements parts with
  | nil => cases hg
  | cons f fields ih =>
    obtain ⟨-, hrest⟩ := List.forall_mem_cons.mp hkeep
    cases elements with
    | nil =>
      unfold readInOrder at h
      split at h
      · cases h
      · split at h
        · cases h
        · next hopt =>
          rcases List.mem_cons.mp hg with rfl | hg
          · exact absurd hreq hopt
          · exact ih hg hrest h
    | cons n ns =>
      unfold readInOrder at h
      cases hr : f.read n parts with
      | error e => simp [hr, bind, Except.bind] at h
      | ok q =>
        simp only [hr, bind, Except.bind] at h
        rcases List.mem_cons.mp hg with rfl | hg
        · exact readInOrder_keeps (P := fun p => g.isSet p = true) hrest (hset n parts q hr) h
        · exact ih hg hrest h

/-- A record that was read has what its fields keep, and all that is required. -/
theorem record_eq_ok {name : String} {nothing : ρ} {n : Node} (h : record name fields nothing n = .ok parts)
    (hP : ∀ f ∈ fields, ∀ n p p', f.read n p = .ok p' → P p → P p') (hnothing : P nothing)
    (hset : ∀ f ∈ fields, ∀ n p p', f.read n p = .ok p' → f.isSet p' = true)
    (hkeep : ∀ g ∈ fields, ∀ f ∈ fields, ∀ n p p', f.read n p = .ok p' → g.isSet p = true → g.isSet p' = true) :
    P parts ∧ ∀ f ∈ fields, f.required = true → f.isSet parts = true := by
  unfold record at h
  split at h
  · next members closed =>
    cases hm : members.foldlM (readMember fields) nothing with
    | error e => simp [hm, bind, Except.bind] at h
    | ok q =>
      simp only [hm, bind, Except.bind] at h
      split at h
      · cases h
      · split at h
        · cases h
        · next hfind =>
          cases h
          refine ⟨foldlM_readMember_keeps hP hnothing hm, fun f hf hreq => ?_⟩
          simpa [hreq] using List.find?_eq_none.mp hfind f hf
  · exact ⟨readInOrder_keeps hP hnothing h, fun f hf hreq => readInOrder_isSet hf hreq (hset f hf) (hkeep f hf) h⟩
  · exact absurd h (mismatch_ne_ok _ _ _)

end Record

end Json.Read

end WorkWaves
