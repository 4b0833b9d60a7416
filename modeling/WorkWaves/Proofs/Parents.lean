import WorkWaves.Proofs.Paths

/-!
# The directory that a path lies in

What is trimmed off a path are no components (`components_trimReversed`), so a path leads through the components of its
parent and goes on by one more (`components_of_parent?`). A path with another file name goes on by that name
(`components_withFileName`).
-/

namespace WorkWaves.Path

variable {p d name : String} {c : Component}

theorem components_ofList_slash (l m : List Char) : components (String.ofList (l ++ '/' :: m)) =
    (if l = [] then [.root] else components (String.ofList l)) ++ rest (String.ofList m) := by
  have htext : String.ofList (l ++ '/' :: m) = String.ofList l ++ "/" ++ String.ofList m := by
    rw [← String.toList_inj]
    simp
  rw [htext, components_slash]
  simp only [String.ofList_eq_empty_iff]

/-! ### What is trimmed -/

theorem components_trimReversed (r : List Char) :
    components (String.ofList (trimReversed r).reverse) = components (String.ofList r.reverse) := by
  have hslash : rest (String.ofList []) = [] := rfl
  have hpoint : rest (String.ofList ['.']) = [] := rfl
  induction r using trimReversed.induct with
  | case1 c r ih => rw [trimReversed, ih, List.reverse_cons (a := '/'), components_ofList_slash, hslash]; simp
  | case2 => rfl
  | case3 c r ih =>
    have happ : ('.' :: '/' :: c :: r).reverse = (c :: r).reverse ++ '/' :: ['.'] := by simp
    rw [trimReversed, ih, happ, components_ofList_slash, hpoint]
    simp
  | case4 r h₁ h₂ h₃ => rw [trimReversed.eq_4 r h₁ h₂ h₃]

theorem trimReversed_suffix (r : List Char) : trimReversed r <:+ r := by
  induction r using trimReversed.induct with
  | case1 c r ih => exact ih.trans (List.suffix_cons _ _)
  | case2 => exact ⟨['.'], rfl⟩
  | case3 c r ih => exact ih.trans ⟨['.', '/'], rfl⟩
  | case4 r h₁ h₂ h₃ => exact ⟨[], trimReversed.eq_4 r h₁ h₂ h₃⟩

/-- What is left starts with a slash only if it is one, and never with a point before a slash. -/
theorem trimReversed_ne (r : List Char) :
    (∀ c l, trimReversed r ≠ '/' :: c :: l) ∧ ∀ l, trimReversed r ≠ '.' :: '/' :: l := by
  induction r using trimReversed.induct with
  | case1 c r ih => exact ih
  | case2 => exact ⟨fun c l h => by simp [trimReversed] at h, fun l h => by simp [trimReversed] at h⟩
  | case3 c r ih => exact ih
  | case4 r h₁ h₂ h₃ =>
    rw [trimReversed.eq_4 r h₁ h₂ h₃]
    refine ⟨fun c l h => h₁ c l h, fun l h => ?_⟩
    cases l with
    | nil => exact h₂ h
    | cons c l => exact h₃ c l h

/-- A trimmed text that is split before its last part goes on by a component. -/
theorem component?_of_trimmed {w g : List Char} (hw : '/' ∉ w) (h : ∀ c l, w ++ '/' :: g ≠ '/' :: c :: l)
    (h' : ∀ l, w ++ '/' :: g ≠ '.' :: '/' :: l) (hg : w = [] → g ≠ []) : ∃ c, component? w.reverse = some c := by
  have hne : w ≠ [] := by
    rintro rfl
    obtain ⟨c, l, rfl⟩ := List.exists_cons_of_ne_nil (hg rfl)
    exact h c l rfl
  have hpoint : w ≠ ['.'] := by
    rintro rfl
    exact h' g rfl
  have hpoint' : w.reverse ≠ ['.'] := fun he => hpoint (by simpa using congrArg List.reverse he)
  unfold component?
  rw [if_neg (by simp [hne, hpoint'])]
  split
  · exact ⟨_, rfl⟩
  · exact ⟨_, rfl⟩

/-! ### Parents -/

theorem eq_of_mem_rest (h : c ∈ rest p) : c = .up ∨ ∃ name, c = .name name := by
  obtain ⟨part, -, hc⟩ := List.mem_filterMap.mp h
  unfold component? at hc
  split at hc
  · cases hc
  · split at hc
    · exact .inl (Option.some.inj hc).symm
    · exact .inr ⟨_, (Option.some.inj hc).symm⟩

/-- A path that has no parent goes nowhere, or to the root alone. -/
theorem components_of_parent?_eq_none (h : parent? p = none) : components p = [] ∨ components p = [.root] := by
  unfold parent? at h
  split at h
  · next hlast => exact .inl (List.getLast?_eq_none_iff.mp hlast)
  · next hlast =>
    rw [components_eq, List.getLast?_append] at hlast
    have hrest : rest p = [] := by
      cases hr : (rest p).getLast? with
      | none => exact List.getLast?_eq_none_iff.mp hr
      | some c =>
        rw [hr] at hlast
        obtain rfl := Option.some.inj hlast
        have hmem := eq_of_mem_rest (List.mem_of_getLast? hr)
        simp at hmem
    rw [hrest] at hlast
    rw [components_eq, hrest, List.append_nil]
    unfold start at hlast ⊢
    split at hlast
    · exact .inr rfl
    · cases hlast
    · cases hlast
  · simp only at h
    split at h <;> cases h

theorem dropWhile_slash (x : List Char) : ('/' ∉ x ∧ x.dropWhile (· != '/') = []) ∨
    ∃ w g, '/' ∉ w ∧ x = w ++ '/' :: g ∧ x.dropWhile (· != '/') = '/' :: g := by
  induction x with
  | nil => exact .inl ⟨List.not_mem_nil, rfl⟩
  | cons c x ih =>
    by_cases hc : c = '/'
    · subst hc
      exact .inr ⟨[], x, List.not_mem_nil, rfl, rfl⟩
    · have hdrop : (c :: x).dropWhile (· != '/') = x.dropWhile (· != '/') :=
        List.dropWhile_cons_of_pos (by simpa using hc)
      rw [hdrop]
      rcases ih with ⟨hx, hd⟩ | ⟨w, g, hw, rfl, hd⟩
      · exact .inl ⟨by simp [hx, Ne.symm hc], hd⟩
      · exact .inr ⟨c :: w, g, by simp [hw, Ne.symm hc], rfl, hd⟩

theorem length_components_le (hp : '/' ∉ p.toList) : (components p).length ≤ 1 := by
  by_cases hpoint : p = "."
  · subst hpoint
    exact Nat.le_refl 1
  · rw [components_eq_rest hp hpoint, rest_eq hp]
    cases component? p.toList <;> simp

theorem isAbsolute_of_suffix (h : ['/'] <:+ p.toList.reverse) : isAbsolute p = true := by
  obtain ⟨l, hl⟩ := h
  have hp : p.toList = '/' :: l.reverse := by simpa using (congrArg List.reverse hl).symm
  unfold isAbsolute
  rw [hp]
  rfl

theorem components_eq_trimReversed (p : String) :
    components p = components (String.ofList (trimReversed p.toList.reverse).reverse) := by
  rw [components_trimReversed, List.reverse_reverse, String.ofList_toList]

/-- What stands before a slash, trimmed, has the components that it has in the whole path. -/
theorem components_front (g : List Char) : components (String.ofList (trimReversed ('/' :: g)).reverse) =
    if g.reverse = [] then [.root] else components (String.ofList g.reverse) := by
  have hrest : rest (String.ofList []) = [] := rfl
  rw [components_trimReversed, List.reverse_cons, components_ofList_slash, hrest, List.append_nil]

theorem components_of_trimReversed_eq {w g : List Char} (hw : '/' ∉ w)
    (h : trimReversed p.toList.reverse = w ++ '/' :: g) : components p =
      (if g.reverse = [] then [.root] else components (String.ofList g.reverse)) ++ (component? w.reverse).toList := by
  have hlast : rest (String.ofList w.reverse) = (component? w.reverse).toList := by
    rw [rest_eq (by simpa using hw), String.toList_ofList]
  rw [components_eq_trimReversed, h, List.reverse_append, List.reverse_cons, List.append_assoc, List.singleton_append,
    components_ofList_slash, hlast]

/-- A path leads through the components of its parent and goes on by one more. -/
theorem components_of_parent? (h : parent? p = some d) : ∃ c, components p = components d ++ [c] := by
  unfold parent? at h
  split at h
  · cases h
  · cases h
  · next last hroot hlast =>
    simp only at h
    rcases dropWhile_slash (trimReversed p.toList.reverse) with ⟨hx, hd⟩ | ⟨w, g, hw, hx, hd⟩
    · rw [hd] at h
      obtain rfl := Option.some.inj h
      have hlen : (components p).length ≤ 1 := by
        rw [components_eq_trimReversed]
        exact length_components_le (by simpa using hx)
      obtain ⟨cs, hcs⟩ := List.getLast?_eq_some_iff.mp hlast
      rw [hcs, List.length_append, List.length_singleton] at hlen
      obtain rfl : cs = [] := List.eq_nil_of_length_eq_zero (by omega)
      exact ⟨last, hcs⟩
    · have hcs := components_of_trimReversed_eq hw hx
      have hd : components d = if g.reverse = [] then [.root] else components (String.ofList g.reverse) := by
        rw [hd] at h
        rw [← components_front]
        split at h
        · next hone =>
          have hsuffix : ['/'] <:+ p.toList.reverse := by
            rw [← hone]
            have hback := trimReversed_suffix p.toList.reverse
            rw [hx] at hback
            exact (trimReversed_suffix _).trans ((List.suffix_append w _).trans hback)
          rw [isAbsolute_of_suffix hsuffix] at h
          rw [hone, ← Option.some.inj h]
          rfl
        · rw [Option.some.inj h]
      have hne : w = [] → g ≠ [] := by
        rintro rfl rfl
        rw [hcs] at hlast
        exact hroot (Option.some.inj hlast).symm
      obtain ⟨hslash, hpoint⟩ := trimReversed_ne p.toList.reverse
      rw [hx] at hslash hpoint
      obtain ⟨c, hc⟩ := component?_of_trimmed hw hslash hpoint hne
      exact ⟨c, by rw [hcs, hd, hc, Option.toList_some]⟩

/-! ### File names -/

theorem slash_not_mem_of_mem_splitAt (l : List Char) : ∀ part ∈ Text.splitAt (· == '/') l, '/' ∉ part := by
  induction l with
  | nil => simp [Text.splitAt]
  | cons c l ih =>
    obtain ⟨q, qs, hl⟩ := exists_splitAt_eq_cons l
    rw [hl] at ih
    obtain ⟨hq, hqs⟩ := List.forall_mem_cons.mp ih
    unfold Text.splitAt
    rw [hl]
    split
    · exact List.forall_mem_cons.mpr ⟨List.not_mem_nil, ih⟩
    · next hc =>
      refine List.forall_mem_cons.mpr ⟨?_, hqs⟩
      rw [List.mem_cons, not_or]
      exact ⟨fun he => hc (he ▸ rfl), hq⟩

/-- A name in a path holds no slash. -/
theorem slash_not_mem_of_name (h : .name name ∈ components p) : '/' ∉ name.toList := by
  rcases List.mem_append.mp h with h | h
  · split at h <;> simp at h
  · obtain ⟨part, hpart, hc⟩ := List.mem_filterMap.mp h
    unfold component? at hc
    split at hc
    · cases hc
    · split at hc
      · cases hc
      · cases hc
        rw [String.toList_ofList]
        exact slash_not_mem_of_mem_splitAt _ part hpart

theorem getLast?_of_fileName? (h : fileName? p = some name) : (components p).getLast? = some (.name name) := by
  unfold fileName? at h
  split at h
  · next hl => rw [hl, Option.some.inj h]
  · cases h

/-- A path with another file name goes on by that name, from its parent if it has had one. -/
theorem components_withFileName (hname : '/' ∉ name.toList) (hc : component? name.toList = some (.name name)) :
    components (withFileName p name) =
      (if (fileName? p).isSome then (components p).dropLast else components p) ++ [.name name] := by
  have hpoint : name ≠ "." := by
    rintro rfl
    cases hc
  have hrest : rest name = [.name name] := by rw [rest_eq hname, hc, Option.toList_some]
  have hjoin (a : String) : components (join a name) = components a ++ [.name name] := by
    rw [components_join (isAbsolute_eq_false hname) fun _ => components_eq_rest hname hpoint, hrest]
  unfold withFileName
  cases hf : fileName? p with
  | none => exact hjoin p
  | some n =>
    have hlast := getLast?_of_fileName? hf
    cases hd : parent? p with
    | none =>
      rcases components_of_parent?_eq_none hd with h | h <;> simp [h] at hlast
    | some d =>
      obtain ⟨c, hcs⟩ := components_of_parent? hd
      simp [hjoin, hcs]

end WorkWaves.Path
