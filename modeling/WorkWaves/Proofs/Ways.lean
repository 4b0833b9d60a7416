import WorkWaves.Proofs.Merge.Stash
import WorkWaves.Proofs.Parents

/-!
# Ways down

The way on which a path goes on from a directory (`Path.way?`) ends at the directory followed by the names on the way
if it does not lead up (`Path.inside?_of_down`), and before that if it leads up (`Path.length_foldl_turn_lt`). A place
is told by its names with slashes between them (`Path.intercalate_inj`), and so is what lies below it
(`Path.within_intercalate_iff`).
-/

namespace WorkWaves

namespace Path

variable {root path s : String} {place rel rel' : Place} {cs : List Component}

/-! ### Ways down -/

theorem mem_names : s ∈ names cs ↔ .name s ∈ cs := by
  unfold names
  rw [List.mem_filterMap]
  constructor
  · rintro ⟨c, hc, h⟩
    cases c with
    | name t => exact Option.some.inj h ▸ hc
    | root | here | up => cases h
  · exact fun h => ⟨_, h, rfl⟩

theorem foldl_turn_of_down (hroot : .root ∉ cs) (hup : .up ∉ cs) : cs.foldl turn place = place ++ names cs := by
  induction cs generalizing place with
  | nil => simp [names]
  | cons c cs ih =>
    rw [List.mem_cons, not_or] at hroot hup
    rw [List.foldl_cons, ih hroot.2 hup.2]
    cases c with
    | root => exact absurd rfl hroot.1
    | up => exact absurd rfl hup.1
    | here => rfl
    | name s => simp [turn, names]

theorem length_turn_le (c : Component) :
    (turn place c).length + (names cs).length ≤ place.length + (names (c :: cs)).length := by
  cases c <;> simp [turn, names]
  omega

theorem length_foldl_turn_le : (cs.foldl turn place).length ≤ place.length + (names cs).length := by
  induction cs generalizing place with
  | nil => simp
  | cons c cs ih => exact Nat.le_trans ih (length_turn_le c)

/-- A way that leads up somewhere below the root ends before as many names as are on it. -/
theorem length_foldl_turn_lt (hup : .up ∈ cs) (hplace : place ≠ []) :
    (cs.foldl turn place).length < place.length + (names cs).length := by
  induction cs generalizing place with
  | nil => cases hup
  | cons c cs ih =>
    have hlen : 0 < place.length := List.length_pos_iff.mpr hplace
    rw [List.foldl_cons]
    cases c with
    | root =>
      refine Nat.lt_of_le_of_lt length_foldl_turn_le ?_
      simp [turn, names, hlen]
    | up =>
      refine Nat.lt_of_le_of_lt length_foldl_turn_le ?_
      simp [turn, names]
      omega
    | here | name s =>
      exact Nat.lt_of_lt_of_le (ih (by simpa using hup) (by simp [turn, hplace])) (length_turn_le _)

theorem mem_foldl_turn (h : s ∈ cs.foldl turn place) : s ∈ place ∨ .name s ∈ cs := by
  induction cs generalizing place with
  | nil => exact .inl h
  | cons c cs ih =>
    rcases ih h with h | h
    · cases c with
      | root => cases h
      | here => exact .inl h
      | up => exact .inl (List.dropLast_subset place h)
      | name t =>
        rcases List.mem_append.mp h with h | h
        · exact .inl h
        · exact .inr (by simp [List.mem_singleton.mp h])
    · exact .inr (List.mem_cons_of_mem c h)

theorem slash_not_mem_of_mem_lead (h : s ∈ lead [] path) : '/' ∉ s.toList :=
  slash_not_mem_of_name ((mem_foldl_turn h).resolve_left List.not_mem_nil)

/-- The components by which a path goes on from a directory; nothing for an absolute path that does not start like the
directory's. -/
def way? (root path : String) : Option (List Component) :=
  if isAbsolute path then below? root path else some (components path)

theorem components_of_below? (h : below? root path = some cs) : components path = components root ++ cs := by
  unfold below? at h
  dsimp only at h
  split at h
  · next hp =>
    cases h
    exact (List.prefix_iff_eq_append.mp (List.isPrefixOf_iff_prefix.mp hp)).symm
  · cases h

theorem subset_of_way? (h : way? root path = some cs) : cs ⊆ components path := by
  unfold way? at h
  split at h
  · exact components_of_below? h ▸ List.subset_append_right _ _
  · cases h
    exact List.Subset.refl _

theorem root_not_mem_rest (p : String) : .root ∉ rest p := fun h => by
  rcases eq_of_mem_rest h with h | ⟨s, h⟩ <;> cases h

theorem root_not_mem_of_way? (hroot : isAbsolute root = true) (h : way? root path = some cs) : .root ∉ cs := by
  unfold way? at h
  split at h
  · next hp =>
    have hcs := components_of_below? h
    rw [components_of_isAbsolute hp, components_of_isAbsolute hroot, List.cons_append] at hcs
    exact fun hmem => root_not_mem_rest path ((List.cons.inj hcs).2 ▸ List.mem_append_right _ hmem)
  · next hp =>
    cases h
    rcases components_of_relative (Bool.eq_false_iff.mpr hp) with h | h <;> simp [h, root_not_mem_rest]

/-- A path that goes on from the repository leads where the way leads from there. -/
theorem lead_join_of_way? (hroot : isAbsolute root = true) (h : way? root path = some cs) :
    lead [] (join root path) = cs.foldl turn (lead [] root) := by
  unfold way? at h
  split at h
  · next hp =>
    unfold lead join
    rw [if_pos hp, components_of_below? h, List.foldl_append]
  · next hp =>
    cases h
    have hempty : root ≠ "" := by
      rintro rfl
      cases hroot
    have hp := Bool.eq_false_iff.mpr hp
    unfold lead
    rw [components_join hp fun he => absurd he hempty, List.foldl_append]
    rcases components_of_relative hp with h | h <;> rw [h]
    rfl

theorem isAbsolute_append (h : isAbsolute p = true) (q : String) : isAbsolute (p ++ q) = true := by
  unfold isAbsolute at h ⊢
  rw [beq_iff_eq] at h ⊢
  rw [String.toList_append, List.head?_append, h]
  rfl

theorem isAbsolute_join (hroot : isAbsolute root = true) (path : String) : isAbsolute (join root path) = true := by
  unfold join
  split
  · assumption
  · split
    · exact isAbsolute_append hroot path
    · exact isAbsolute_append hroot path
    · exact isAbsolute_append (isAbsolute_append hroot "/") path

/-! ### Places in the repository -/

/-- The names by which to come from a directory to the place to which a path leads that is seen from there; nothing if
the place is not below the directory. -/
def inside? (root path : String) : Option Place :=
  let top := lead [] root
  let place := lead [] (join root path)
  if top <+: place ∧ place ≠ top then some (place.drop top.length) else none

theorem inside?_eq_some :
    inside? root path = some rel ↔ rel ≠ [] ∧ lead [] (join root path) = lead [] root ++ rel := by
  unfold inside?
  dsimp only
  split
  · next h =>
    obtain ⟨⟨r, hr⟩, hne⟩ := h
    have hr' : r ≠ [] := by
      rintro rfl
      exact hne (by simpa using hr.symm)
    rw [← hr, List.drop_left, Option.some.injEq, List.append_cancel_left_eq]
    exact ⟨fun h => ⟨h ▸ hr', h⟩, And.right⟩
  · next h =>
    refine ⟨nofun, fun ⟨hne, hr⟩ => absurd ⟨⟨rel, hr.symm⟩, fun he => hne ?_⟩ h⟩
    simpa [he] using hr

theorem inside?_eq_none : inside? root path = none ↔
    ¬ lead [] root <+: lead [] (join root path) ∨ lead [] (join root path) = lead [] root := by
  unfold inside?
  dsimp only
  split
  · next h => simp [h]
  · next h =>
    by_cases hp : lead [] root <+: lead [] (join root path)
    · simpa [hp] using h
    · simp [hp]

theorem inside?_of_down (hroot : isAbsolute root = true) (h : way? root path = some cs) (hup : .up ∉ cs) :
    inside? root path = if names cs = [] then none else some (names cs) := by
  have hlead := (lead_join_of_way? hroot h).trans (foldl_turn_of_down (root_not_mem_of_way? hroot h) hup)
  split
  · next hn => exact inside?_eq_none.mpr (.inr (by rw [hlead, hn, List.append_nil]))
  · next hn => exact inside?_eq_some.mpr ⟨hn, hlead⟩

theorem rest_eq_map_names (hup : .up ∉ rest path) : rest path = (names (rest path)).map .name := by
  have h : ∀ c ∈ rest path, ∃ s, c = .name s := fun c hc =>
    (eq_of_mem_rest hc).resolve_left fun he => hup (he ▸ hc)
  generalize rest path = cs at h
  induction cs with
  | nil => rfl
  | cons c cs ih =>
    obtain ⟨⟨s, rfl⟩, hcs⟩ := List.forall_mem_cons.mp h
    exact congrArg (List.cons _) (ih hcs)

theorem lead_of_down (hp : isAbsolute path = true) (hup : .up ∉ components path) :
    lead [] path = names (rest path) := by
  rw [components_of_isAbsolute hp, List.mem_cons, not_or] at hup
  unfold lead
  rw [components_of_isAbsolute hp, List.foldl_cons]
  exact foldl_turn_of_down (root_not_mem_rest path) hup.2

/-- No component of a path leads up, and if it is absolute, none of the directory does. -/
structure Direct (root path : String) : Prop where
  down : .up ∉ components path
  root_down : isAbsolute path = true → .up ∉ components root

/-- An absolute path that goes down, but not from the directory, leads elsewhere. -/
theorem inside?_of_way?_eq_none (hroot : isAbsolute root = true) (hd : Direct root path)
    (h : way? root path = none) : inside? root path = none := by
  unfold way? at h
  split at h
  · next hp =>
    refine inside?_eq_none.mpr (.inl fun hlead => ?_)
    rw [join, if_pos hp, lead_of_down hp hd.down, lead_of_down hroot (hd.root_down hp)] at hlead
    have hrest : rest root <+: rest path := by
      have hpath := hd.down
      have hroot' := hd.root_down hp
      rw [components_of_isAbsolute hp, List.mem_cons, not_or] at hpath
      rw [components_of_isAbsolute hroot, List.mem_cons, not_or] at hroot'
      rw [rest_eq_map_names hpath.2, rest_eq_map_names hroot'.2]
      exact hlead.map _
    unfold below? at h
    dsimp only at h
    split at h
    · cases h
    · next hn =>
      refine hn (List.isPrefixOf_iff_prefix.mpr ?_)
      rw [components_of_isAbsolute hp, components_of_isAbsolute hroot]
      exact (List.prefix_cons_inj _).mpr hrest
  · cases h

/-! ### Places by their text -/

/-- No name in a place holds a slash. -/
def Slashless (rel : Place) : Prop := ∀ s ∈ rel, '/' ∉ s.toList

theorem slashless_of_way? (h : way? root path = some cs) : Slashless (names cs) := fun _ hs =>
  slash_not_mem_of_name (subset_of_way? h (mem_names.mp hs))

theorem slashless_of_inside? (h : inside? root path = some rel) : Slashless rel := fun _ hs => by
  obtain ⟨-, hlead⟩ := inside?_eq_some.mp h
  exact slash_not_mem_of_mem_lead (hlead ▸ List.mem_append_right _ hs)

theorem splitAt_intercalate (h : Slashless rel) (hne : rel ≠ []) :
    Text.splitAt (· == '/') ("/".intercalate rel).toList = rel.map String.toList := by
  rw [Text.splitAt_eq_splitOnP, ← List.splitOn_eq_splitOnP, String.toList_intercalate]
  exact List.splitOn_intercalate '/' (by simpa [Slashless] using h) (by simpa using hne)

theorem intercalate_inj (h : Slashless rel) (h' : Slashless rel') (hne : rel ≠ []) (hne' : rel' ≠ []) :
    "/".intercalate rel = "/".intercalate rel' ↔ rel = rel' := by
  refine ⟨fun he => (List.map_inj_right fun _ _ => String.toList_inj.mp).mp ?_, fun he => he ▸ rfl⟩
  rw [← splitAt_intercalate h hne, he, splitAt_intercalate h' hne']

theorem intercalate_append (hne : rel ≠ []) (hne' : rel' ≠ []) :
    "/".intercalate (rel ++ rel') = "/".intercalate rel ++ "/" ++ "/".intercalate rel' := by
  induction rel with
  | nil => exact absurd rfl hne
  | cons s rel ih =>
    cases rel with
    | nil =>
      obtain ⟨t, rel', rfl⟩ := List.exists_cons_of_ne_nil hne'
      simp [String.intercalate_cons_cons]
    | cons t rel =>
      rw [List.cons_append, List.cons_append, String.intercalate_cons_cons, ← List.cons_append, ih (by simp),
        String.intercalate_cons_cons]
      simp only [String.append_assoc]

theorem within_intercalate_iff (h : Slashless rel) (h' : Slashless rel') (hne : rel ≠ []) (hne' : rel' ≠ []) :
    Within ("/".intercalate rel) ("/".intercalate rel') ↔ rel' <+: rel := by
  constructor
  · rintro (he | ⟨t, he⟩)
    · exact (intercalate_inj h h' hne hne').mp he ▸ List.prefix_rfl
    · have hparts := splitAt_intercalate h hne
      have htext : ("/".intercalate rel' ++ "/" ++ t).toList = ("/".intercalate rel').toList ++ '/' :: t.toList := by
        simp
      rw [he, htext, Text.splitAt_eq_splitOnP, List.splitOnP_append_cons _ _ rfl, ← Text.splitAt_eq_splitOnP,
        splitAt_intercalate h' hne'] at hparts
      obtain ⟨a, b, rfl, ha, -⟩ := List.map_eq_append_iff.mp hparts.symm
      rw [← (List.map_inj_right fun _ _ => String.toList_inj.mp).mp ha]
      exact List.prefix_append a b
  · rintro ⟨r, rfl⟩
    by_cases hr : r = []
    · exact .inl (by rw [hr, List.append_nil])
    · exact .inr ⟨"/".intercalate r, intercalate_append hne' hr⟩

end Path

end WorkWaves
