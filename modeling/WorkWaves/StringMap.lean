import WorkWaves.StringSet

/-!
# Maps keyed by strings

A map is kept as the list of its entries with strictly increasing keys, so equal maps are equal values.
The view is `get?`; `get?_insert` says what writing does to it.
-/

namespace WorkWaves

/-- A finite map from strings, its entries listed by increasing key. -/
structure StringMap (α : Type) where
  entries : List (String × α)
  increasing : (entries.map (·.1)).Pairwise (· < ·) := by simp

namespace StringMap

variable {α β : Type}

instance [DecidableEq α] : DecidableEq (StringMap α) := fun a b =>
  if h : a.entries = b.entries then isTrue (by cases a; cases b; cases h; rfl)
  else isFalse (fun e => h (congrArg entries e))

instance [Repr α] : Repr (StringMap α) := ⟨fun m n => reprPrec m.entries n⟩

/-- Writes `v` under `k` into entries with increasing keys. -/
def putInto (k : String) (v : α) : List (String × α) → List (String × α)
  | [] => [(k, v)]
  | e :: r =>
    if k < e.1 then (k, v) :: e :: r else if k = e.1 then (k, v) :: r else e :: putInto k v r

theorem map_fst_putInto (k : String) (v : α) (l : List (String × α)) :
    (putInto k v l).map (·.1) = StringSet.insertInto k (l.map (·.1)) := by
  induction l with
  | nil => rfl
  | cons e r ih =>
    simp only [putInto, List.map_cons, StringSet.insertInto]
    split
    · simp
    · split
      · next h => simp [h]
      · simp [ih]

def empty : StringMap α := ⟨[], by simp⟩

instance : EmptyCollection (StringMap α) := ⟨empty⟩
instance : Inhabited (StringMap α) := ⟨empty⟩

/-- The value under a key. -/
def get? (m : StringMap α) (k : String) : Option α := m.entries.lookup k

def insert (m : StringMap α) (k : String) (v : α) : StringMap α :=
  ⟨putInto k v m.entries, by
    rw [map_fst_putInto]; exact StringSet.insertInto_increasing m.increasing⟩

/-- The entries that satisfy `p`. -/
def filter (p : String → α → Bool) (m : StringMap α) : StringMap α :=
  ⟨m.entries.filter fun e => p e.1 e.2,
    m.increasing.sublist (List.filter_sublist.map _)⟩

def erase (m : StringMap α) (k : String) : StringMap α := m.filter fun k' _ => k' != k

/-- Changes every value, under the same keys. -/
def map (f : String → α → β) (m : StringMap α) : StringMap β :=
  ⟨m.entries.map fun e => (e.1, f e.1 e.2), by
    have h := m.increasing
    simpa [List.map_map, Function.comp_def] using h⟩

/-- The map of a list of entries, of which a later one replaces an earlier one. -/
def ofList (l : List (String × α)) : StringMap α := l.foldl (fun m e => m.insert e.1 e.2) empty

def contains (m : StringMap α) (k : String) : Bool := (m.get? k).isSome

def isEmpty (m : StringMap α) : Bool := m.entries.isEmpty

/-- The set under a key, without elements if there is none. -/
def setAt (m : StringMap StringSet) (k : String) : StringSet := (m.get? k).getD ∅

theorem ext {m n : StringMap α} (h : m.entries = n.entries) : m = n := by
  cases m; cases n; cases h; rfl

@[simp] theorem get?_empty {k : String} : (∅ : StringMap α).get? k = none := rfl

theorem lookup_cons_eq_ite {x : String} {e : String × α} {l : List (String × α)} :
    (e :: l).lookup x = if x = e.1 then some e.2 else l.lookup x := by
  cases e with
  | mk k v =>
    rw [List.lookup_cons]
    by_cases h : x = k
    · simp [h]
    · rw [beq_eq_false_iff_ne.mpr h, if_neg h]

theorem lookup_putInto {k x : String} {v : α} {l : List (String × α)} :
    (putInto k v l).lookup x = if x = k then some v else l.lookup x := by
  induction l with
  | nil => simp [putInto, lookup_cons_eq_ite]
  | cons e r ih =>
    unfold putInto
    split
    · simp [lookup_cons_eq_ite]
    · split
      · next h => subst h; simp only [lookup_cons_eq_ite]; split <;> simp_all
      · next h =>
        simp only [lookup_cons_eq_ite, ih]
        by_cases hx : x = k
        · subst hx; simp [h]
        · simp [hx]

theorem get?_insert {m : StringMap α} {k x : String} {v : α} :
    (m.insert k v).get? x = if x = k then some v else m.get? x :=
  lookup_putInto

theorem get?_foldl_insert {l : List (String × α)} {m : StringMap α} {k : String} :
    (l.foldl (fun m e => m.insert e.1 e.2) m).get? k = (l.reverse.lookup k).or (m.get? k) := by
  induction l generalizing m with
  | nil => simp
  | cons e r ih =>
    rw [List.foldl_cons, ih, get?_insert, List.reverse_cons, List.lookup_append, lookup_cons_eq_ite]
    cases r.reverse.lookup k with
    | some v => simp
    | none => by_cases h : k = e.1 <;> simp [h]

theorem get?_ofList {l : List (String × α)} {k : String} : (ofList l).get? k = l.reverse.lookup k := by
  rw [ofList, get?_foldl_insert]
  exact Option.or_none

theorem lookup_eq_some_of_mem {l : List (String × α)} (hn : (l.map (·.1)).Nodup) {k : String} {v : α}
    (h : (k, v) ∈ l) : l.lookup k = some v := by
  induction l with
  | nil => simp at h
  | cons e r ih =>
    obtain ⟨he, hr⟩ := List.nodup_cons.mp hn
    rw [lookup_cons_eq_ite]
    rcases List.mem_cons.mp h with rfl | h
    · simp
    · have hk : k ≠ e.1 := fun hk => he (List.mem_map.mpr ⟨(k, v), h, hk⟩)
      rw [if_neg hk, ih hr h]

theorem mem_entries {m : StringMap α} {k : String} {v : α} : (k, v) ∈ m.entries ↔ m.get? k = some v := by
  constructor
  · refine lookup_eq_some_of_mem (m.increasing.imp fun h he => ?_)
    exact String.lt_irrefl _ (he ▸ h)
  · intro h
    obtain ⟨pre, post, he, -⟩ := List.lookup_eq_some_iff.mp h
    exact he ▸ List.mem_append_right pre (List.mem_cons_self ..)

/-- Of entries with different keys, each is found in their map. -/
theorem get?_ofList_of_mem {l : List (String × α)} (hn : (l.map (·.1)).Nodup) {k : String} {v : α}
    (h : (k, v) ∈ l) : (ofList l).get? k = some v := by
  rw [get?_ofList]
  refine lookup_eq_some_of_mem ?_ (List.mem_reverse.mpr h)
  rw [List.map_reverse]
  exact (List.reverse_perm _).nodup_iff.mpr hn

theorem get?_map {m : StringMap α} {f : String → α → β} {k : String} : (m.map f).get? k = (m.get? k).map (f k) := by
  show (m.entries.map fun e => (e.1, f e.1 e.2)).lookup k = (m.entries.lookup k).map (f k)
  induction m.entries with
  | nil => rfl
  | cons e r ih =>
    rw [List.map_cons, lookup_cons_eq_ite, lookup_cons_eq_ite, ih]
    by_cases h : k = e.1
    · simp [h]
    · simp [h]

theorem get?_filter {m : StringMap α} {p : String → α → Bool} {k : String} :
    (m.filter p).get? k = (m.get? k).filter (p k) := by
  obtain ⟨l, hl⟩ := m
  show (l.filter fun e => p e.1 e.2).lookup k = (l.lookup k).filter (p k)
  induction l with
  | nil => rfl
  | cons e r ih =>
    obtain ⟨he, hr⟩ := List.pairwise_cons.mp hl
    rw [List.filter_cons, lookup_cons_eq_ite]
    by_cases hk : k = e.1
    · subst hk
      have hnone : r.lookup e.1 = none := by
        refine List.lookup_eq_none_iff.mpr fun q hq => bne_iff_ne.mpr fun h => ?_
        exact String.lt_irrefl q.1 (h ▸ he q.1 (List.mem_map_of_mem hq))
      cases hp : p e.1 e.2 with
      | true => simp [lookup_cons_eq_ite, Option.filter, hp]
      | false => simp [ih hr, hnone, Option.filter, hp]
    · rw [if_neg hk, ← ih hr]
      cases hp : p e.1 e.2 with
      | true => simp [lookup_cons_eq_ite, hk]
      | false => simp

end StringMap

end WorkWaves
