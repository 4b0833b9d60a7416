/-!
# Sets of strings

A set is kept as its strictly increasing list, in the order of code points, so equal sets are equal
values and the order shown is always the same. The view is `toList`; `mem_insert`, `mem_erase` and
`mem_union` say what the operations do to it.
-/

namespace WorkWaves

/-- A finite set of strings, listed in increasing order without repetition. -/
structure StringSet where
  toList : List String
  increasing : toList.Pairwise (· < ·) := by simp

namespace StringSet

instance : DecidableEq StringSet := fun a b =>
  if h : a.toList = b.toList then isTrue (by cases a; cases b; cases h; rfl)
  else isFalse (fun e => h (congrArg toList e))

instance : Repr StringSet := ⟨fun s n => reprPrec s.toList n⟩

/-- Places `a` into an increasing list, unless it is there. -/
def insertInto (a : String) : List String → List String
  | [] => [a]
  | b :: r => if a < b then a :: b :: r else if a = b then b :: r else b :: insertInto a r

theorem mem_insertInto {a x : String} {l : List String} : x ∈ insertInto a l ↔ x = a ∨ x ∈ l := by
  induction l with
  | nil => simp [insertInto]
  | cons b r ih =>
    unfold insertInto
    split
    · simp
    · split
      · next h => subst h; simp
      · simp only [List.mem_cons, ih]
        constructor <;> (rintro (h | h | h) <;> simp [h])

theorem lt_of_not_lt_of_ne {a b : String} (h : ¬ a < b) (hne : a ≠ b) : b < a := by
  rcases String.le_total a b with hl | hl
  · exact absurd (String.le_antisymm hl (String.not_lt.mp h)) hne
  · exact Decidable.byContradiction fun hn => hne (String.le_antisymm (String.not_lt.mp hn) hl)

theorem insertInto_increasing {a : String} {l : List String} (h : l.Pairwise (· < ·)) :
    (insertInto a l).Pairwise (· < ·) := by
  induction l with
  | nil => simp [insertInto]
  | cons b r ih =>
    obtain ⟨hb, hr⟩ := List.pairwise_cons.mp h
    unfold insertInto
    split
    · next hab =>
      refine List.pairwise_cons.mpr ⟨fun x hx => ?_, h⟩
      rcases List.mem_cons.mp hx with rfl | hx
      · exact hab
      · exact String.lt_trans hab (hb x hx)
    · split
      · exact h
      · next hab hne =>
        refine List.pairwise_cons.mpr ⟨fun x hx => ?_, ih hr⟩
        rcases mem_insertInto.mp hx with rfl | hx
        · exact lt_of_not_lt_of_ne hab hne
        · exact hb x hx

/-- The set without elements. -/
def empty : StringSet := ⟨[], by simp⟩

instance : Inhabited StringSet := ⟨empty⟩
instance : EmptyCollection StringSet := ⟨empty⟩
instance : Membership String StringSet := ⟨fun s a => a ∈ s.toList⟩

instance (a : String) (s : StringSet) : Decidable (a ∈ s) :=
  inferInstanceAs (Decidable (a ∈ s.toList))

/-- Whether `a` is an element. -/
def contains (s : StringSet) (a : String) : Bool := s.toList.contains a

def isEmpty (s : StringSet) : Bool := s.toList.isEmpty

def insert (s : StringSet) (a : String) : StringSet :=
  ⟨insertInto a s.toList, insertInto_increasing s.increasing⟩

/-- The set of the strings of a list. -/
def ofList (l : List String) : StringSet := l.foldl insert empty

/-- The elements that satisfy `p`. -/
def filter (p : String → Bool) (s : StringSet) : StringSet :=
  ⟨s.toList.filter p, s.increasing.filter p⟩

def erase (s : StringSet) (a : String) : StringSet := s.filter (· != a)

def union (s t : StringSet) : StringSet := t.toList.foldl insert s

def inter (s t : StringSet) : StringSet := s.filter t.contains

def any (s : StringSet) (p : String → Bool) : Bool := s.toList.any p

def all (s : StringSet) (p : String → Bool) : Bool := s.toList.all p

instance : Union StringSet := ⟨union⟩
instance : Inter StringSet := ⟨inter⟩

theorem mem_def {a : String} {s : StringSet} : a ∈ s ↔ a ∈ s.toList := Iff.rfl

theorem ext {s t : StringSet} (h : s.toList = t.toList) : s = t := by
  cases s; cases t; cases h; rfl

theorem ext_mem {s t : StringSet} (h : ∀ a, a ∈ s ↔ a ∈ t) : s = t := by
  have hperm : s.toList.Perm t.toList :=
    (List.perm_ext_iff_of_nodup (s.increasing.imp String.ne_of_lt) (t.increasing.imp String.ne_of_lt)).mpr h
  refine ext (hperm.eq_of_pairwise (fun a b _ _ hab hba => ?_) s.increasing t.increasing)
  exact absurd (String.lt_trans hab hba) (String.lt_irrefl a)

theorem contains_iff {a : String} {s : StringSet} : s.contains a = true ↔ a ∈ s := by
  simp [contains, mem_def]

@[simp] theorem not_mem_empty {a : String} : ¬ a ∈ (∅ : StringSet) := by
  simp [mem_def, EmptyCollection.emptyCollection, empty]

theorem mem_insert {a x : String} {s : StringSet} : x ∈ s.insert a ↔ x = a ∨ x ∈ s :=
  mem_insertInto

theorem mem_foldl_insert {x : String} {l : List String} {s : StringSet} :
    x ∈ l.foldl insert s ↔ x ∈ l ∨ x ∈ s := by
  induction l generalizing s with
  | nil => simp
  | cons a r ih =>
    rw [List.foldl_cons, ih, mem_insert, List.mem_cons, or_left_comm, ← or_assoc]

theorem mem_ofList {x : String} {l : List String} : x ∈ ofList l ↔ x ∈ l := by
  rw [ofList, mem_foldl_insert]
  exact ⟨fun h => h.resolve_right not_mem_empty, Or.inl⟩

/-- A set is the set of its elements. -/
theorem ofList_toList (s : StringSet) : ofList s.toList = s := ext_mem fun _ => mem_ofList

theorem mem_union {x : String} {s t : StringSet} : x ∈ s ∪ t ↔ x ∈ s ∨ x ∈ t := by
  change x ∈ t.toList.foldl insert s ↔ _
  rw [mem_foldl_insert, or_comm]; rfl

theorem mem_filter {x : String} {p : String → Bool} {s : StringSet} :
    x ∈ s.filter p ↔ x ∈ s ∧ p x = true := List.mem_filter

theorem mem_erase {x a : String} {s : StringSet} : x ∈ s.erase a ↔ x ∈ s ∧ x ≠ a := by
  simp [erase, mem_filter]

theorem mem_inter {x : String} {s t : StringSet} : x ∈ s ∩ t ↔ x ∈ s ∧ x ∈ t := by
  change x ∈ s.filter t.contains ↔ _
  rw [mem_filter, contains_iff]

end StringSet

end WorkWaves
