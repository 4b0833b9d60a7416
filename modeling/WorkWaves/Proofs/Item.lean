import Mathlib.Data.List.Nodup
import WorkWaves.Item

/-!
# The order of items

`comesBefore` compares urgency and then ids; it is a strict order in which items with one urgency and one id are
not told apart. `inOrder` sorts by it.
-/

namespace WorkWaves.Item

variable {a b c : Item} {items : List Item}

/-- Items that are in place: the second does not come before the first. -/
def InPlace (a b : Item) : Prop := ¬ b.comesBefore a

theorem inPlace_iff :
    InPlace a b ↔ a.priority.level < b.priority.level ∨ (a.priority.level = b.priority.level ∧ a.id ≤ b.id) := by
  simp only [InPlace, comesBefore, not_or, not_and, String.not_lt]
  constructor
  · rintro ⟨hlevel, hid⟩
    rcases Nat.lt_or_ge a.priority.level b.priority.level with h | h
    · exact .inl h
    · have he : b.priority.level = a.priority.level := by omega
      exact .inr ⟨he.symm, hid he⟩
  · rintro (h | ⟨he, hid⟩)
    · exact ⟨by omega, fun he => by omega⟩
    · exact ⟨by omega, fun _ => hid⟩

theorem InPlace.trans (hab : InPlace a b) (hbc : InPlace b c) : InPlace a c := by
  rw [inPlace_iff] at *
  rcases hab with hab | ⟨hab, hab'⟩ <;> rcases hbc with hbc | ⟨hbc, hbc'⟩
  · exact .inl (by omega)
  · exact .inl (by omega)
  · exact .inl (by omega)
  · exact .inr ⟨by omega, String.le_trans hab' hbc'⟩

theorem InPlace.total (a b : Item) : InPlace a b ∨ InPlace b a := by
  simp only [inPlace_iff]
  rcases Nat.lt_trichotomy a.priority.level b.priority.level with h | h | h
  · exact .inl (.inl h)
  · rcases String.le_total a.id b.id with hid | hid
    · exact .inl (.inr ⟨h, hid⟩)
    · exact .inr (.inr ⟨h.symm, hid⟩)
  · exact .inr (.inl h)

theorem InPlace.antisymm (hab : InPlace a b) (hba : InPlace b a) : (a.priority, a.id) = (b.priority, b.id) := by
  have hpriority (h : a.priority.level = b.priority.level) : a.priority = b.priority := by
    cases hp : a.priority
    cases hq : b.priority
    rw [hp, hq] at h
    cases h
    rfl
  rw [inPlace_iff] at hab hba
  rcases hab with hab | ⟨hlevel, hid⟩
  · omega
  · rcases hba with hba | ⟨-, hid'⟩
    · omega
    · exact Prod.ext (hpriority hlevel) (String.le_antisymm hid hid')

theorem inOrder_perm (items : List Item) : (inOrder items).Perm items := List.mergeSort_perm ..

theorem inOrder_inPlace (items : List Item) : (inOrder items).Pairwise InPlace := by
  have h := @List.pairwise_mergeSort _ (fun a b : Item => !decide (comesBefore b a))
    (fun a b c hab hbc => by
      simp only [Bool.not_eq_true', decide_eq_false_iff_not] at *
      exact InPlace.trans hab hbc)
    (fun a b => by
      simp only [Bool.or_eq_true, Bool.not_eq_true', decide_eq_false_iff_not]
      exact InPlace.total a b) items
  exact h.imp fun hab => by simpa [InPlace] using hab

/-- Items that differ in urgency or id are in order in one way only. -/
theorem inOrder_congr {items' : List Item} (h : items.Perm items')
    (hn : (items.map fun i => (i.priority, i.id)).Nodup) : inOrder items = inOrder items' := by
  have hperm := inOrder_perm items
  have hperm' := (inOrder_perm items').trans h.symm
  refine (hperm.trans hperm'.symm).eq_of_pairwise (fun a b ha hb hab hba => ?_) (inOrder_inPlace items)
    (inOrder_inPlace items')
  exact List.inj_on_of_nodup_map hn (hperm.mem_iff.mp ha) (hperm'.mem_iff.mp hb) (hab.antisymm hba)

end WorkWaves.Item
