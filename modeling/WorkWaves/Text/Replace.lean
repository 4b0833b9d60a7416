/-!
# Replacing a part of a text

Every occurrence from left to right, without overlap.
-/

namespace WorkWaves.Text

/-- Puts `new` for each occurrence of `old`. `skip` counts the characters of an occurrence that is
replaced already. -/
def replaceFrom (old new : List Char) : Nat → List Char → List Char
  | _, [] => []
  | skip + 1, _ :: r => replaceFrom old new skip r
  | 0, c :: r =>
    if old.isPrefixOf (c :: r) then new ++ replaceFrom old new (old.length - 1) r
    else c :: replaceFrom old new 0 r

/-- A text with `new` for each occurrence of `old`, which has to be something. -/
def replace (old new s : String) : String :=
  String.ofList (replaceFrom old.toList new.toList 0 s.toList)

theorem replaceFrom_length (old new : List Char) (r t : List Char) :
    replaceFrom old new r.length (r ++ t) = replaceFrom old new 0 t := by
  induction r with
  | nil => rfl
  | cons c r ih => simpa [replaceFrom] using ih

/-- An occurrence at the front is replaced, and the search goes on behind it. -/
theorem replaceFrom_append {old : List Char} (h : old ≠ []) (new t : List Char) :
    replaceFrom old new 0 (old ++ t) = new ++ replaceFrom old new 0 t := by
  cases old with
  | nil => exact absurd rfl h
  | cons c r =>
    have hp : (c :: r).isPrefixOf (c :: (r ++ t)) = true := by
      simp [List.isPrefixOf_iff_prefix]
    simp only [List.cons_append, replaceFrom, hp, if_true, List.length_cons, Nat.add_sub_cancel]
    rw [replaceFrom_length]

end WorkWaves.Text
