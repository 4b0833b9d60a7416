import WorkWaves.Manifest
import WorkWaves.Proofs.Json.Reading

/-!
# A manifest is read back from its text

The text of a manifest, with blanks between its parts or without, is the document of its JSON value, and each field of
an item is read as what was written. It does not matter in which way a priority is given: by its label, by the label in
lower case or by its level (`ofText_spelled`).
-/

namespace WorkWaves

open Json Json.Read

namespace Json

/-- An object with another value for one of its keys. -/
def withMember (v : Json) (key : String) (value : Json) : Json :=
  match v with
  | .obj members => .obj (members.map fun e => if e.1 = key then (key, value) else e)
  | v => v

end Json

namespace Priority

variable {n : Nat} {c : Char}

/-- The ways in which a document may give a priority. -/
inductive Spelling where
  | label
  | lowerCase
  | level

def spelled (p : Priority) : Spelling → Json
  | .label => p.toJson
  | .lowerCase => .str p.label.toLower
  | .level => .nat p.level

theorem byte?_toDigits (h : n < 256) : byte? (Nat.toDigits 10 n) = some n := by
  have hdigits : Nat.toDigits 10 n ≠ [] ∧ (Nat.toDigits 10 n).all Char.isDigit = true :=
    ⟨Nat.toDigits_ne_nil, List.all_eq_true.mpr fun c hc => isDigit_of_mem_toDigits hc⟩
  have hvalue : (Nat.toDigits 10 n).foldl (fun n c => 10 * n + (c.toNat - 48)) 0 = n := by
    have hdecimal := ofDigits_toDigits n
    rwa [ofDigits, List.foldl_map] at hdecimal
  unfold byte?
  split
  · next r he =>
    -- A plus sign is no digit.
    have hplus : '+' ∈ Nat.toDigits 10 n := by
      rw [he]
      exact List.mem_cons_self ..
    exact absurd (isDigit_of_mem_toDigits hplus) (by decide)
  · simp only [hvalue]
    rw [if_pos hdigits, if_pos h]

/-- A label is read, whichever letter stands in front. -/
theorem ofLabel_letter (hc : c = 'P' ∨ c = 'p') (p : Priority) :
    ofLabel (String.ofList (c :: Nat.toDigits 10 p.level)) = .ok p := by
  have hblank : Text.isBlank c = false := by
    rcases hc with rfl | rfl <;> rfl
  have hlast : ∀ d ∈ (c :: Nat.toDigits 10 p.level).getLast?, Text.isBlank d = false := by
    intro d hd
    rcases List.mem_cons.mp (List.mem_of_getLast? hd) with rfl | hd
    · exact hblank
    · exact Text.isBlank_of_isDigit (isDigit_of_mem_toDigits hd)
  have hstrip : Text.strip Text.isBlank (c :: Nat.toDigits 10 p.level) = c :: Nat.toDigits 10 p.level := by
    rw [Text.strip, Text.dropWhile_eq_self fun d hd => by cases hd; exact hblank, Text.dropEnd_eq_self hlast]
  have hdrop : dropLetter (c :: Nat.toDigits 10 p.level) = Nat.toDigits 10 p.level := by
    rcases hc with rfl | rfl <;> rfl
  have hle := p.level_le
  unfold ofLabel
  rw [String.toList_ofList, hstrip, hdrop, byte?_toDigits (by omega)]
  exact dif_pos hle

theorem label_eq (p : Priority) : p.label = String.ofList ('P' :: Nat.toDigits 10 p.level) := by
  rw [label, Nat.toString_eq_ofList_toDigits]
  show String.ofList ['P'] ++ String.ofList _ = _
  rw [← String.ofList_append]
  rfl

theorem toLower_of_isDigit (h : c.isDigit = true) : c.toLower = c := by
  have hle := (Char.isDigit_iff_toNat.mp h).2
  have hnine : '9'.toNat = 57 := rfl
  refine dif_neg fun hupper => ?_
  have hge : 65 ≤ c.toNat := UInt32.le_iff_toNat_le.mp hupper.1
  omega

theorem toLower_label (p : Priority) : p.label.toLower = String.ofList ('p' :: Nat.toDigits 10 p.level) := by
  have hmap : p.label.toLower.toList = p.label.toList.map Char.toLower := String.toList_map
  have hdigits : (Nat.toDigits 10 p.level).map Char.toLower = Nat.toDigits 10 p.level := by
    rw [List.map_congr_left fun c hc => toLower_of_isDigit (isDigit_of_mem_toDigits hc), List.map_id']
  rw [← String.toList_inj, hmap, label_eq, String.toList_ofList, String.toList_ofList, List.map_cons, hdigits]
  rfl

theorem ofLabel_label (p : Priority) : ofLabel p.label = .ok p := by
  rw [label_eq]
  exact ofLabel_letter (.inl rfl) p

theorem ofLabel_toLower (p : Priority) : ofLabel p.label.toLower = .ok p := by
  rw [toLower_label]
  exact ofLabel_letter (.inr rfl) p

theorem read_spelled (p : Priority) (s : Spelling) (depth : Nat) : read depth (node (p.spelled s)) = .ok p := by
  cases s with
  | label => simp [spelled, toJson, node, read, Node.fits, p.ofLabel_label, Except.mapError]
  | lowerCase => simp [spelled, node, read, Node.fits, p.ofLabel_toLower, Except.mapError]
  | level =>
    have hle := p.level_le
    have hamount := amount?_numeralOf (n := p.level) (by
      have : 9 < Nat.pow 2 64 := by decide
      omega)
    have hlevel : ofLevel p.level = .ok p := dif_pos hle
    have hbyte : p.level < 256 := by omega
    simp [spelled, Json.nat, node, read, Node.fits, hamount, hlevel, hbyte, Except.mapError]

end Priority

namespace Item

/-- The value of an item whose priority is given in some way. -/
def spelled (s : Priority.Spelling) (i : Item) : Json := i.toJson.withMember "priority" (i.priority.spelled s)

theorem node_spelled (s : Priority.Spelling) (i : Item) : node (i.spelled s) = .object
    ([(.string (some "id"), .string (some i.id)), (.string (some "priority"), node (i.priority.spelled s))] ++
    (match i.title with
     | some t => [(.string (some "title"), .string (some t))]
     | none => []) ++
    [(.string (some "blocked_by"), node (.strs i.blockedBy.toList)),
      (.string (some "blocks"), node (.strs i.blocks.toList)),
      (.string (some "description"), .string (some i.description))]) true := by
  cases h : i.title <;> simp [spelled, toJson, withMember, node, memberNodes_eq, h]

theorem spelled_label (i : Item) : i.spelled .label = i.toJson := by
  cases h : i.title <;> simp [spelled, toJson, withMember, Priority.spelled, h]

theorem read_spelled (s : Priority.Spelling) (i : Item) : read (node (i.spelled s)) = .ok i := by
  have hpriority := i.priority.read_spelled s 3
  have hblockedBy := set_strs i.blockedBy
  have hblocks := set_strs i.blocks
  rw [read, node_spelled]
  obtain ⟨id, priority, title, blockedBy, blocks, description⟩ := i
  -- A title that is missing is left out, and stays so.
  cases title with
  | none =>
    simp [record, readMember, fields, string, hpriority, hblockedBy, hblocks, Except.map, bind, Except.bind, pure,
      Except.pure, Parts.item]
  | some t =>
    simp [record, readMember, fields, string, Json.Read.optional, hpriority, hblockedBy, hblocks, Except.map, bind,
      Except.bind, pure, Except.pure, Parts.item]

end Item

namespace Manifest

/-- The value of a manifest in which the priority of each item is given in some way, by the place of the item. -/
def spelled (m : Manifest) (spelling : Nat → Priority.Spelling) : Json :=
  .obj [("items", .arr (m.items.mapIdx fun k i => i.spelled (spelling k))), ("completed", .strs m.completed)]

theorem list_items (items : List Item) (spelling : Nat → Priority.Spelling) :
    Json.Read.list Item.read (node (.arr (items.mapIdx fun k i => i.spelled (spelling k)))) = .ok items := by
  refine list_arr ?_
  induction items generalizing spelling with
  | nil => exact .nil
  | cons i items ih =>
    rw [List.mapIdx_cons]
    exact .cons (i.read_spelled _) (ih fun k => spelling (k + 1))

theorem read_spelled (m : Manifest) (spelling : Nat → Priority.Spelling) : read (node (m.spelled spelling)) = .ok m := by
  have hitems := list_items m.items spelling
  have hcompleted := list_strs m.completed
  have hnode : node (m.spelled spelling) = .object
      [(.string (some "items"), node (.arr (m.items.mapIdx fun k i => i.spelled (spelling k)))),
        (.string (some "completed"), node (.strs m.completed))] true := by
    simp [spelled, node, memberNodes_eq]
  rw [read, hnode]
  simp [record, readMember, fields, hitems, hcompleted, Except.map, bind, Except.bind, pure, Except.pure]

/-- A manifest is what its text says, on one line or over several, in whichever way the priority of each item is given. -/
theorem ofText_spelled (m : Manifest) (spelling : Nat → Priority.Spelling) :
    ofText m.toJson.compact = .ok m ∧ ofText m.toJson.pretty = .ok m ∧
      ofText (m.spelled spelling).compact = .ok m ∧ ofText (m.spelled spelling).pretty = .ok m := by
  have hlabels : m.spelled (fun _ => .label) = m.toJson := by
    have hitems : (m.items.mapIdx fun _ i => i.spelled .label) = m.items.map Item.toJson :=
      List.ext_getElem (by simp) (by simp [Item.spelled_label])
    rw [spelled, hitems, toJson]
  have hread : ∀ spelling, ofText (m.spelled spelling).compact = .ok m ∧ ofText (m.spelled spelling).pretty = .ok m := by
    intro spelling
    rw [ofText, ofText, readText_compact, readText_pretty]
    exact ⟨m.read_spelled spelling, m.read_spelled spelling⟩
  obtain ⟨hcompact, hpretty⟩ := hread fun _ => .label
  rw [hlabels] at hcompact hpretty
  exact ⟨hcompact, hpretty, hread spelling⟩

end Manifest

end WorkWaves
