import WorkWaves.Json.Reader
import WorkWaves.Proofs.Json.Number
import WorkWaves.Proofs.Json.Quoted

/-!
# Written values are read back

A `Layout` says which gaps a writer leaves. A value that is written in any layout is read as `node` of it, and the
text behind it is left (`readNode_write`); both ways of writing values are layouts, so their texts are documents of
the values that they were written from (`ofText_pretty`, `ofText_compact`).
-/

namespace WorkWaves.Json

/-! ### What values are read as -/

mutual

/-- The piece of a document as which a value is read. -/
def node : Json → Node
  | .null => .null
  | .bool b => .bool b
  | .int n => .number (numeralOf n)
  | .str s => .string (some s)
  | .arr l => .array (nodes l) true
  | .obj l => .object (memberNodes l) true

def nodes : List Json → List Node
  | [] => []
  | v :: r => node v :: nodes r

def memberNodes : List (String × Json) → List (Node × Node)
  | [] => []
  | (k, v) :: r => (.string (some k), node v) :: memberNodes r

end

theorem memberNodes_eq (l : List (String × Json)) :
    memberNodes l = l.map fun e => (.string (some e.1), node e.2) := by
  induction l with
  | nil => rfl
  | cons e l ih => rw [memberNodes, ih, List.map_cons]

mutual

theorem isIntact_node : (v : Json) → (node v).isIntact = true
  | .null | .bool _ | .int _ | .str _ => rfl
  | .arr l => areIntact_nodes l
  | .obj l => membersIntact_memberNodes l

theorem areIntact_nodes : (l : List Json) → Node.areIntact (nodes l) = true
  | [] => rfl
  | v :: r => by rw [nodes, Node.areIntact, isIntact_node v, areIntact_nodes r, Bool.and_self]

theorem membersIntact_memberNodes : (l : List (String × Json)) → Node.membersIntact (memberNodes l) = true
  | [] => rfl
  | (k, v) :: r => by
    rw [memberNodes, Node.membersIntact, isIntact_node v, membersIntact_memberNodes r, Bool.and_self]

end

/-! ### Gaps -/

/-- The gaps that a writer leaves: at the start of a line at a depth of nesting, and behind a colon. -/
structure Layout where
  lineStart : Nat → List Char
  afterColon : List Char
  lineStart_isGap : ∀ depth, ∀ c ∈ lineStart depth, isGap c = true
  afterColon_isGap : ∀ c ∈ afterColon, isGap c = true

theorem skipGap_append {gap cs : List Char} (h : ∀ c ∈ gap, isGap c = true) : skipGap (gap ++ cs) = skipGap cs :=
  List.dropWhile_append_of_pos h

theorem skipGap_cons {c : Char} {cs : List Char} (h : isGap c = false) : skipGap (c :: cs) = c :: cs :=
  List.dropWhile_cons_of_neg (by simp [h])

theorem EndsNumber.gap_append {gap cs : List Char} (hgap : ∀ c ∈ gap, isGap c = true) (h : EndsNumber cs) :
    EndsNumber (gap ++ cs) := by
  cases gap with
  | nil => exact h
  | cons c gap =>
    refine EndsNumber.cons ?_
    have hc := hgap c (List.mem_cons_self ..)
    simp only [isGap, Bool.or_eq_true, beq_iff_eq] at hc
    rcases hc with ((rfl | rfl) | rfl) | rfl <;> decide

namespace Layout

variable (l : Layout)

mutual

/-- The text of a value that stands at the given depth. -/
def write (depth : Nat) : Json → List Char
  | .arr (v :: r) => '[' :: (l.lineStart (depth + 1) ++ (write (depth + 1) v ++ writeElements depth r))
  | .obj ((k, v) :: r) => '\x7b' :: (l.lineStart (depth + 1) ++ (quote k ++ ':' :: (l.afterColon ++
      (write (depth + 1) v ++ writeMembers depth r))))
  | .arr [] => ['[', ']']
  | .obj [] => ['\x7b', '\x7d']
  | .null => ['n', 'u', 'l', 'l']
  | .bool true => ['t', 'r', 'u', 'e']
  | .bool false => ['f', 'a', 'l', 's', 'e']
  | .int n => digits n
  | .str s => quote s

/-- The further elements of an array that stands at the given depth, and its end. -/
def writeElements (depth : Nat) : List Json → List Char
  | [] => l.lineStart depth ++ [']']
  | v :: r => ',' :: (l.lineStart (depth + 1) ++ (write (depth + 1) v ++ writeElements depth r))

/-- The further members of an object that stands at the given depth, and its end. -/
def writeMembers (depth : Nat) : List (String × Json) → List Char
  | [] => l.lineStart depth ++ ['\x7d']
  | (k, v) :: r => ',' :: (l.lineStart (depth + 1) ++ (quote k ++ ':' :: (l.afterColon ++
      (write (depth + 1) v ++ writeMembers depth r))))

end

variable {l} {depth fuel : Nat} {rest : List Char}

theorem exists_write_eq_cons (l : Layout) (depth : Nat) (v : Json) :
    ∃ c r, l.write depth v = c :: r ∧ isGap c = false ∧ c ≠ ']' := by
  match v with
  | .null | .bool true | .bool false | .arr [] | .arr (_ :: _) | .obj [] | .obj (_ :: _) | .str _ =>
    exact ⟨_, _, rfl, by decide, by decide⟩
  | .int n =>
    obtain ⟨c, r, he, hc⟩ := digits_head n
    refine ⟨c, r, he, ?_⟩
    rcases hc with rfl | hc
    · decide
    · have hbounds := Char.isDigit_iff_toNat.mp hc
      have hne (d : Char) (hd : d.isDigit = false) : c ≠ d := fun h => by simp [h, hd] at hc
      exact ⟨by simp [isGap, hne ' ' (by decide), hne '\n' (by decide), hne '\t' (by decide), hne '\r' (by decide)],
        hne ']' (by decide)⟩

theorem endsNumber_writeElements (r : List Json) : EndsNumber (l.writeElements depth r ++ rest) := by
  cases r with
  | nil =>
    rw [writeElements, List.append_assoc]
    exact .gap_append (l.lineStart_isGap depth) (.cons (by decide))
  | cons v r => exact .cons (by decide)

theorem endsNumber_writeMembers (r : List (String × Json)) : EndsNumber (l.writeMembers depth r ++ rest) := by
  cases r with
  | nil =>
    rw [writeMembers, List.append_assoc]
    exact .gap_append (l.lineStart_isGap depth) (.cons (by decide))
  | cons e r => exact .cons (by decide)

theorem length_write_pos (l : Layout) (depth : Nat) (v : Json) : 0 < (l.write depth v).length := by
  obtain ⟨c, r, he, -⟩ := exists_write_eq_cons l depth v
  rw [he]
  exact Nat.succ_pos _

theorem length_writeElements_pos (l : Layout) (depth : Nat) (r : List Json) : 0 < (l.writeElements depth r).length := by
  cases r <;> simp [writeElements]

theorem length_writeMembers_pos (l : Layout) (depth : Nat) (r : List (String × Json)) :
    0 < (l.writeMembers depth r).length := by
  cases r <;> simp [writeMembers]

/-! ### Reading what was written -/

theorem readNode_gap {gap cs : List Char} (h : ∀ c ∈ gap, isGap c = true) :
    readNode (fuel + 1) (gap ++ cs) = readNode (fuel + 1) cs := by
  rw [readNode, readNode, skipGap_append h]

theorem readElements_gap {gap cs : List Char} (hfuel : 1 < fuel) (h : ∀ c ∈ gap, isGap c = true) :
    readElements fuel (gap ++ cs) = readElements fuel cs := by
  obtain ⟨fuel, rfl⟩ : ∃ n, fuel = n + 2 := ⟨fuel - 2, by omega⟩
  rw [readElements, readElements, readNode_gap h]

theorem readMembers_gap {gap cs : List Char} (hfuel : 1 < fuel) (h : ∀ c ∈ gap, isGap c = true) :
    readMembers fuel (gap ++ cs) = readMembers fuel cs := by
  obtain ⟨fuel, rfl⟩ : ∃ n, fuel = n + 2 := ⟨fuel - 2, by omega⟩
  rw [readMembers, readMembers, readNode_gap h]

theorem readNode_quote (s : String) : readNode (fuel + 1) (quote s ++ rest) = (.string (some s), rest) := by
  have h : quote s ++ rest = '"' :: (s.toList.flatMap escapeChar ++ '"' :: rest) := by simp [quote]
  rw [h, readNode, skipGap_cons (by decide)]
  simp only [readQuoted_quote]

theorem readNode_digits (n : Int) (h : EndsNumber rest) :
    readNode (fuel + 1) (digits n ++ rest) = (.number (numeralOf n), rest) := by
  have hread := readNumeral_digits n h
  obtain ⟨c, r, he, hc⟩ := digits_head n
  rw [he, List.cons_append] at hread ⊢
  have hne (d : Char) (hd : d.isDigit = false ∧ d ≠ '-') : c ≠ d := by
    rintro rfl
    rcases hc with rfl | hc
    · exact hd.2 rfl
    · simp [hd.1] at hc
  have hgap : isGap c = false := by
    simp [isGap, hne ' ' (by decide), hne '\n' (by decide), hne '\t' (by decide), hne '\r' (by decide)]
  rw [readNode, skipGap_cons hgap]
  split
  case h_8 => simp only [hread]
  all_goals simp_all

mutual

/-- A written value is read back by as many steps as its text has characters. -/
theorem readNode_write {depth fuel : Nat} {rest : List Char} (l : Layout) :
    (v : Json) → (l.write depth v).length ≤ fuel → EndsNumber rest →
      readNode fuel (l.write depth v ++ rest) = (node v, rest)
  | v, hfuel, hrest => by
    have hpos := length_write_pos l depth v
    obtain ⟨fuel, rfl⟩ : ∃ n, fuel = n + 1 := ⟨fuel - 1, by omega⟩
    match v with
    | .null | .bool true | .bool false => rfl
    | .int n => exact readNode_digits n hrest
    | .str s => exact readNode_quote s
    | .arr [] | .obj [] => rfl
    | .arr (v :: r) =>
      have hread := @readElements_write depth fuel rest l v r (by
        simp only [write, List.length_cons, List.length_append] at hfuel ⊢
        omega)
      obtain ⟨c, t, he, hgap, hclose⟩ := exists_write_eq_cons l (depth + 1) v
      rw [write, List.cons_append, List.append_assoc, List.append_assoc, readNode, skipGap_cons (by decide)]
      simp only [skipGap_append (l.lineStart_isGap _)]
      rw [he, List.cons_append] at hread ⊢
      rw [skipGap_cons hgap]
      split
      · next h => exact absurd (List.cons.inj h).1 hclose
      · rw [hread]
        rfl
    | .obj ((k, v) :: r) =>
      have hread := @readMembers_write depth fuel rest l k v r (by
        simp only [write, List.length_cons, List.length_append] at hfuel ⊢
        omega)
      rw [write, List.cons_append, List.append_assoc, List.append_assoc, readNode, skipGap_cons (by decide)]
      simp only [skipGap_append (l.lineStart_isGap _)]
      rw [show quote k = '"' :: (k.toList.flatMap escapeChar ++ ['"']) from rfl, List.cons_append] at hread ⊢
      rw [skipGap_cons (by decide)]
      simp only [List.cons_append, List.append_assoc] at hread ⊢
      split
      · next h => exact absurd (List.cons.inj h).1 (by decide)
      · rw [hread]
        rfl

theorem readElements_write {depth fuel : Nat} {rest : List Char} (l : Layout) :
    (v : Json) → (r : List Json) → (l.write (depth + 1) v).length + (l.writeElements depth r).length ≤ fuel →
      readElements fuel (l.write (depth + 1) v ++ (l.writeElements depth r ++ rest)) =
        (node v :: nodes r, true, rest)
  | v, r, hfuel => by
    have hv := length_write_pos l (depth + 1) v
    have hr := length_writeElements_pos l depth r
    obtain ⟨fuel, rfl⟩ : ∃ n, fuel = n + 1 := ⟨fuel - 1, by omega⟩
    have hnode := @readNode_write (depth + 1) fuel (l.writeElements depth r ++ rest) l v
      (by omega) (endsNumber_writeElements r)
    rw [readElements]
    simp only [hnode, isIntact_node, if_true]
    match r with
    | [] => rw [writeElements, List.append_assoc, skipGap_append (l.lineStart_isGap depth)]; rfl
    | w :: r =>
      simp only [writeElements, List.length_cons, List.length_append] at hfuel
      have hw := length_write_pos l (depth + 1) w
      have hr := length_writeElements_pos l depth r
      have hrest := @readElements_write depth fuel rest l w r (by omega)
      simp only [writeElements, List.cons_append, List.append_assoc, skipGap_cons (show isGap ',' = false by decide)]
      rw [readElements_gap (by omega) (l.lineStart_isGap _), hrest]
      rfl

theorem readMembers_write {depth fuel : Nat} {rest : List Char} (l : Layout) :
    (k : String) → (v : Json) → (r : List (String × Json)) →
      (l.write (depth + 1) v).length + (l.writeMembers depth r).length ≤ fuel →
      readMembers fuel (quote k ++ ':' :: (l.afterColon ++ (l.write (depth + 1) v ++ (l.writeMembers depth r ++ rest)))) =
        ((.string (some k), node v) :: memberNodes r, true, rest)
  | k, v, r, hfuel => by
    have hv := length_write_pos l (depth + 1) v
    have hr := length_writeMembers_pos l depth r
    obtain ⟨fuel, rfl⟩ : ∃ n, fuel = n + 2 := ⟨fuel - 2, by omega⟩
    have hnode := @readNode_write (depth + 1) (fuel + 1) (l.writeMembers depth r ++ rest) l v
      (by omega) (endsNumber_writeMembers r)
    rw [readMembers]
    simp only [readNode_quote, skipGap_cons (show isGap ':' = false by decide), readNode_gap l.afterColon_isGap, hnode,
      isIntact_node, if_true]
    match r with
    | [] => rw [writeMembers, List.append_assoc, skipGap_append (l.lineStart_isGap depth)]; rfl
    | (k', w) :: r =>
      simp only [writeMembers, List.length_cons, List.length_append] at hfuel
      have hw := length_write_pos l (depth + 1) w
      have hr := length_writeMembers_pos l depth r
      have hrest := @readMembers_write depth (fuel + 1) rest l k' w r (by omega)
      simp only [writeMembers, List.cons_append, List.append_assoc, skipGap_cons (show isGap ',' = false by decide)]
      rw [readMembers_gap (by omega) (l.lineStart_isGap _), hrest]
      rfl

end

/-- The layout without gaps. -/
def dense : Layout := ⟨fun _ => [], [], by simp, by simp⟩

/-- The layout with a line for each element and member. -/
def lines : Layout := ⟨newline, [' '], fun depth c hc => by
    simp only [newline, List.mem_cons, List.mem_replicate] at hc
    rcases hc with rfl | ⟨-, rfl⟩ <;> rfl, fun c hc => by rw [List.mem_singleton.mp hc]; rfl⟩

mutual

theorem write_dense {depth : Nat} : (v : Json) → dense.write depth v = compactChars v
  | .null | .bool true | .bool false | .int _ | .str _ | .arr [] | .obj [] => rfl
  | .arr (v :: r) => by simp only [write, compactChars, write_dense v, writeElements_dense r]; rfl
  | .obj ((k, v) :: r) => by simp only [write, compactChars, write_dense v, writeMembers_dense r]; rfl

theorem writeElements_dense {depth : Nat} : (r : List Json) → dense.writeElements depth r = compactElements r
  | [] => rfl
  | v :: r => by simp only [writeElements, compactElements, write_dense v, writeElements_dense r]; rfl

theorem writeMembers_dense {depth : Nat} : (r : List (String × Json)) →
    dense.writeMembers depth r = compactMembers r
  | [] => rfl
  | (k, v) :: r => by simp only [writeMembers, compactMembers, write_dense v, writeMembers_dense r]; rfl

end

mutual

theorem write_lines {depth : Nat} : (v : Json) → lines.write depth v = prettyChars depth v
  | .null | .bool true | .bool false | .int _ | .str _ | .arr [] | .obj [] => rfl
  | .arr (v :: r) => by
    simp only [write, prettyChars, write_lines v, writeElements_lines r, List.append_assoc]; rfl
  | .obj ((k, v) :: r) => by
    simp only [write, prettyChars, write_lines v, writeMembers_lines r, List.append_assoc]; rfl

theorem writeElements_lines {depth : Nat} : (r : List Json) → lines.writeElements depth r = prettyElements depth r
  | [] => rfl
  | v :: r => by
    simp only [writeElements, prettyElements, write_lines v, writeElements_lines r, List.append_assoc]; rfl

theorem writeMembers_lines {depth : Nat} : (r : List (String × Json)) →
    lines.writeMembers depth r = prettyMembers depth r
  | [] => rfl
  | (k, v) :: r => by
    simp only [writeMembers, prettyMembers, write_lines v, writeMembers_lines r, List.append_assoc]; rfl

end

/-- A text in any layout is the document of the value that was written. -/
theorem ofText_write (l : Layout) (depth : Nat) (v : Json) :
    Document.ofText (String.ofList (l.write depth v)) = ⟨node v, true⟩ := by
  have hread := @readNode_write depth (2 * (l.write depth v).length + 2) [] l v
    (by omega) (by simp [EndsNumber])
  rw [List.append_nil] at hread
  simp only [Document.ofText, String.toList_ofList, hread]
  rfl

end Layout

variable {α : Type} {read : Read α}

theorem ofText_compact (v : Json) : Document.ofText v.compact = ⟨node v, true⟩ := by
  rw [compact, ← @Layout.write_dense 0]
  exact Layout.ofText_write _ 0 v

theorem ofText_pretty (v : Json) : Document.ofText v.pretty = ⟨node v, true⟩ := by
  rw [pretty, ← Layout.write_lines]
  exact Layout.ofText_write _ 0 v

theorem readText_compact (v : Json) : readText read v.compact = read (node v) := by
  simp only [readText, ofText_compact, bind, Except.bind]
  cases read (node v) <;> rfl

theorem readText_pretty (v : Json) : readText read v.pretty = read (node v) := by
  simp only [readText, ofText_pretty, bind, Except.bind]
  cases read (node v) <;> rfl

end WorkWaves.Json
