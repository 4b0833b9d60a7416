import WorkWaves.Priority

/-!
# Work items

One unit of work: what it is called, how urgent it is, what it waits for and what waits for it. The
description is free text.
-/

namespace WorkWaves

/-- A unit of work. -/
structure Item where
  id : String
  priority : Priority := .standard
  title : Option String := none
  /-- The ids that have to be completed before this item may start. -/
  blockedBy : StringSet := ∅
  /-- The ids that may not start before this item is completed. -/
  blocks : StringSet := ∅
  description : String := ""
  deriving DecidableEq, Repr

namespace Item

/-- More urgent items go first, and of equally urgent ones the smaller id. -/
def comesBefore (a b : Item) : Prop :=
  a.priority.level < b.priority.level ∨ (a.priority.level = b.priority.level ∧ a.id < b.id)

instance (a b : Item) : Decidable (comesBefore a b) :=
  inferInstanceAs (Decidable (_ ∨ _))

/-- Items in the order in which they are taken up; equal keys keep their places. -/
def inOrder (items : List Item) : List Item :=
  items.mergeSort fun a b => !decide (comesBefore b a)

/-- The id, and the title if there is more to it than blanks. -/
def displayName (i : Item) : String :=
  match i.title with
  | some t => let t := Text.trim t; if t.isEmpty then i.id else i.id ++ " " ++ t
  | none => i.id

/-- The fields of an item read so far. -/
structure Parts where
  id : Option String := none
  priority : Option Priority := none
  title : Option (Option String) := none
  blockedBy : Option StringSet := none
  blocks : Option StringSet := none
  description : Option String := none

/-- Items stand three levels deep in a manifest. -/
def fields : List (Json.Read.Field Parts) :=
  [⟨"id", true, (·.id.isSome), fun n p => (Json.Read.string n).map fun v => { p with id := v }⟩,
   ⟨"priority", false, (·.priority.isSome),
     fun n p => (Priority.read 3 n).map fun v => { p with priority := v }⟩,
   ⟨"title", false, (·.title.isSome),
     fun n p => (Json.Read.optional Json.Read.string n).map fun v => { p with title := some v }⟩,
   ⟨"blocked_by", false, (·.blockedBy.isSome),
     fun n p => (Json.Read.set n).map fun v => { p with blockedBy := v }⟩,
   ⟨"blocks", false, (·.blocks.isSome),
     fun n p => (Json.Read.set n).map fun v => { p with blocks := v }⟩,
   ⟨"description", false, (·.description.isSome),
     fun n p => (Json.Read.string n).map fun v => { p with description := v }⟩]

def Parts.item (p : Parts) : Item where
  id := p.id.getD ""
  priority := p.priority.getD .standard
  title := p.title.getD none
  blockedBy := p.blockedBy.getD ∅
  blocks := p.blocks.getD ∅
  description := p.description.getD ""

def read : Json.Read Item := fun n =>
  (Json.Read.record "WorkItem" fields {} n).map Parts.item

def toJson (i : Item) : Json :=
  .obj ([("id", .str i.id), ("priority", i.priority.toJson)] ++
    (match i.title with
     | some t => [("title", .str t)]
     | none => []) ++
    [("blocked_by", .strs i.blockedBy.toList), ("blocks", .strs i.blocks.toList),
     ("description", .str i.description)])

end Item

end WorkWaves
