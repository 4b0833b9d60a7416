import WorkWaves.Json.Numeral
import WorkWaves.Decimal.Shortest
import WorkWaves.Text.Literal
import WorkWaves.StringMap
import WorkWaves.Json.Value

/-!
# Reading values of known kinds

A reader takes a piece of a document and gives a value or the first fault, in the order of the text. A
record may also be written as the list of its fields; members with unknown names are passed over as long as
they are JSON.
-/

namespace WorkWaves.Json

/-- What stands where something else was expected. -/
inductive Found where
  | null
  | boolean (b : Bool)
  | integer (n : Int)
  | floating (text : String)
  | string (s : String)
  | sequence
  | map
  deriving Repr, DecidableEq

/-- Why a document cannot be read. -/
inductive Fault where
  | malformed
  | wrongType (found : Found) (expected : String)
  | outOfRange (n : Int) (expected : String)
  | tooShort (length : Nat) (record : String) (size : Nat)
  | unknownVariant (name : String) (allowed : List String)
  | missingField (name : String)
  | duplicateField (name : String)
  /-- A rule that the values of some type keep. -/
  | refused (message : String)
  deriving Repr, DecidableEq

abbrev Read (α : Type) := Node → Except Fault α

def Found.text : Found → String
  | .null => "null"
  | .boolean b => "boolean \x60" ++ (if b then "true" else "false") ++ "\x60"
  | .integer n => "integer \x60" ++ toString n ++ "\x60"
  | .floating t => "floating point \x60" ++ t ++ "\x60"
  | .string s => "string " ++ Text.literal s
  | .sequence => "sequence"
  | .map => "map"

/-- A list of names in a message. -/
def oneOf (names : List String) : String :=
  match names.map fun n => "\x60" ++ n ++ "\x60" with
  | [] => "there are no variants"
  | [a] => "expected " ++ a
  | [a, b] => "expected " ++ a ++ " or " ++ b
  | l => "expected one of " ++ ", ".intercalate l

/-- The wording of a fault, without its place in the text. -/
def Fault.message : Fault → String
  | .malformed => "malformed"
  | .wrongType found expected => "invalid type: " ++ found.text ++ ", expected " ++ expected
  | .outOfRange n expected =>
    "invalid value: integer \x60" ++ toString n ++ "\x60, expected " ++ expected
  | .tooShort length record size =>
    "invalid length " ++ toString length ++ ", expected struct " ++ record ++ " with " ++
      toString size ++ " element" ++ (if size = 1 then "" else "s")
  | .unknownVariant name allowed => "unknown variant \x60" ++ name ++ "\x60, " ++ oneOf allowed
  | .missingField name => "missing field \x60" ++ name ++ "\x60"
  | .duplicateField name => "duplicate field \x60" ++ name ++ "\x60"
  | .refused message => message

namespace Node

/-- What a piece is, for a message; a fault if it cannot even be read as that. -/
def found : Node → Except Fault Found
  | .null => .ok .null
  | .bool b => .ok (.boolean b)
  | .number n =>
    match n.amount? with
    | some (.integer n) => .ok (.integer n)
    | some (.real x) => .ok (.floating (Decimal.floatText x))
    | none => .error .malformed
  | .string (some s) => .ok (.string s)
  | .string none => .error .malformed
  | .array _ _ => .ok .sequence
  | .object _ _ => .ok .map
  | .broken => .error .malformed

/-- The fault of a piece that is not of the expected kind. -/
def mismatch {α : Type} (n : Node) (expected : String) : Except Fault α :=
  n.found >>= fun f => .error (.wrongType f expected)

/-- Passes over a piece whose name is not known. -/
def skip (n : Node) : Except Fault Unit :=
  if n.isIntact then .ok () else .error .malformed

end Node

namespace Read

variable {α ρ : Type}

def string : Read String
  | .string (some s) => .ok s
  | n => n.mismatch "a string"

/-- A value or `null`. -/
def optional (read : Read α) : Read (Option α)
  | .null => .ok none
  | n => (read n).map some

def list (read : Read α) : Read (List α)
  | .array es closed => do
    let l ← es.mapM read
    if closed then .ok l else .error .malformed
  | n => n.mismatch "a sequence"

def set : Read StringSet := fun n => (list string n).map StringSet.ofList

/-- A map; of two members with one name the later counts. -/
def map (read : Read α) : Read (StringMap α)
  | .object ms closed => do
    let m ← ms.foldlM (fun (m : StringMap α) e =>
      match e.1 with
      | .string (some k) => (read e.2).map (m.insert k)
      | _ => .error .malformed) ∅
    if closed then .ok m else .error .malformed
  | n => n.mismatch "a map"

/-- A natural number below `limit`, of the kind that messages call `kind`. -/
def natural (limit : Nat) (kind : String) : Read Nat
  | .number n =>
    match n.amount? with
    | some (.integer (.ofNat k)) =>
      if k < limit then .ok k else .error (.outOfRange k kind)
    | some (.integer k) => .error (.outOfRange k kind)
    | some (.real x) => .error (.wrongType (.floating (Decimal.floatText x)) kind)
    | none => .error .malformed
  | n => n.mismatch kind

/-- One of a few names; also an object whose only member has that name and the value `null`. -/
def variant (choices : List (String × α)) : Read α
  | .string (some s) => choose s
  | .string none => .error .malformed
  | .object ((.string (some k), n) :: ms) closed => do
    let a ← choose k
    match n with
    | .null => if ms.isEmpty && closed then .ok a else .error .malformed
    | n => n.mismatch "unit"
  | .object ((k, _) :: _) _ => k.mismatch "variant identifier"
  | _ => .error .malformed
where
  choose (s : String) : Except Fault α :=
    match choices.lookup s with
    | some a => .ok a
    | none => .error (.unknownVariant s (choices.map (·.1)))

/-- A field of a record: how it is written into the parts read so far, and whether it is there. -/
structure Field (ρ : Type) where
  name : String
  required : Bool
  isSet : ρ → Bool
  read : Node → ρ → Except Fault ρ

def readMember (fields : List (Field ρ)) (parts : ρ) : Node × Node → Except Fault ρ
  | (.string (some key), n) =>
    match fields.find? (·.name == key) with
    | some f => if f.isSet parts then .error (.duplicateField key) else f.read n parts
    | none => n.skip.map fun _ => parts
  | _ => .error .malformed

/-- Reads the fields of a record from a list of values, in their order. -/
def readInOrder (record : String) (size : Nat) :
    List (Field ρ) → Nat → List Node → Bool → ρ → Except Fault ρ
  | [], _, [], closed, parts => if closed then .ok parts else .error .malformed
  | [], _, _ :: _, _, _ => .error .malformed
  | f :: fields, k, n :: ns, closed, parts =>
    f.read n parts >>= readInOrder record size fields (k + 1) ns closed
  | f :: fields, k, [], closed, parts =>
    if !closed then .error .malformed
    else if f.required then .error (.tooShort k record size)
    else readInOrder record size fields (k + 1) [] closed parts

/-- A record with the given name and fields, starting from nothing read. -/
def record (name : String) (fields : List (Field ρ)) (nothing : ρ) : Read ρ
  | .object ms closed => do
    let parts ← ms.foldlM (readMember fields) nothing
    if !closed then .error .malformed
    else match fields.find? fun f => f.required && !f.isSet parts with
      | some f => .error (.missingField f.name)
      | none => .ok parts
  | .array es closed => readInOrder name fields.length fields 0 es closed nothing
  | n => n.mismatch ("struct " ++ name)

end Read

/-- Reads a whole text: one value and nothing after it. -/
def readText {α : Type} (read : Read α) (text : String) : Except Fault α := do
  let doc := Document.ofText text
  let a ← read doc.root
  if doc.ends then .ok a else .error .malformed

end WorkWaves.Json
