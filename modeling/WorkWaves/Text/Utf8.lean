/-!
# Texts from bytes

UTF-8 read byte by byte. What is no UTF-8 is not refused: the replacement character stands for each longest
part of it with which a character could begin, or else for a single byte.
-/

namespace WorkWaves.Text.Utf8

/-- A character that has begun: what its bytes gave so far, how many are still due, and where the next one
has to lie. -/
structure Begun where
  value : Nat
  due : Nat
  low : UInt8 := 0x80
  high : UInt8 := 0xBF
  deriving DecidableEq, Repr

/-- What a byte is where a character begins. -/
inductive First where
  | whole (c : Char)
  | begun (b : Begun)
  | stray
  deriving DecidableEq, Repr

/-- Looks at a byte where a character begins. The bounds for the next byte leave out what could be written
shorter, surrogates, and what lies beyond the last character. -/
def first (b : UInt8) : First :=
  let n := b.toNat
  if b < 0x80 then .whole (Char.ofNat n)
  else if b < 0xC2 then .stray
  else if b < 0xE0 then .begun ⟨n - 0xC0, 1, 0x80, 0xBF⟩
  else if b == 0xE0 then .begun ⟨n - 0xE0, 2, 0xA0, 0xBF⟩
  else if b == 0xED then .begun ⟨n - 0xE0, 2, 0x80, 0x9F⟩
  else if b < 0xF0 then .begun ⟨n - 0xE0, 2, 0x80, 0xBF⟩
  else if b == 0xF0 then .begun ⟨n - 0xF0, 3, 0x90, 0xBF⟩
  else if b < 0xF4 then .begun ⟨n - 0xF0, 3, 0x80, 0xBF⟩
  else if b == 0xF4 then .begun ⟨n - 0xF0, 3, 0x80, 0x8F⟩
  else .stray

/-- What stands for bytes that are no character. -/
def replacement : Char := '\uFFFD'

/-- Reads a byte where a character begins: what is read then, and the character that has begun. -/
def start (b : UInt8) : List Char × Option Begun :=
  match first b with
  | .whole c => ([c], none)
  | .begun s => ([], some s)
  | .stray => ([replacement], none)

/-- Reads a byte behind a character that has begun. One that does not go on with it begins the next. -/
def goOn (s : Begun) (b : UInt8) : List Char × Option Begun :=
  if s.low ≤ b && b ≤ s.high then
    let value := s.value * 64 + (b.toNat - 0x80)
    if s.due ≤ 1 then ([Char.ofNat value], none) else ([], some { value := value, due := s.due - 1 })
  else (replacement :: (start b).1, (start b).2)

/-- Reads a byte. -/
def step (s : Option Begun) (b : UInt8) : List Char × Option Begun :=
  match s with
  | none => start b
  | some s => goOn s b

/-- Reads the bytes behind a character that has begun, if one has. -/
def readFrom : Option Begun → List UInt8 → List Char
  | none, [] => []
  | some _, [] => [replacement]
  | s, b :: r => (step s b).1 ++ readFrom (step s b).2 r

end Utf8

/-- The text that bytes are. -/
def ofBytes (bytes : List UInt8) : String := String.ofList (Utf8.readFrom none bytes)

end WorkWaves.Text
