/-!
# UTF-8

Bytes are read as a sequence of items: a character, or an ill-formed piece that could not be
continued to a character. A strict reading wants characters only; a lossy reading puts the
replacement character for every ill-formed piece.
-/

namespace RemoteConsole.Text.Utf8

/-- A character under way: its bits so far, the range that the next byte must lie in and the
number of bytes still to come after that one. -/
structure Pending where
  bits : Nat
  low : UInt8
  high : UInt8
  after : Nat

/-- What a first byte of several promises; bytes that start no character promise nothing. -/
def Pending.ofLead? (b : UInt8) : Option Pending :=
  let n := b.toNat
  if 0xC2 ≤ n ∧ n ≤ 0xDF then some ⟨n - 0xC0, 0x80, 0xBF, 0⟩
  else if n = 0xE0 then some ⟨0, 0xA0, 0xBF, 1⟩
  else if n = 0xED then some ⟨0xD, 0x80, 0x9F, 1⟩
  else if 0xE1 ≤ n ∧ n ≤ 0xEF then some ⟨n - 0xE0, 0x80, 0xBF, 1⟩
  else if n = 0xF0 then some ⟨0, 0x90, 0xBF, 2⟩
  else if 0xF1 ≤ n ∧ n ≤ 0xF3 then some ⟨n - 0xF0, 0x80, 0xBF, 2⟩
  else if n = 0xF4 then some ⟨4, 0x80, 0x8F, 2⟩
  else none

def Pending.accepts (p : Pending) (b : UInt8) : Bool := p.low ≤ b && b ≤ p.high

def Pending.push (p : Pending) (b : UInt8) : Nat := p.bits * 64 + b.toNat % 64

def start (b : UInt8) (next : Option Pending → List (Option Char)) : List (Option Char) :=
  if b < 0x80 then some (Char.ofNat b.toNat) :: next none
  else match Pending.ofLead? b with
    | some p => next (some p)
    | none => none :: next none

/-- The characters of a byte sequence, with `none` for every ill-formed piece. -/
def items : Option Pending → List UInt8 → List (Option Char)
  | none, [] => []
  | some _, [] => [none]
  | none, b :: bs => start b (items · bs)
  | some p, b :: bs =>
    if p.accepts b then
      match p.after with
      | 0 => some (Char.ofNat (p.push b)) :: items none bs
      | n + 1 => items (some ⟨p.push b, 0x80, 0xBF, n⟩) bs
    else none :: start b (items · bs)

def encode (s : List Char) : List UInt8 := s.flatMap String.utf8EncodeChar

def decode? (bytes : List UInt8) : Option (List Char) := (items none bytes).mapM id

/-- Every ill-formed piece reads as U+FFFD. -/
def decodeLossy (bytes : List UInt8) : List Char := (items none bytes).map (·.getD '\uFFFD')

end RemoteConsole.Text.Utf8
