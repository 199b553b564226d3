import RemoteConsole.Text.CharSet
import RemoteConsole.Text.Numeral
import RemoteConsole.Text.Utf8

/-!
# Escape sequences

The body of a string denotes bytes: a character stands for its encoding and an escape for one
byte or for a line break. The bytes read as text, with a replacement character where they are
ill-formed.
-/

namespace RemoteConsole.Table

def simpleEscape? (c : Char) : Option UInt8 :=
  if c = 'n' ∨ c = '\n' then some 0x0A
  else if c = 't' then some 0x09
  else if c = 'r' then some 0x0D
  else if c = 'a' then some 0x07
  else if c = 'b' then some 0x08
  else if c = 'f' then some 0x0C
  else if c = 'v' then some 0x0B
  else if c = '\\' then some 0x5C
  else if c = '"' then some 0x22
  else if c = '\'' then some 0x27
  else none

/-- Two hexadecimal digits; a plus sign may take the place of the first. -/
def hexPair? (a b : Char) : Option UInt8 :=
  match if a = '+' then some 0 else Text.hexValue? a, Text.hexValue? b with
  | some m, some n => some (UInt8.ofNat (m * 16 + n))
  | _, _ => none

def decimalByte? (digits : List Char) : Option UInt8 :=
  if Text.digitsValue digits ≤ 255 then some (UInt8.ofNat (Text.digitsValue digits)) else none

/-- An escape sequence that denotes nothing, as written. -/
structure EscapeFault where
  sequence : List Char

def EscapeFault.atEnd : EscapeFault := ⟨"\\ at end of string".toList⟩

inductive Mode where
  | plain
  /-- Behind the escape that skips white space. -/
  | skipping
  /-- Behind a backslash. -/
  | escaped
  /-- Behind an escaped carriage return, which takes a line feed with it. -/
  | lineBreak
  /-- Behind the first of two hexadecimal digits, or before it. -/
  | hex (first : Option Char)
  | decimal (digits : List Char)

def start (c : Char) (next : Mode → Except EscapeFault (List UInt8)) : Except EscapeFault (List UInt8) :=
  if c = '\\' then next .escaped else (String.utf8EncodeChar c ++ ·) <$> next .plain

def emitDecimal (digits : List Char) (rest : Except EscapeFault (List UInt8)) : Except EscapeFault (List UInt8) :=
  match decimalByte? digits with
  | some byte => (byte :: ·) <$> rest
  | none => .error ⟨'\\' :: digits⟩

def bytesOf : Mode → List Char → Except EscapeFault (List UInt8)
  | .plain, [] | .skipping, [] | .lineBreak, [] => .ok []
  | .escaped, [] => .error .atEnd
  | .hex none, [] => .error ⟨['\\', 'x']⟩
  | .hex (some a), [] => match Text.hexValue? a with
    | some n => .ok [UInt8.ofNat n]
    | none => .error ⟨['\\', 'x', a]⟩
  | .decimal digits, [] => emitDecimal digits (.ok [])
  | .plain, c :: s => start c (bytesOf · s)
  | .skipping, c :: s => if Text.isBlank c then bytesOf .skipping s else start c (bytesOf · s)
  | .lineBreak, c :: s => if c = '\n' then bytesOf .plain s else start c (bytesOf · s)
  | .escaped, c :: s =>
    if c = '\r' then (0x0A :: ·) <$> bytesOf .lineBreak s
    else if c = 'z' then bytesOf .skipping s
    else if c = 'x' then bytesOf (.hex none) s
    else match simpleEscape? c with
      | some byte => (byte :: ·) <$> bytesOf .plain s
      | none => if c.isDigit then bytesOf (.decimal [c]) s else .error ⟨['\\', c]⟩
  | .hex none, c :: s => bytesOf (.hex (some c)) s
  | .hex (some a), c :: s => match hexPair? a c with
    | some byte => (byte :: ·) <$> bytesOf .plain s
    | none => .error ⟨['\\', 'x', a, c]⟩
  | .decimal digits, c :: s =>
    if c.isDigit && digits.length < 3 then bytesOf (.decimal (digits ++ [c])) s
    else emitDecimal digits (start c (bytesOf · s))

def unescape (body : List Char) : Except EscapeFault String :=
  (fun bytes => String.ofList (Text.Utf8.decodeLossy bytes)) <$> bytesOf .plain body

end RemoteConsole.Table
