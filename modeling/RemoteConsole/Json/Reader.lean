import RemoteConsole.Json.Basic

/-!
# Reading JSON

The reader takes one value with white space around it. Arrays and objects may be nested 127 deep.
-/

namespace RemoteConsole.Json

def isSpace (c : Char) : Bool := c == ' ' || c == '\t' || c == '\n' || c == '\r'

def skipSpace (s : List Char) : List Char := s.dropWhile isSpace

def fourHex? (a b c d : Char) : Option Nat :=
  if [a, b, c, d].all Text.isHexDigit then some (Text.hexDigitsValue [a, b, c, d]) else none

def simpleEscape? (c : Char) : Option Char :=
  if c = '"' ∨ c = '\\' ∨ c = '/' then some c
  else if c = 'b' then some '\x08'
  else if c = 'f' then some '\x0c'
  else if c = 'n' then some '\n'
  else if c = 'r' then some '\r'
  else if c = 't' then some '\t'
  else none

/-- The rest of a string after its opening quote. A high surrogate needs its low one. -/
def stringRest? : List Char → Option (List Char × List Char)
  | [] => none
  | '"' :: s => some ([], s)
  | '\\' :: 'u' :: a :: b :: c :: d :: s => do
    let n ← fourHex? a b c d
    if 0xDC00 ≤ n ∧ n ≤ 0xDFFF then none
    else if 0xD800 ≤ n ∧ n ≤ 0xDBFF then
      match s with
      | '\\' :: 'u' :: a :: b :: c :: d :: s => do
        let m ← fourHex? a b c d
        if 0xDC00 ≤ m ∧ m ≤ 0xDFFF then
          let (text, rest) ← stringRest? s
          return (Char.ofNat (0x10000 + (n - 0xD800) * 0x400 + (m - 0xDC00)) :: text, rest)
        else none
      | _ => none
    else
      let (text, rest) ← stringRest? s
      return (Char.ofNat n :: text, rest)
  | '\\' :: e :: s => do
    let c ← simpleEscape? e
    let (text, rest) ← stringRest? s
    return (c :: text, rest)
  | c :: s =>
    if c.toNat < 0x20 ∨ c = '\\' then none
    else do
      let (text, rest) ← stringRest? s
      return (c :: text, rest)

def literal? (s : List Char) : Option (Json × List Char) :=
  match s with
  | 'n' :: 'u' :: 'l' :: 'l' :: rest => some (null, rest)
  | 't' :: 'r' :: 'u' :: 'e' :: rest => some (boolean true, rest)
  | 'f' :: 'a' :: 'l' :: 's' :: 'e' :: rest => some (boolean false, rest)
  | '"' :: rest => (stringRest? rest).map fun (text, rest) => (string (String.ofList text), rest)
  | _ => number? s

mutual

def value? : (fuel depth : Nat) → List Char → Option (Json × List Char)
  | 0, _, _ => none
  | fuel + 1, depth, s =>
    match s with
    | '[' :: rest =>
      if depth = 0 then none
      else match skipSpace rest with
        | ']' :: rest => some (array [], rest)
        | rest => (items? fuel (depth - 1) rest).map fun (items, rest) => (array items, rest)
    | '{' :: rest =>
      if depth = 0 then none
      else match skipSpace rest with
        | '}' :: rest => some (object [], rest)
        | rest => (members? fuel (depth - 1) rest).map fun (members, rest) =>
            (object (Assoc.ordered members), rest)
    | s => literal? s

def items? : (fuel depth : Nat) → List Char → Option (List Json × List Char)
  | 0, _, _ => none
  | fuel + 1, depth, s => do
    let (item, s) ← value? fuel depth s
    match skipSpace s with
    | ']' :: rest => return ([item], rest)
    | ',' :: rest =>
      let (items, rest) ← items? fuel depth (skipSpace rest)
      return (item :: items, rest)
    | _ => none

def members? : (fuel depth : Nat) → List Char → Option (List (String × Json) × List Char)
  | 0, _, _ => none
  | fuel + 1, depth, s =>
    match s with
    | '"' :: s => do
      let (name, s) ← stringRest? s
      match skipSpace s with
      | ':' :: s =>
        let (value, s) ← value? fuel depth (skipSpace s)
        match skipSpace s with
        | '}' :: rest => return ([(String.ofList name, value)], rest)
        | ',' :: rest =>
          let (members, rest) ← members? fuel depth (skipSpace rest)
          return ((String.ofList name, value) :: members, rest)
        | _ => none
      | _ => none
    | _ => none

end

def maxDepth : Nat := 127

def read? (s : String) : Option Json :=
  match value? (2 * s.length + 2) maxDepth (skipSpace s.toList) with
  | some (j, rest) => if (skipSpace rest).isEmpty then some j else none
  | none => none

end RemoteConsole.Json
