import RemoteConsole.Table.Lexeme

/-!
# The grammar of a reply

A reply is one value: a table, a number, a string, a boolean or nil. The fields of a table are
keyed, named or positional; they are separated by commas or semicolons, and one separator may
stand after the last. Values and fields are read by recursion on fuel, of which the length of the
text gives enough, as every step shortens what is left.
-/

namespace RemoteConsole.Table

mutual

/-- A reply as written: numbers and the bodies of strings are kept as text. -/
inductive Node where
  | table (fields : List Field)
  | special (value : Double)
  | number (text : List Char)
  | string (body : List Char)
  | boolean (b : Bool)
  | nil

inductive Field where
  | keyed (key value : Node)
  | named (name : List Char) (value : Node)
  | positional (value : Node)

end

def isSeparator (c : Char) : Bool := c == ',' || c == ';'

def scalar? (s : List Char) : Option (Node × List Char) :=
  ((special? s).map fun (d, rest) => (.special d, rest)).or <|
  ((number? s).map fun (text, rest) => (.number text, rest)).or <|
  ((string? s).map fun (body, rest) => (.string body, rest)).or <|
  ((boolean? s).map fun (b, rest) => (.boolean b, rest)).or <|
  (nil? s).map fun rest => (.nil, rest)

def token? (c : Char) (s : List Char) : Option (List Char) :=
  match s with
  | d :: rest => if c = d then some (skip rest) else none
  | [] => none

/-- `[key] = value`. -/
def keyed? (value? : List Char → Option (Node × List Char)) (s : List Char) : Option (Field × List Char) := do
  let (key, s) ← value? (← token? '[' s)
  let s ← token? ']' (skip s)
  let (value, s) ← value? (← token? '=' s)
  return (.keyed key value, s)

/-- `name = value`. -/
def named? (value? : List Char → Option (Node × List Char)) (s : List Char) : Option (Field × List Char) := do
  let (name, s) ← name? s
  let (value, s) ← value? (← token? '=' (skip s))
  return (.named name value, s)

def positional? (value? : List Char → Option (Node × List Char)) (s : List Char) : Option (Field × List Char) :=
  (value? s).map fun (value, rest) => (.positional value, rest)

def field? (value? : List Char → Option (Node × List Char)) (s : List Char) : Option (Field × List Char) :=
  (keyed? value? s).or ((named? value? s).or (positional? value? s))

mutual

def value? : (fuel : Nat) → List Char → Option (Node × List Char)
  | 0, _ => none
  | fuel + 1, s =>
    match token? '{' s with
    | some rest => (fields? fuel rest).map fun (fields, rest) => (.table fields, rest)
    | none => scalar? s

def fields? : (fuel : Nat) → List Char → Option (List Field × List Char)
  | 0, _ => none
  | fuel + 1, s =>
    match field? (value? fuel) s with
    | none => match s with
      | '}' :: rest => some ([], rest)
      | _ => none
    | some (f, rest) => match skip rest with
      | '}' :: rest => some ([f], rest)
      | c :: rest =>
        if isSeparator c then (fields? fuel (skip rest)).map fun (fs, rest) => (f :: fs, rest) else none
      | [] => none

end

/-- Enough fuel for every text of this length: a value costs one and each of its fields another,
and both have at least one character. -/
def fuelFor (s : List Char) : Nat := 2 * s.length + 2

def read? (s : List Char) : Option Node :=
  match value? (fuelFor s) (skip s) with
  | some (node, rest) => if (skip rest).isEmpty then some node else none
  | none => none

end RemoteConsole.Table
