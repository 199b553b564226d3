import RemoteConsole.Json.Basic
import RemoteConsole.Double.Text

/-!
# JSON text

Values are written without white space, or spread over lines with an indent of two spaces for
each level. Only quotes, backslashes and control characters are escaped.
-/

namespace RemoteConsole.Json

def hexDigit (n : Nat) : Char := Nat.digitChar (n % 16)

def escapeChar (c : Char) : List Char :=
  if c = '"' then ['\\', '"']
  else if c = '\\' then ['\\', '\\']
  else if c.toNat = 0x08 then ['\\', 'b']
  else if c.toNat = 0x0C then ['\\', 'f']
  else if c = '\n' then ['\\', 'n']
  else if c = '\r' then ['\\', 'r']
  else if c = '\t' then ['\\', 't']
  else if c.toNat < 0x20 then ['\\', 'u', '0', '0', hexDigit (c.toNat / 16), hexDigit c.toNat]
  else [c]

def quote (s : String) : List Char := '"' :: (s.toList.flatMap escapeChar ++ ['"'])

/-- A double that JSON cannot hold is written as null. -/
def doubleText (d : Double) : List Char :=
  if d.isFinite then NumberStyle.json.render d else "null".toList

mutual

def compact : Json → List Char
  | null => "null".toList
  | boolean b => if b then "true".toList else "false".toList
  | integer i => Text.intText i
  | double d => doubleText d
  | string s => quote s
  | array items => '[' :: (compactItems items ++ [']'])
  | object members => '{' :: (compactMembers members ++ ['}'])

def compactItems : List Json → List Char
  | [] => []
  | [v] => compact v
  | v :: w :: rest => compact v ++ ',' :: compactItems (w :: rest)

def compactMembers : List (String × Json) → List Char
  | [] => []
  | [(n, v)] => quote n ++ ':' :: compact v
  | (n, v) :: m :: rest => quote n ++ ':' :: (compact v ++ ',' :: compactMembers (m :: rest))

end

def newline (level : Nat) : List Char := '\n' :: List.replicate (2 * level) ' '

mutual

def pretty (level : Nat) : Json → List Char
  | array (v :: rest) =>
    '[' :: (newline (level + 1) ++ prettyItems (level + 1) (v :: rest) ++ newline level ++ [']'])
  | object (m :: rest) =>
    '{' :: (newline (level + 1) ++ prettyMembers (level + 1) (m :: rest) ++ newline level ++ ['}'])
  | null => "null".toList
  | boolean b => if b then "true".toList else "false".toList
  | integer i => Text.intText i
  | double d => doubleText d
  | string s => quote s
  | array [] => ['[', ']']
  | object [] => ['{', '}']

def prettyItems (level : Nat) : List Json → List Char
  | [] => []
  | [v] => pretty level v
  | v :: w :: rest => pretty level v ++ ',' :: (newline level ++ prettyItems level (w :: rest))

def prettyMembers (level : Nat) : List (String × Json) → List Char
  | [] => []
  | [(n, v)] => quote n ++ ':' :: ' ' :: pretty level v
  | (n, v) :: m :: rest =>
    quote n ++ ':' :: ' ' :: (pretty level v ++ ',' :: (newline level ++ prettyMembers level (m :: rest)))

end

def text (j : Json) : String := String.ofList j.compact

def prettyText (j : Json) : String := String.ofList (j.pretty 0)

end RemoteConsole.Json
