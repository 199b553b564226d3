import RemoteConsole.Value.Basic
import RemoteConsole.Double.Text

/-!
# Values as literals

Every value has a literal of the remote language (Lua 5.2). Doubles keep a point or an exponent,
so they never read back as integers, and the values without digits are written as expressions.
-/

namespace RemoteConsole

def threeDigits (n : Nat) : List Char :=
  [Nat.digitChar (n / 100 % 10), Nat.digitChar (n / 10 % 10), Nat.digitChar (n % 10)]

def escapeChar (c : Char) : List Char :=
  if c = '"' then ['\\', '"']
  else if c = '\\' then ['\\', '\\']
  else if c = '\n' then ['\\', 'n']
  else if c = '\r' then ['\\', 'r']
  else if c = '\t' then ['\\', 't']
  else if c.toNat < 0x20 ∨ c.toNat = 0x7F then '\\' :: threeDigits c.toNat
  else [c]

def quote (s : List Char) : List Char := '"' :: (s.flatMap escapeChar ++ ['"'])

def Double.literal : Double → List Char
  | .nan => "(0/0)".toList
  | .infinite negative => if negative then "-math.huge".toList else "math.huge".toList
  | d => NumberStyle.literal.render d

mutual

def Value.literal : Value → List Char
  | .nil => "nil".toList
  | .boolean b => if b then "true".toList else "false".toList
  | .integer i => Text.intText i.toInt
  | .number n => n.literal
  | .string s => quote s.toList
  | .list items => '{' :: (literalItems items ++ ['}'])
  | .map entries => '{' :: (literalEntries entries ++ ['}'])

def literalItems : List Value → List Char
  | [] => []
  | [v] => v.literal
  | v :: w :: rest => v.literal ++ ',' :: ' ' :: literalItems (w :: rest)

def literalEntry : String × Value → List Char
  | (key, v) => '[' :: (quote key.toList ++ ']' :: ' ' :: '=' :: ' ' :: v.literal)

def literalEntries : List (String × Value) → List Char
  | [] => []
  | [e] => literalEntry e
  | e :: f :: rest => literalEntry e ++ ',' :: ' ' :: literalEntries (f :: rest)

end

def Value.toLiteral (v : Value) : String := String.ofList v.literal

def argumentText (args : List Value) : String := String.ofList (literalItems args)

end RemoteConsole
