import RemoteConsole.Json.Basic
import RemoteConsole.Value.Basic

/-!
# Values and JSON

Every JSON value is a value; integers beyond 64 bits with a sign become doubles. A value becomes
JSON with its doubles that are not finite as null and its maps in the order of their keys.
-/

namespace RemoteConsole

def Value.ofJsonInteger (i : Int) : Value :=
  if -2 ^ 63 ≤ i ∧ i < 2 ^ 63 then .integer (Int64.ofInt i) else .number (Double.ofInt i)

mutual

def Value.ofJson : Json → Value
  | .null => .nil
  | .boolean b => .boolean b
  | .integer i => .ofJsonInteger i
  | .double d => .number d
  | .string s => .string s
  | .array items => .list (valuesOfJson items)
  | .object members => .ofEntries (entriesOfJson members)

def valuesOfJson : List Json → List Value
  | [] => []
  | j :: rest => Value.ofJson j :: valuesOfJson rest

def entriesOfJson : List (String × Json) → List (String × Value)
  | [] => []
  | (n, j) :: rest => (n, Value.ofJson j) :: entriesOfJson rest

end

mutual

def Value.toJson : Value → Json
  | .nil => .null
  | .boolean b => .boolean b
  | .integer i => .integer i.toInt
  | .number d => if d.isFinite then .double d else .null
  | .string s => .string s
  | .list items => .array (jsonOfValues items)
  | .map entries => .object (Assoc.ordered (jsonOfEntries entries))

def jsonOfValues : List Value → List Json
  | [] => []
  | v :: rest => v.toJson :: jsonOfValues rest

def jsonOfEntries : List (String × Value) → List (String × Json)
  | [] => []
  | (k, v) :: rest => (k, v.toJson) :: jsonOfEntries rest

end

end RemoteConsole
