import RemoteConsole.Double.Basic
import RemoteConsole.Assoc

/-!
# Values

What crosses the console: the parameters of a command and the payload of a reply. Sequences and
maps are kept apart although the remote side writes both as tables. A map is held in the order of
its entries, and its keys are distinct.
-/

namespace RemoteConsole

inductive Value where
  | nil
  | boolean (b : Bool)
  | integer (i : Int64)
  | number (n : Double)
  | string (s : String)
  | list (items : List Value)
  | map (entries : List (String × Value))
deriving Inhabited

/-- The part of a number that fits an integer: what lies beyond either end becomes that end. -/
def clampInt64 (i : Int) : Int64 :=
  if i < -9223372036854775808 then Int64.minValue
  else if i > 9223372036854775807 then Int64.maxValue
  else Int64.ofInt i

namespace Value

def typeName : Value → String
  | nil => "nil"
  | boolean _ => "boolean"
  | integer _ => "integer"
  | number _ => "number"
  | string _ => "string"
  | list _ => "list"
  | map _ => "map"

def isNil : Value → Bool
  | nil => true
  | _ => false

/-- Only `false` and `nil` are not true. -/
def isTruthy : Value → Bool
  | boolean b => b
  | nil => false
  | _ => true

def asString? : Value → Option String
  | string s => some s
  | _ => none

def asBool? : Value → Option Bool
  | boolean b => some b
  | _ => none

/-- An integer as it is; a number when it has no fraction, clamped to the range of integers. -/
def asInt? : Value → Option Int64
  | integer i => some i
  | number n => if n.isWhole then n.truncate?.map clampInt64 else none
  | _ => none

def asDouble? : Value → Option Double
  | integer i => some (Double.ofInt i.toInt)
  | number n => some n
  | _ => none

def asList? : Value → Option (List Value)
  | list items => some items
  | _ => none

def asMap? : Value → Option (List (String × Value))
  | map entries => some entries
  | _ => none

/-- The field of a map; every other kind of value has none. -/
def get? (key : String) : Value → Option Value
  | map entries => Assoc.get? key entries
  | _ => none

/-- The map of some entries: a repeated key keeps its first place and its last value. -/
def ofEntries (entries : List (String × Value)) : Value := map (Assoc.ofList entries)

def ofNat (n : Nat) : Value := integer (Int64.ofInt n)

end Value

end RemoteConsole
