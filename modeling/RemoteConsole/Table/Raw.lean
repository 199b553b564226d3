import RemoteConsole.Table.Error
import RemoteConsole.Value.Literal

/-!
# Tables as written

A table with its keys exactly as the remote side wrote them. Positional fields take the keys
1, 2, … in turn, whatever keyed and named fields stand between them; a key that is written twice
keeps its first place and its last value.
-/

namespace RemoteConsole.Table

/-- A key; one that is neither an integer nor a string is held as its literal. -/
inductive Key where
  | int (i : Int)
  | str (s : String)
  | other (literal : String)
deriving DecidableEq, Repr

inductive Raw where
  | scalar (value : Value)
  | table (entries : List (Key × Raw))

/-- The integer that hexadecimal digits denote, if it is one. -/
def hexInteger? (negative : Bool) (digits : List Char) : Option Int64 :=
  let magnitude := Text.hexDigitsValue digits
  if magnitude < 2 ^ 63 then
    some (Int64.ofInt (if negative then -(magnitude : Int) else magnitude))
  else none

def double? (text : List Char) : Except ReadError Value :=
  match Double.ofText? text with
  | some d => .ok (.number d)
  | none => .error (.literal text .notNumber)

/-- The value of a number's text. Integers beyond the range of integers read as doubles. -/
def numberOf (text : List Char) : Except ReadError Value :=
  let (negative, digits) := sign text
  match digits with
  | '0' :: 'x' :: hex | '0' :: 'X' :: hex =>
    match hexInteger? negative hex with
    | some i => .ok (.integer i)
    | none => .error (.literal text .hexOutOfRange)
  | _ =>
    if digits.any fun c => c == '.' || c == 'e' || c == 'E' then double? text
    else match Text.readInt64? text with
      | some i => .ok (.integer i)
      | none => double? text

def stringOf (body : List Char) : Except ReadError String :=
  (unescape body).mapError .escape

/-- Whole numbers below nine quadrillion are the same key as the integer; other doubles and the
booleans are keys by their literal. -/
def keyOf : Raw → Except ReadError Key
  | .scalar (.integer i) => .ok (.int i.toInt)
  | .scalar (.number n) =>
    match n.truncate? with
    | some i =>
      if n.isWhole && i.natAbs < 9000000000000000 then .ok (.int i)
      else .ok (.other (String.ofList n.literal))
    | none => .ok (.other (String.ofList n.literal))
  | .scalar (.string s) => .ok (.str s)
  | .scalar (.boolean b) => .ok (.other (if b then "true" else "false"))
  | .scalar .nil => .error (.literal "nil".toList .nilKey)
  | _ => .error (.literal ['{', '.', '.', '.', '}'] .tableKey)

mutual

def Raw.ofNode : Node → Except ReadError Raw
  | .table fields => return .table (← entriesOf fields 1 [])
  | .special d => .ok (.scalar (.number d))
  | .number text => return .scalar (← numberOf text)
  | .string body => return .scalar (.string (← stringOf body))
  | .boolean b => .ok (.scalar (.boolean b))
  | .nil => .ok (.scalar .nil)

/-- Adds fields to the entries before them; `next` is the key of the next positional field. -/
def entriesOf : List Field → (next : Nat) → List (Key × Raw) → Except ReadError (List (Key × Raw))
  | [], _, entries => .ok entries
  | .positional node :: fields, next, entries => do
    let value ← Raw.ofNode node
    entriesOf fields (next + 1) (Assoc.put (.int next) value entries)
  | .named name node :: fields, next, entries => do
    let value ← Raw.ofNode node
    entriesOf fields next (Assoc.put (.str (String.ofList name)) value entries)
  | .keyed keyNode node :: fields, next, entries => do
    let key ← keyOf (← Raw.ofNode keyNode)
    let value ← Raw.ofNode node
    entriesOf fields next (Assoc.put key value entries)

end

def Raw.read (s : List Char) : Except ReadError Raw :=
  match read? s with
  | some node => Raw.ofNode node
  | none => .error (.ofText s)

end RemoteConsole.Table
