import RemoteConsole.Table.Escape
import RemoteConsole.Table.Expectation

/-!
# Why a reply does not read

A text off the grammar is pointed at where reading got furthest. A text on the grammar can still
hold a literal that denotes nothing.
-/

namespace RemoteConsole.Table

/-- The place of an error: lines and columns count from one, columns in characters. -/
structure Place where
  line : Nat
  column : Nat
  snippet : String

namespace Place

/-- What is shown of a line. When the place is at a line break, breaks are shown as pictures;
otherwise they are left out. -/
def visible (atBreak : Bool) (line : List Char) : List Char :=
  if atBreak then
    line.map fun c => if c = '\r' then '␍' else if c = '\n' then '␊' else c
  else line.filter fun c => !isLineBreak c

def ofSplit (before rest : List Char) : Place :=
  let column := (before.reverse.takeWhile (· ≠ '\n')).reverse
  let tail := rest.takeWhile (· ≠ '\n') ++ (rest.dropWhile (· ≠ '\n')).take 1
  { line := before.count '\n' + 1
    column := column.length + 1
    snippet := String.ofList (visible ((rest.head?.map isLineBreak).getD false) (column ++ tail)) }

end Place

inductive LiteralFault where
  | hexOutOfRange
  | notNumber
  | nilKey
  | tableKey
deriving DecidableEq, Repr

def LiteralFault.message : LiteralFault → String
  | hexOutOfRange => "hex out of range"
  | notNumber => "not a number"
  | nilKey => "nil cannot be a table key"
  | tableKey => "table keys must be scalars"

inductive ReadError where
  | grammar (place : Place) (expected : String)
  | literal (text : List Char) (fault : LiteralFault)
  | escape (fault : EscapeFault)

namespace ReadError

def message : ReadError → String
  | grammar place expected =>
    s!"syntax error at {place.line}:{place.column}: {expected} in `{place.snippet}`"
  | literal text fault => s!"invalid literal `{String.ofList text}`: {fault.message}"
  | escape fault => s!"invalid escape sequence `{String.ofList fault.sequence}`"

def ofText (s : List Char) : ReadError :=
  let e := expectation s
  let consumed := s.length - e.left
  grammar (Place.ofSplit (s.take consumed) (s.drop consumed)) (Rule.expected e.rules)

end ReadError

end RemoteConsole.Table
