import RemoteConsole.Text.CharSet
import RemoteConsole.Text.Search
import RemoteConsole.Text.WordChar

/-!
# Locations in error texts

The remote side puts the place of an error in front of its message: a chunk, a script file or a
file of a module, and a line number between colons. Several may stand in a row.
-/

namespace RemoteConsole.Reply

open Text

/-- `[string "source"]`. -/
def chunk? (s : List Char) : Option (List Char) := do
  let s ← after? "[string \"".toList s
  after? "\"]".toList (s.dropWhile (· ≠ '"'))

/-- A path without blanks, colons and quotes that ends in `.lua`. -/
def scriptFile? (s : List Char) : Option (List Char) :=
  let inPath (c : Char) : Bool := !isBlank c && c != ':' && c != '"'
  match before? ".lua".toList (s.takeWhile inPath) with
  | some (_ :: _) => some (s.dropWhile inPath)
  | _ => none

def isModuleChar (c : Char) : Bool := isWordChar c || c == '-'

/-- `__module__/path`. -/
def moduleFile? (s : List Char) : Option (List Char) := do
  let s ← after? ['_', '_'] s
  match before? ['_', '_'] (s.takeWhile isModuleChar) with
  | some (_ :: _) =>
    let s ← after? ['/'] (s.dropWhile isModuleChar)
    return s.dropWhile fun c => !isBlank c && c != ':'
  | _ => none

/-- `:line:` and the blanks after it. -/
def lineNumber? (s : List Char) : Option (List Char) := do
  let s ← after? [':'] s
  if (s.takeWhile isDecimalDigit).isEmpty then none
  else (after? [':'] (s.dropWhile isDecimalDigit)).map trimStart

def location? (s : List Char) : Option (List Char) :=
  let s := trimStart s
  ((chunk? s).bind lineNumber?).or <|
  ((scriptFile? s).bind lineNumber?).or <|
  (moduleFile? s).bind lineNumber?

def stripFrom (s : List Char) : List Char :=
  match location? s with
  | some rest => if (trim rest).length < s.length then stripFrom (trim rest) else s
  | none => s
termination_by s.length

def stripLocations (s : List Char) : List Char := stripFrom (trim s)

end RemoteConsole.Reply
