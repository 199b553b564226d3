import RemoteConsole.Text.WordChar
import RemoteConsole.Text.Search
import RemoteConsole.Value.Literal

/-!
# Templates

The text of a script is a template: a whole word `arg` with a number is a placeholder for the
parameter of that number. All placeholders are replaced at once, so what a parameter brings in is
not looked at again, and a placeholder without a parameter stays.
-/

namespace RemoteConsole.Script

/-- Cuts a text into the longest runs of word characters and the longest runs without any. -/
def runs (s : List Char) : List (List Char) :=
  s.splitBy fun c d => Text.isWordChar c == Text.isWordChar d

/-- The number of a placeholder, counted from one. -/
def placeholder? (run : List Char) : Option Nat :=
  match Text.after? "arg".toList run with
  | some digits =>
    if digits.isEmpty || !digits.all Char.isDigit then none
    else some (Text.digitsValue digits)
  | none => none

def parameter? (params : List Value) (run : List Char) : Option Value :=
  match placeholder? run with
  | some (n + 1) => params[n]?
  | _ => none

def substituteRun (params : List Value) (run : List Char) : List Char :=
  ((parameter? params run).map Value.literal).getD run

def substitute (content : List Char) (params : List Value) : List Char :=
  (runs content).flatMap (substituteRun params)

end RemoteConsole.Script
