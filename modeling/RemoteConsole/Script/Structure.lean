import RemoteConsole.Script.Lexeme
import RemoteConsole.Text.Numeral

/-!
# The structure of a script

A script is checked before it is uploaded: its brackets and blocks must nest and its strings and
comments must end. What is open is kept on a stack with the line it was opened on. The first
issue in the order of the source is reported.
-/

namespace RemoteConsole.Script

inductive Construct where
  | bracket (b : Bracket)
  | function
  | conditional
  /-- The head of a loop, waiting for its `do`. -/
  | loopHead
  | block
  | repetition
deriving DecidableEq, Repr

def Construct.label : Construct → String
  | bracket .round => "`(`"
  | bracket .square => "`[`"
  | bracket .curly => "`\x7b`"
  | function => "`function`"
  | conditional => "`if`"
  | loopHead => "loop header"
  | block => "`do`"
  | repetition => "`repeat`"

inductive Fault where
  | unfinished (what : Unfinished)
  | neverClosed (what : Construct)
  /-- A closing word or bracket meets a construct that it does not close. -/
  | mismatch (closer : String) (open' : Construct) (line : Nat)
  | endWithoutBlock
  | untilWithoutRepeat
  | unbalanced (b : Bracket)
deriving DecidableEq, Repr

structure Issue where
  line : Nat
  fault : Fault
deriving DecidableEq, Repr

def Unfinished.message : Unfinished → String
  | string => "unfinished string"
  | longString => "unfinished long string"
  | longComment => "unfinished long comment"

def Fault.message : Fault → String
  | unfinished what => what.message
  | neverClosed what => s!"{what.label} is never closed"
  | mismatch closer what line => s!"`{closer}` closes {what.label} opened on line {line}"
  | endWithoutBlock => "`end` without an open block"
  | untilWithoutRepeat => "`until` without `repeat`"
  | unbalanced b => s!"unbalanced `{b.closer.toString}`"

def Issue.message (i : Issue) : String := s!"line {i.line}: {i.fault.message}"

/-- The tokens of a script with their lines, and the string or comment that does not end. -/
def tokens (line : Nat) : List Char → List (Token × Nat) × Option Issue
  | [] => ([], none)
  | c :: s =>
    match h : lexeme c s with
    | .error what => ([], some ⟨line, .unfinished what⟩)
    | .ok (token, body, rest) =>
      have := lexeme_length h
      let (later, issue) := tokens (line + (c :: body).count '\n') rest
      ((token, line) :: later, issue)
termination_by s => s.length
decreasing_by assumption

/-- The constructs that are open, innermost first, with their lines. -/
abbrev Stack := List (Construct × Nat)

def stepWord (stack : Stack) (line : Nat) (word : List Char) : Except Issue Stack :=
  if word = "function".toList then .ok ((.function, line) :: stack)
  else if word = "if".toList then .ok ((.conditional, line) :: stack)
  else if word = "for".toList ∨ word = "while".toList then .ok ((.loopHead, line) :: stack)
  else if word = "repeat".toList then .ok ((.repetition, line) :: stack)
  else if word = "do".toList then
    match stack with
    | (.loopHead, opened) :: rest => .ok ((.block, opened) :: rest)
    | _ => .ok ((.block, line) :: stack)
  else if word = "end".toList then
    match stack with
    | (.function, _) :: rest | (.conditional, _) :: rest | (.block, _) :: rest => .ok rest
    | (what, opened) :: _ => .error ⟨line, .mismatch "end" what opened⟩
    | [] => .error ⟨line, .endWithoutBlock⟩
  else if word = "until".toList then
    match stack with
    | (.repetition, _) :: rest => .ok rest
    | (what, opened) :: _ => .error ⟨line, .mismatch "until" what opened⟩
    | [] => .error ⟨line, .untilWithoutRepeat⟩
  else .ok stack

def step (stack : Stack) (token : Token × Nat) : Except Issue Stack :=
  match token with
  | (.word word, line) => stepWord stack line word
  | (.opening b, line) => .ok ((.bracket b, line) :: stack)
  | (.closing b, line) =>
    match stack with
    | (what, opened) :: rest =>
      if what = .bracket b then .ok rest
      else .error ⟨line, .mismatch b.closer.toString what opened⟩
    | [] => .error ⟨line, .unbalanced b⟩
  | (.other, _) => .ok stack

def check (source : List Char) : Except Issue Unit := do
  let (found, issue) := tokens 1 source
  let stack ← found.foldlM step []
  match issue, stack with
  | some issue, _ => .error issue
  | none, (what, opened) :: _ => .error ⟨opened, .neverClosed what⟩
  | none, [] => .ok ()

end RemoteConsole.Script
