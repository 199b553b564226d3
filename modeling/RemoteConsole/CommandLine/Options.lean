import RemoteConsole.Text.Search

/-!
# Options

The words of a command line are options, which start with a hyphen, and positional words. An
option stands at most once. It may take a value, which is joined to it or is the next word; the
word `--` makes every word after it positional.
-/

namespace RemoteConsole.CommandLine

inductive Halt where
  | help
  | version
  | refused
deriving DecidableEq, Repr

inductive OptionKind where
  | switch
  | valued (accepts : String → Bool)
  | halting (reason : Halt)

structure OptionSpec where
  name : String
  short : Option Char
  kind : OptionKind

def OptionSpec.isValued (spec : OptionSpec) : Bool :=
  match spec.kind with
  | .valued _ => true
  | _ => false

structure Grammar where
  options : List OptionSpec
  /-- The least and the most positional words; there may be no upper bound. -/
  least : Nat
  most : Option Nat
  /-- The words at which the line of another command begins. -/
  commands : List String

structure Words where
  options : List (String × String)
  positional : List String

namespace Words

def empty : Words := ⟨[], []⟩

def has (name : String) (w : Words) : Bool := w.options.any (·.1 == name)

def value? (name : String) (w : Words) : Option String := (w.options.find? (·.1 == name)).map Prod.snd

def add (spec : OptionSpec) (value : String) (w : Words) : Except Halt Words :=
  let added : Except Halt Words :=
    if w.has spec.name then .error .refused else .ok { w with options := w.options ++ [(spec.name, value)] }
  match spec.kind with
  | .switch => added
  | .valued accepts => if accepts value then added else .error .refused
  | .halting reason => .error reason

end Words

namespace Grammar

def addWord (g : Grammar) (word : String) (w : Words) : Except Halt Words :=
  if g.most.any (· ≤ w.positional.length) then .error .refused
  else .ok { w with positional := w.positional ++ [word] }

/-- Takes in a long option after its hyphens; returns the option that waits for a value. -/
def addLong (g : Grammar) (body : List Char) (w : Words) : Except Halt (Option OptionSpec × Words) :=
  let (name, value) := match Text.cutFirst? ['='] body with
    | some (name, value) => (name, some (String.ofList value))
    | none => (body, none)
  match g.options.find? (·.name == String.ofList name) with
  | none => .error .refused
  | some spec =>
    match value, spec.isValued with
    | some value, true => do return (none, ← w.add spec value)
    | some _, false => .error .refused
    | none, true => .ok (some spec, w)
    | none, false => do return (none, ← w.add spec "")

def addShorts (g : Grammar) : List Char → Words → Except Halt (Option OptionSpec × Words)
  | [], w => .ok (none, w)
  | c :: cs, w =>
    match g.options.find? (·.short == some c) with
    | none => .error .refused
    | some spec =>
      if !spec.isValued then do g.addShorts cs (← w.add spec "")
      else if cs.isEmpty then .ok (some spec, w)
      else do return (none, ← w.add spec (String.ofList ((Text.after? ['='] cs).getD cs)))

/-- Reads the words of a line, with the option that waits for a value, or literally after `--`.
Returns what is left where another command begins. -/
def scan (g : Grammar) : (waiting : Option OptionSpec) → (literal : Bool) → List String → Words →
    Except Halt (Words × List String)
  | none, _, [], w => if w.positional.length < g.least then .error .refused else .ok (w, [])
  | some _, _, [], _ => .error .refused
  | waiting, true, word :: rest, w => do g.scan waiting true rest (← g.addWord word w)
  | some spec, false, word :: rest, w =>
    match word.toList with
    | '-' :: _ :: _ => .error .refused
    | _ => do g.scan none false rest (← w.add spec word)
  | none, false, word :: rest, w =>
    if g.commands.contains word then .ok (w, word :: rest)
    else match word.toList with
      | ['-', '-'] => g.scan none true rest w
      | '-' :: '-' :: body => do
        let (waiting, w) ← g.addLong body w
        g.scan waiting false rest w
      | '-' :: c :: cs => do
        let (waiting, w) ← g.addShorts (c :: cs) w
        g.scan waiting false rest w
      | _ => do g.scan none false rest (← g.addWord word w)

def read (g : Grammar) (words : List String) : Except Halt (Words × List String) :=
  g.scan none false words .empty

end Grammar

end RemoteConsole.CommandLine
