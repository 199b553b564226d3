import RemoteConsole.Table.Syntax

/-!
# What a reader expected

When a reply does not read, the error names the rules that failed at the furthest place any rule
was tried at. A rule whose attempt led to exactly one other failed rule at its own place leaves
that one in its stead; a rule that led to several replaces them.
-/

namespace RemoteConsole.Table

inductive Rule where
  | reply | endOfInput | table | keyedField | namedField | positionalField
  | name | boolean | nil | special | number | string
deriving DecidableEq, Repr

/-- The rules that failed at the furthest place; a place is the number of characters left. -/
structure Expectation where
  left : Nat
  rules : List Rule

namespace Expectation

def countAt (e : Expectation) (left : Nat) : Nat := if e.left = left then e.rules.length else 0

/-- Records that `rule` failed at a place where `base` rules had failed before it was tried. -/
def record (rule : Rule) (left base : Nat) (e : Expectation) : Expectation :=
  if e.countAt left = base + 1 then e
  else if left = e.left then ⟨left, e.rules.take base ++ [rule]⟩
  else if left < e.left then ⟨left, [rule]⟩
  else e

/-- Tries a rule in front of `s`: `body` are the attempts within it, and `matched` is its
outcome. -/
def attempt (rule : Rule) (s : List Char) (matched : Bool) (body : Expectation → Expectation)
    (e : Expectation) : Expectation :=
  if matched then body e else record rule s.length (e.countAt s.length) (body e)

end Expectation

open Expectation (attempt)

def attemptToken {α : Type} (rule : Rule) (s : List Char) (reading : Option α) (e : Expectation) : Expectation :=
  attempt rule s reading.isSome id e

/-- The kinds of value that are one token, each tried if those before it fail. -/
def expectScalar (s : List Char) (e : Expectation) : Expectation :=
  let e := attemptToken .special s (special? s) e
  if (special? s).isSome then e else
  let e := attemptToken .number s (number? s) e
  if (number? s).isSome then e else
  let e := attemptToken .string s (string? s) e
  if (string? s).isSome then e else
  let e := attemptToken .boolean s (boolean? s) e
  if (boolean? s).isSome then e else
  attemptToken .nil s (nil? s) e

section

variable (value? : List Char → Option (Node × List Char))
variable (expectValue : List Char → Expectation → Expectation)

def expectAssigned (s : List Char) (e : Expectation) : Expectation :=
  match token? '=' (skip s) with
  | some s => expectValue s e
  | none => e

def expectKeyed (s : List Char) (e : Expectation) : Expectation :=
  match token? '[' s with
  | none => e
  | some s =>
    let e := expectValue s e
    match value? s with
    | none => e
    | some (_, s) => match token? ']' (skip s) with
      | some s => expectAssigned expectValue s e
      | none => e

def expectNamed (s : List Char) (e : Expectation) : Expectation :=
  let e := attemptToken .name s (name? s) e
  match name? s with
  | some (_, s) => expectAssigned expectValue s e
  | none => e

def expectField (s : List Char) (e : Expectation) : Expectation :=
  let e := attempt .keyedField s (keyed? value? s).isSome (expectKeyed value? expectValue s) e
  if (keyed? value? s).isSome then e else
  let e := attempt .namedField s (named? value? s).isSome (expectNamed expectValue s) e
  if (named? value? s).isSome then e else
  attempt .positionalField s (positional? value? s).isSome (expectValue s) e

end

mutual

def expectValue : (fuel : Nat) → List Char → Expectation → Expectation
  | 0, _, e => e
  | fuel + 1, s, e =>
    let matched := (token? '{' s).isSome && (value? (fuel + 1) s).isSome
    let e := attempt .table s matched (match token? '{' s with
      | some rest => expectFields fuel rest
      | none => id) e
    if matched then e else expectScalar s e

def expectFields : (fuel : Nat) → List Char → Expectation → Expectation
  | 0, _, e => e
  | fuel + 1, s, e =>
    let e := expectField (value? fuel) (expectValue fuel) s e
    match field? (value? fuel) s with
    | none => e
    | some (_, rest) => match skip rest with
      | c :: rest => if isSeparator c then expectFields fuel (skip rest) e else e
      | [] => e

end

def expectation (s : List Char) : Expectation :=
  let fuel := fuelFor s
  let body (e : Expectation) : Expectation :=
    let e := expectValue fuel (skip s) e
    match value? fuel (skip s) with
    | some (_, rest) => attempt .endOfInput (skip rest) (skip rest).isEmpty id e
    | none => e
  attempt .reply s (read? s).isSome body ⟨s.length, []⟩

namespace Rule

def all : List Rule :=
  [.endOfInput, .reply, .table, .keyedField, .namedField, .positionalField, .name, .boolean, .nil,
    .special, .number, .string]

def label : Rule → String
  | reply => "reply"
  | endOfInput => "EOI"
  | table => "table"
  | keyedField => "keyed_field"
  | namedField => "named_field"
  | positionalField => "positional_field"
  | name => "name"
  | boolean => "boolean"
  | nil => "nil"
  | special => "special"
  | number => "number"
  | string => "string"

/-- `A`, `A or B`, or `A, B, or C`. -/
def enumeration : List String → String
  | [] => ""
  | [a] => a
  | [a, b] => a ++ " or " ++ b
  | labels => String.intercalate ", " labels.dropLast ++ ", or " ++ labels.getLast?.getD ""

def expected (failed : List Rule) : String :=
  "expected " ++ enumeration ((all.filter failed.contains).map label)

end Rule

end RemoteConsole.Table
