import RemoteConsole.Value.Basic

/-!
# Inventories

A non-empty collection whose every element has a name and a numeric count is an inventory. It is
collapsed to a map from names to counts, in which the counts of a repeated name add up.
-/

namespace RemoteConsole.Reply

def inventoryEntry? (v : Value) : Option (String × Value) :=
  match v.get? "name", v.get? "count" with
  | some (.string name), some (.integer n) => some (name, .integer n)
  | some (.string name), some (.number n) => some (name, .number n)
  | _, _ => none

/-- Integers add up to an integer if one can hold the sum; all other counts add up as doubles. -/
def addCounts : Value → Value → Value
  | .integer a, .integer b =>
    let sum := a.toInt + b.toInt
    if -2 ^ 63 ≤ sum ∧ sum < 2 ^ 63 then .integer (Int64.ofInt sum)
    else .number ((Double.ofInt a.toInt).add (Double.ofInt b.toInt))
  | a, b =>
    match a.asDouble?, b.asDouble? with
    | some x, some y => .number (x.add y)
    | _, _ => b

def tally (inventory : List (String × Value)) (entry : String × Value) : List (String × Value) :=
  let (name, count) := entry
  match Assoc.get? name inventory with
  | some total => Assoc.put name (addCounts total count) inventory
  | none => Assoc.put name count inventory

def collapse? (elements : List Value) : Option Value :=
  if elements.isEmpty then none
  else (elements.mapM inventoryEntry?).map fun entries => .map (entries.foldl tally [])

mutual

/-- Collapses inventories at every depth, from the outside in. -/
def clean : Value → Value
  | .list items => (collapse? items).getD (.list (cleanItems items))
  | .map entries => (collapse? (entries.map Prod.snd)).getD (.map (cleanEntries entries))
  | v => v

def cleanItems : List Value → List Value
  | [] => []
  | v :: rest => clean v :: cleanItems rest

def cleanEntries : List (String × Value) → List (String × Value)
  | [] => []
  | (k, v) :: rest => (k, clean v) :: cleanEntries rest

end

end RemoteConsole.Reply
