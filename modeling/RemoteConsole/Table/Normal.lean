import RemoteConsole.Table.Raw

/-!
# Lists and maps

A table is a list exactly when its keys are the integers from 1 to the number of its entries; the
empty table is the empty list. Every other table is a map from the texts of its keys.
-/

namespace RemoteConsole.Table

def Key.text : Key → String
  | .int i => String.ofList (Text.intText i)
  | .str s => s
  | .other literal => literal

def Key.isIndex (n : Nat) : Key → Bool
  | .int i => 1 ≤ i && i ≤ n
  | _ => false

def isSequence {α : Type} (entries : List (Key × α)) : Bool :=
  entries.all fun (k, _) => k.isIndex entries.length

def inOrder {α : Type} (entries : List (Key × α)) : List α :=
  (List.range entries.length).filterMap fun i => Assoc.get? (.int (i + 1 : Nat)) entries

def arrange (entries : List (Key × Value)) : Value :=
  if isSequence entries then .list (inOrder entries)
  else .ofEntries (entries.map fun (k, v) => (k.text, v))

mutual

def normalize : Raw → Value
  | .scalar v => v
  | .table entries => arrange (normalizeEntries entries)

def normalizeEntries : List (Key × Raw) → List (Key × Value)
  | [] => []
  | (k, raw) :: rest => (k, normalize raw) :: normalizeEntries rest

end

def decode (s : List Char) : Except ReadError Value := normalize <$> Raw.read s

end RemoteConsole.Table
