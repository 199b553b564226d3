import RemoteConsole.Assoc
import RemoteConsole.Double.Basic

/-!
# TOML documents

A document is a table of tables. A table remembers how it came to be, because that decides what
may still be added to it: a table with a header of its own is closed to dotted keys, and one that
was written between braces is closed to everything.
-/

namespace RemoteConsole

inductive TableOrigin where
  /-- The table has a header, or it is the document. -/
  | header
  /-- The table is on the way to a longer header. -/
  | implied
  /-- The table is on the way of a dotted key. -/
  | dotted
deriving DecidableEq, Repr

inductive Toml where
  | string (s : String)
  | integer (i : Int64)
  | float (d : Double)
  | boolean (b : Bool)
  /-- A date or a time of day; nothing asks which. -/
  | date
  | array (items : List Toml)
  | inlineTable (entries : List (String × Toml))
  | table (origin : TableOrigin) (entries : List (String × Toml))
  /-- The tables of an array header, one for each time it stands in the document. -/
  | tables (items : List (List (String × Toml)))
deriving Inhabited

namespace Toml

abbrev Entries := List (String × Toml)

/-- Changes the table at the end of a path. Tables that are missing on the way are made; an array
of tables is entered at its last one. -/
def alter (way : TableOrigin) (change : TableOrigin → Entries → Option Entries) :
    List String → TableOrigin → Entries → Option Entries
  | [], origin, entries => change origin entries
  | key :: path, _, entries =>
    match Assoc.get? key entries with
    | none => do
      let sub ← alter way change path way []
      return entries ++ [(key, table way sub)]
    | some (table origin sub) =>
      if way = .dotted ∧ origin = .header then none
      else do
        let sub ← alter way change path origin sub
        return Assoc.put key (table origin sub) entries
    | some (tables items) => do
      let sub ← alter way change path .header (← items.getLast?)
      return Assoc.put key (tables (items.dropLast ++ [sub])) entries
    | some _ => none

/-- Adds an entry. The last table of a dotted key must itself come from dotted keys. -/
def addEntry (dotted : Bool) (key : String) (value : Toml) (origin : TableOrigin) (entries : Entries) :
    Option Entries :=
  if (origin == .dotted) != dotted || (Assoc.get? key entries).isSome then none
  else some (entries ++ [(key, value)])

def assign (path : List String) (value : Toml) (origin : TableOrigin) (entries : Entries) : Option Entries :=
  match path.getLast? with
  | some key => alter .dotted (addEntry (!path.dropLast.isEmpty) key value) path.dropLast origin entries
  | none => none

def openTable (key : String) (entries : Entries) : Option Entries :=
  match Assoc.get? key entries with
  | none => some (entries ++ [(key, table .header [])])
  | some (table .implied sub) => some (Assoc.put key (table .header sub) entries)
  | some _ => none

def openItem (key : String) (entries : Entries) : Option Entries :=
  match Assoc.get? key entries with
  | none => some (entries ++ [(key, tables [[]])])
  | some (tables items) => some (Assoc.put key (tables (items ++ [[]])) entries)
  | some _ => none

inductive Statement where
  | header (path : List String)
  | arrayHeader (path : List String)
  | assignment (path : List String) (value : Toml)

/-- A document under way: the path of the last header, and the entries. -/
structure Draft where
  path : List String
  entries : Entries

def Draft.enter (open' : String → Entries → Option Entries) (path : List String) (d : Draft) : Option Draft := do
  let key ← path.getLast?
  let entries ← alter .implied (fun _ => open' key) path.dropLast .header d.entries
  return ⟨path, entries⟩

def Draft.add (d : Draft) : Statement → Option Draft
  | .header path => d.enter openTable path
  | .arrayHeader path => d.enter openItem path
  | .assignment path value => do
    let entries ← alter .implied (assign path value) d.path .header d.entries
    return { d with entries }

/-- The document that statements make in order, if none contradicts an earlier one. -/
def ofStatements? (statements : List Statement) : Option Toml :=
  (statements.foldlM Draft.add ⟨[], []⟩).map fun d => table .header d.entries

def ofPairs? (pairs : List (List String × Toml)) : Option Toml :=
  (pairs.foldlM (fun entries (path, value) => assign path value .header entries) []).map inlineTable

end Toml

end RemoteConsole
