import RemoteConsole.Script.Fingerprint
import RemoteConsole.Script.Template

/-!
# Fragments and commands

A fragment is a named piece of script text, either a library of the whole session or part of the
tool of one capability. A command runs a fragment with parameters, or a literal text.
-/

namespace RemoteConsole

namespace Script

inductive Kind where
  | library
  | tool
deriving DecidableEq, Repr

structure Fragment where
  name : String
  kind : Kind
  content : String
deriving DecidableEq, Repr

def Fragment.hash (f : Fragment) : String := fingerprint f.content

end Script

structure Command where
  /-- The name of a fragment, or the text itself. -/
  target : String
  params : List Value
  isLiteral : Bool
  /-- Stands for the target in the tag. -/
  label : Option String

namespace Command

def ofFragment (target : String) (params : List Value) : Command := ⟨target, params, false, none⟩

def ofText (text : String) : Command := ⟨text, [], true, none⟩

def withLabel (label : String) (c : Command) : Command := { c with label := some label }

def tag (index : Nat) (c : Command) : String := s!"{index}_{c.label.getD c.target}"

/-- The text of a script as the console wants it. A measured command goes through the counted
path, any other leaves no trace in the accounting of the remote side. -/
def envelope (measured : Bool) (body : String) : String :=
  (if measured then "/command " else "/sc ") ++ body

end Command

end RemoteConsole
