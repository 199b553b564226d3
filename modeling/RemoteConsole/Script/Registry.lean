import RemoteConsole.Script.Fragment
import RemoteConsole.Assoc

/-!
# The script registry

The registry knows the fragments of a session and mirrors the table of fingerprints that the
remote side keeps. A fragment is up to date when the mirror holds its fingerprint.
-/

namespace RemoteConsole

open Script (Fragment)

structure Registry where
  fragments : List (String × Fragment)
  /-- The fingerprints known to be on the remote side, in the order of their names. -/
  mirror : List (String × String)
  caching : Bool

namespace Registry

def empty (caching : Bool) : Registry := ⟨[], [], caching⟩

def insert (f : Fragment) (r : Registry) : Registry :=
  { r with fragments := Assoc.put f.name f r.fragments }

def get? (name : String) (r : Registry) : Option Fragment := Assoc.get? name r.fragments

def contains (name : String) (r : Registry) : Bool := (r.get? name).isSome

def all (r : Registry) : List Fragment := r.fragments.map Prod.snd

def libraries (r : Registry) : List String :=
  (r.all.filter (·.kind == .library)).map (·.name)

def isOutdated (f : Fragment) (r : Registry) : Bool := Assoc.get? f.name r.mirror != some f.hash

def toolsBelow (path : String) (r : Registry) : List String :=
  let below := (path.toList.reverse.dropWhile (· == '/')).reverse ++ ['/']
  (r.all.filter fun f => f.kind == .tool && (Text.after? below f.name.toList).isSome).map (·.name)

def record (entries : List (String × String)) (r : Registry) : Registry :=
  { r with mirror := entries.foldl (fun mirror (n, h) => Assoc.putOrdered n h mirror) r.mirror }

/-- The text that runs a target. A target that is no fragment is itself the text. -/
def compile (target : String) (params : List Value) (measured : Bool) (r : Registry) : String :=
  match r.get? target with
  | some f => Command.envelope measured (String.ofList (Script.substitute f.content.toList params))
  | none => target

def compileCommand (measured : Bool) (r : Registry) (c : Command) : String :=
  if c.isLiteral then c.target else r.compile c.target c.params measured

end Registry

end RemoteConsole
