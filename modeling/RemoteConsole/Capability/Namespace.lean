import RemoteConsole.Files.Discovery

/-!
# Namespaces

A namespace holds the capabilities of one agent by their keys. The key of an admin capability is
its name with a mark in front; it can always be called by its key, and by its name or from the
listing only while admin capabilities are visible.
-/

namespace RemoteConsole

/-- A capability of an agent; `α` is what carries out its calls. -/
structure Binding (α : Type) where
  name : String
  agent : Nat
  visibility : Visibility
  instance' : α
deriving DecidableEq, Repr

def adminKey (name : String) : String := "_" ++ name

def Binding.key {α : Type} (b : Binding α) : String :=
  match b.visibility with
  | .everyone => b.name
  | .admin => adminKey b.name

structure Namespace (α : Type) where
  agent : Nat
  bindings : List (String × Binding α)
  adminVisible : Bool
deriving DecidableEq, Repr

namespace Namespace

variable {α : Type}

def new (agent : Nat) : Namespace α := ⟨agent, [], false⟩

/-- Adds a binding; it replaces an earlier one of its key. -/
def register (b : Binding α) (ns : Namespace α) : Namespace α :=
  { ns with bindings := Assoc.put b.key b ns.bindings }

def clear (ns : Namespace α) : Namespace α := { ns with bindings := [] }

def setAdminVisible (visible : Bool) (ns : Namespace α) : Namespace α := { ns with adminVisible := visible }

def get? (name : String) (ns : Namespace α) : Option (Binding α) :=
  match Assoc.get? name ns.bindings with
  | some b => some b
  | none =>
    if ns.adminVisible then
      (Assoc.get? (adminKey name) ns.bindings).filter (·.visibility == .admin)
    else none

def find (name : String) (ns : Namespace α) : Except ControlError (Binding α) :=
  match ns.get? name with
  | some b => .ok b
  | none => .error (.unknownCapability name ns.agent)

def all (ns : Namespace α) : List (Binding α) := ns.bindings.map Prod.snd

def names (ns : Namespace α) : List String :=
  (ns.all.filter fun b => ns.adminVisible || b.visibility == .everyone).map Binding.key

def adminNames (ns : Namespace α) : List String :=
  (ns.all.filter (·.visibility == .admin)).map Binding.key

end Namespace

end RemoteConsole
