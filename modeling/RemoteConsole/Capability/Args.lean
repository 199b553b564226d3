import RemoteConsole.Error

/-!
# Checking arguments

The checks that the capabilities share. Each says what is wrong with the arguments of a call, for
the capability that was called.
-/

namespace RemoteConsole.Args

def refuse {α : Type} (capability message : String) : Except ControlError α :=
  .error (.invalidArgument capability message)

def arity (capability : String) (args : List Value) (least most : Nat) : Except ControlError Unit :=
  if args.length < least ∨ args.length > most then
    let expected := if least = most then s!"{least}" else s!"{least} to {most}"
    refuse capability s!"expected {expected} arguments, got {args.length}"
  else .ok ()

theorem length_of_arity {capability : String} {args : List Value} {least most : Nat}
    (h : arity capability args least most = .ok ()) : least ≤ args.length ∧ args.length ≤ most := by
  unfold arity at h
  split at h
  · cases h
  · omega

def number (capability : String) (args : List Value) (index : Nat) (what : String) :
    Except ControlError Double :=
  match (args[index]?.bind Value.asDouble?).filter Double.isFinite with
  | some n => .ok n
  | none => refuse capability s!"{what} must be a finite number"

def text (capability : String) (args : List Value) (index : Nat) (what : String) :
    Except ControlError String :=
  match (args[index]?.bind Value.asString?).filter (· != "") with
  | some s => .ok s
  | none => refuse capability s!"{what} must be a non-empty string"

def count (capability : String) (args : List Value) (index : Nat) (what : String) :
    Except ControlError Int64 :=
  match (args[index]?.bind Value.asInt?).filter fun n => decide (0 ≤ n.toInt) with
  | some n => .ok n
  | none => refuse capability s!"{what} must be a non-negative integer"

end RemoteConsole.Args
