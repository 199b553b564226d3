import RemoteConsole.Error

/-!
# Actions

An action runs on a state and ends in one of three ways: with a value, with an error, or by a
crash of the code it called. The state as it is at the end is kept in every case, so that what
was sent before an error remains known.
-/

namespace RemoteConsole

/-- What a crash leaves behind: a text, or something that is none. -/
inductive Crash where
  | text (message : String)
  | other
deriving DecidableEq, Repr

inductive Outcome (α : Type) where
  | ok (value : α)
  | error (e : ControlError)
  | crash (c : Crash)

namespace Outcome

variable {α β : Type}

def map (f : α → β) : Outcome α → Outcome β
  | ok a => ok (f a)
  | error e => error e
  | crash c => crash c

def isOk : Outcome α → Bool
  | ok _ => true
  | _ => false

def isCrash : Outcome α → Bool
  | crash _ => true
  | _ => false

def ofExcept : Except ControlError α → Outcome α
  | .ok a => ok a
  | .error e => error e

end Outcome

def Action (σ α : Type) : Type := σ → Outcome α × σ

namespace Action

variable {σ τ α β : Type}

protected def pure (a : α) : Action σ α := fun s => (.ok a, s)

protected def bind (x : Action σ α) (f : α → Action σ β) : Action σ β := fun s =>
  match x s with
  | (.ok a, s) => f a s
  | (.error e, s) => (.error e, s)
  | (.crash c, s) => (.crash c, s)

instance : Monad (Action σ) where
  pure := Action.pure
  bind := Action.bind

def fail (e : ControlError) : Action σ α := fun s => (.error e, s)

def crash (c : Crash) : Action σ α := fun s => (.crash c, s)

def get : Action σ σ := fun s => (.ok s, s)

def read (f : σ → α) : Action σ α := fun s => (.ok (f s), s)

def modify (f : σ → σ) : Action σ Unit := fun s => (.ok (), f s)

def lift (x : Except ControlError α) : Action σ α := fun s => (.ofExcept x, s)

def attempt (x : Action σ α) : Action σ (Outcome α) := fun s =>
  let (outcome, s) := x s
  (.ok outcome, s)

def resume (outcome : Outcome α) : Action σ α := fun s => (outcome, s)

def zoom (part : τ → σ) (update : σ → τ → τ) (x : Action σ α) : Action τ α := fun t =>
  let (outcome, s) := x (part t)
  (outcome, update s t)

end Action

end RemoteConsole
