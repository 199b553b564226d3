import RemoteConsole.Action
import RemoteConsole.Assoc

/-!
# Hooks

Hooks are called before and after a capability, in the order they were registered. A hook may fail,
crash, register other hooks or clear them all; it never keeps the other hooks from being called and
never changes what the call returns. The hooks of a phase are looked up when the phase begins.
-/

namespace RemoteConsole

inductive Phase where
  | before
  | after
deriving DecidableEq, Repr

inductive Ending where
  | returned (value : Value)
  | failed (error : ControlError)
  | crashed (message : String)

def Ending.isSuccess : Ending → Bool
  | returned _ => true
  | _ => false

/-- What a hook sees of a call; the ending is known after the call. -/
structure HookEvent where
  capability : String
  args : List Value
  ending : Option Ending

def HookEvent.phase (e : HookEvent) : Phase := if e.ending.isSome then .after else .before

inductive Verdict where
  | fine
  | failed
  | crashed
deriving DecidableEq, Repr

/-- A change that a hook of type `η` makes to the table of hooks. -/
inductive HookEdit (η : Type) where
  | register (capability : String) (phase : Phase) (hook : η)
  | clear

structure Reaction (η : Type) where
  edits : List (HookEdit η)
  verdict : Verdict

inductive Hook where
  | mk (label : String) (react : HookEvent → Reaction Hook)

def Hook.label : Hook → String
  | mk label _ => label

def Hook.react : Hook → HookEvent → Reaction Hook
  | mk _ react => react

/-- The table of hooks, and which hooks were called with what. -/
structure Hooks where
  table : List (String × Phase × Hook)
  trace : List (String × HookEvent)

namespace Hooks

def empty : Hooks := ⟨[], []⟩

def register (capability : String) (phase : Phase) (hook : Hook) (h : Hooks) : Hooks :=
  { h with table := h.table ++ [(capability, phase, hook)] }

def clear (h : Hooks) : Hooks := { h with table := [] }

def size (h : Hooks) : Nat := h.table.length

def lookup (capability : String) (phase : Phase) (h : Hooks) : List Hook :=
  h.table.filterMap fun (c, p, hook) => if c = capability ∧ p = phase then some hook else none

def apply (h : Hooks) : HookEdit Hook → Hooks
  | .register capability phase hook => h.register capability phase hook
  | .clear => h.clear

def call (event : HookEvent) (h : Hooks) (hook : Hook) : Hooks :=
  let traced := { h with trace := h.trace ++ [(hook.label, event)] }
  (hook.react event).edits.foldl apply traced

def run (event : HookEvent) (h : Hooks) : Nat × Hooks :=
  let found := h.lookup event.capability event.phase
  (found.countP fun hook => (hook.react event).verdict != .fine, found.foldl (call event) h)

end Hooks

structure Hooked (ρ : Type) where
  hooks : Hooks
  rest : ρ

def Outcome.ending : Outcome Value → Ending
  | ok v => .returned v
  | error e => .failed e
  | crash (.text message) => .crashed message
  | crash .other => .crashed "non-string panic payload"

def Hooks.around {ρ : Type} (capability : String) (inner : List Value → Action (Hooked ρ) Value)
    (args : List Value) : Action (Hooked ρ) Value := fun s =>
  let s := { s with hooks := (s.hooks.run ⟨capability, args, none⟩).2 }
  let (outcome, s) := inner args s
  (outcome, { s with hooks := (s.hooks.run ⟨capability, args, some outcome.ending⟩).2 })

end RemoteConsole
