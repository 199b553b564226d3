import RemoteConsole.Session.Console

/-!
# Calling a capability on the remote side

A context names a capability and an agent. Before its first call it asks the remote side whether
the capability is registered there; if it is not, all scripts are installed again and it asks once
more. The call itself is wrapped so that its outcome comes back in an envelope.
-/

namespace RemoteConsole

structure Context where
  capability : String
  agent : Nat
  /-- Tells contexts of one console apart. -/
  id : Nat
deriving DecidableEq, Repr

namespace Context

variable {σ : Type}

def make (capability : String) (agent : Nat) : Action (Console σ) Context := fun c =>
  (.ok ⟨capability, agent, c.contexts⟩, { c with contexts := c.contexts + 1 })

def key (ctx : Context) : String := (Value.string ctx.capability).toLiteral

def probeCommand (ctx : Context) : String :=
  s!"/sc rcon.print(global.actions ~= nil and global.actions[{ctx.key}] ~= nil)"

/-- The agent's number comes before the arguments. Calls are measured. -/
def invokeCommand (ctx : Context) (args : List Value) : String :=
  let actuals := argumentText (Value.ofNat ctx.agent :: args)
  Command.envelope true
    (s!"local a, b = pcall(global.actions[{ctx.key}], {actuals}); rcon.print(dump(" ++
      "\x7ba = a, b = b\x7d))")

/-- Asks whether the capability is there, and fails if it is not. -/
def probe (ctx : Context) : Action (Console σ) Unit := do
  let reply ← Console.send ctx.probeCommand
  match (← Console.decode reply.text) with
  | .boolean true => Action.modify fun c => { c with confirmed := ctx.id :: c.confirmed }
  | _ => Action.fail (.cacheMismatch ctx.capability)

-- a mismatch that the link itself ends with counts as well
def ensureRegistered (ctx : Context) : Action (Console σ) Unit := do
  if (← Action.read fun c => c.confirmed.contains ctx.id) then return
  match (← Action.attempt ctx.probe) with
  | .error (.cacheMismatch _) =>
    Console.invalidate
    ctx.probe
  | other => Action.resume other

def invoke (ctx : Context) (args : List Value) : Action (Console σ) Value := do
  let text := ctx.invokeCommand args
  match (← Console.queueIfOpen ((Command.ofText text).withLabel ctx.capability)) with
  | some _ => return .nil
  | none =>
    ctx.ensureRegistered
    Console.run text true

end Context

end RemoteConsole
