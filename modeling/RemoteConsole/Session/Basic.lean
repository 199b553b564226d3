import RemoteConsole.Capability.Namespace
import RemoteConsole.Capability.Tool
import RemoteConsole.Hook

/-!
# Sessions

A session owns a console, the hooks and a namespace for each agent. It comes up by installing the
libraries and every capability on disk; if that fails it is closed at once. It is closed once,
whatever happened before.
-/

namespace RemoteConsole

structure ToolInstance where
  tool : Tool
  context : Context
deriving DecidableEq, Repr

inductive Heartbeat where
  | running
  /-- Inside a request that does not return. -/
  | stuck
  | dead
deriving DecidableEq, Repr

structure Session (σ : Type) where
  console : Console σ
  hooks : Hooks
  namespaces : List (Namespace ToolInstance)
  heartbeat : Option Heartbeat
  ready : Bool
  closed : Bool

namespace Session

variable {σ α : Type}

def onConsole (x : Action (Console σ) α) : Action (Session σ) α :=
  Action.zoom Session.console (fun console s => { s with console }) x

def onHooked (x : Action (Hooked (Console σ)) α) : Action (Session σ) α :=
  Action.zoom (fun s => ⟨s.hooks, s.console⟩) (fun h s => { s with hooks := h.hooks, console := h.rest }) x

def updateNamespaces (f : Namespace ToolInstance → Namespace ToolInstance) : Action (Session σ) Unit :=
  .modify fun s => { s with namespaces := s.namespaces.map f }

/-! ## Loading -/

def bind (d : CapabilityDirectory) (tool : Tool) (ns : Namespace ToolInstance) :
    Action (Session σ) (Namespace ToolInstance) := do
  let context ← onConsole (Context.make d.name ns.agent)
  return ns.register ⟨d.name, ns.agent, d.visibility, ⟨tool, context⟩⟩

/-- Installs the fragments of a capability and binds it for every agent. -/
def loadDirectory (d : CapabilityDirectory) : Action (Session σ) Unit := do
  match Tool.ofIdentifier? d.identifier with
  | none =>
    Action.fail (.loading d.path d.identifier "no implementation registered under this identifier")
  | some tool =>
    let _ ← onConsole (Console.installTools d.fragmentPath)
    let namespaces ← (← Action.read Session.namespaces).mapM (bind d tool)
    Action.modify fun s => { s with namespaces }

def load : Action (Session σ) Nat := do
  let c ← Action.read Session.console
  let found := CapabilityDirectory.discover c.config.scripts.toolsDir c.files
  found.forM loadDirectory
  return found.length

/-! ## Closing -/

/-- Closes the session. Hooks of a session that never came up are left as they are. A worker
that is stuck holds the link, which is then left alone. -/
def close : Action (Session σ) Unit := fun s =>
  if s.closed then (.ok (), s)
  else
    let idle := { s with
      closed := true
      heartbeat := none
      hooks := if s.ready then s.hooks.clear else s.hooks
      namespaces := s.namespaces.map Namespace.clear }
    if s.heartbeat = some .stuck then (.ok (), idle)
    else onConsole (Console.onWire Wire.close) idle

/-! ## Opening -/

def new (console : Console σ) (hooks : Hooks) : Session σ where
  console
  hooks
  namespaces := (List.range console.config.session.agents).map Namespace.new
  heartbeat := none
  ready := false
  closed := false

def comeUp : Action (Session σ) Unit := do
  onConsole Console.bootstrap
  let _ ← load
  Action.modify fun s => { s with
    heartbeat := if s.console.config.session.heartbeatInterval > 0 then some .running else none
    ready := true }

/-- Opens a session over a wire. A bad configuration or an unreadable script is an error before
there is a session; after that the session is returned with how it came up, and it is closed if
it did not. -/
def start (config : Config) (files : FileTree) (hooks : Hooks) (wire : Wire σ) :
    Except ControlError (Outcome Unit × Session σ) := do
  config.validate
  let registry ← Registry.discover config.scripts.libraryDir config.scripts.toolsDir config.scripts.caching files
  match comeUp (new (.new config files registry wire) hooks) with
  | (.ok (), s) => return (.ok (), s)
  | (failure, s) => return (failure, (close s).2)

/-! ## Operations -/

def namespace? (agent : Nat) : Action (Session σ) (Namespace ToolInstance) := do
  let namespaces ← Action.read Session.namespaces
  match namespaces[agent]? with
  | some ns => return ns
  | none => Action.fail (.config s!"no agent {agent} (session has {namespaces.length})")

def call (agent : Nat) (name : String) (args : List Value) : Action (Session σ) Value := do
  let ns ← namespace? agent
  let binding ← Action.lift (ns.find name)
  let inner (args : List Value) : Action (Hooked (Console σ)) Value :=
    Action.zoom Hooked.rest (fun rest h => { h with rest })
      (binding.instance'.tool.call binding.instance'.context args)
  onHooked (Hooks.around binding.instance'.context.capability inner args)

def execute (target : String) (params : List Value) (measured : Bool) : Action (Session σ) Value :=
  onConsole (Console.execute target params measured)

def executeText (text : String) : Action (Session σ) Value := onConsole (Console.executeText text)

def beginTransaction : Action (Session σ) Unit := onConsole Console.beginBatch

def commit : Action (Session σ) BatchResult := onConsole (Console.commit false)

def rollback : Action (Session σ) Unit := onConsole Console.discard

/-- Runs a body inside a transaction: what it queues is sent as one batch if it returns, and
nothing is sent if it fails or crashes. -/
def transaction (body : Action (Session σ) α) : Action (Session σ) (α × BatchResult) := do
  beginTransaction
  match (← Action.attempt body) with
  | .ok a => return (a, ← commit)
  | .error e =>
    rollback
    Action.fail e
  | .crash c =>
    rollback
    Action.crash c

/-- Installs everything again and binds the capabilities anew. Hooks and visibility stay. -/
def reload : Action (Session σ) Unit := do
  onConsole Console.invalidate
  updateNamespaces Namespace.clear
  let _ ← load

/-- Forgets queued commands and sets the clock to zero. -/
def reset : Action (Session σ) Unit := do
  rollback
  onConsole (Console.updateClock Clock.reset)

def gameSpeedScript : String := "set_game_speed"

def setGameSpeed (speed : Double) : Action (Session σ) Unit := do
  if !Config.isSpeed speed then
    Action.fail (.invalidArgument gameSpeedScript
      s!"speed must be positive, got {String.ofList (NumberStyle.message.render speed)}")
  if !(← Action.read fun s => s.console.registry.contains gameSpeedScript) then
    Action.fail (.missingLibrary gameSpeedScript)
  let _ ← execute gameSpeedScript [.number speed] false
  onConsole (Console.updateClock fun c => { c with gameSpeed := speed })

def setAdminVisible (agent : Nat) (visible : Bool) : Action (Session σ) Unit := do
  let _ ← namespace? agent
  Action.modify fun s => { s with namespaces := s.namespaces.modify agent (·.setAdminVisible visible) }

def registerHook (capability : String) (phase : Phase) (hook : Hook) : Action (Session σ) Unit :=
  .modify fun s => { s with hooks := s.hooks.register capability phase hook }

/-! ## The heartbeat -/

def tickCommand : String := "/sc rcon.print(game.tick)"

def recordTick (reply : String) : Action (Console σ) Unit :=
  match Reply.decode reply with
  | .ok v => match v.asInt? with
    | some tick => Console.updateClock fun c => { c with serverTick := some tick }
    | none => pure ()
  | .error _ => pure ()

/-- One request of the heartbeat worker. Errors are passed over; a crash of the link ends the
worker. -/
def beat : Action (Session σ) Unit := do
  if (← Action.read Session.heartbeat) != some .running then return
  match (← Action.attempt (onConsole (Console.send tickCommand))) with
  | .ok reply => onConsole (recordTick reply.text)
  | .error _ => pure ()
  | .crash _ => Action.modify fun s => { s with heartbeat := some .dead }

def stall : Action (Session σ) Unit :=
  .modify fun s => { s with heartbeat := s.heartbeat.map fun _ => .stuck }

end Session

end RemoteConsole
