import RemoteConsole.Batch
import RemoteConsole.Clock
import RemoteConsole.Config.Basic
import RemoteConsole.Files.Discovery
import RemoteConsole.Json.Reader

/-!
# The console of a session

What a session and its capabilities share: the wire, the registry of scripts, the batch, the
clock and the files. While the batch is open commands are queued; otherwise they are sent at once.
-/

namespace RemoteConsole

structure Console (σ : Type) where
  wire : Wire σ
  registry : Registry
  batch : Batch
  clock : Clock
  config : Config
  files : FileTree
  contexts : Nat
  /-- The contexts whose capability was seen on the remote side. -/
  confirmed : List Nat
  waited : Duration

namespace Console

variable {σ : Type}

def new (config : Config) (files : FileTree) (registry : Registry) (wire : Wire σ) : Console σ where
  wire
  registry
  batch := .idle
  clock := .new config.session.gameSpeed
  config
  files
  contexts := 0
  confirmed := []
  waited := ⟨0⟩

def onWire {α : Type} (x : Action (Wire σ) α) : Action (Console σ) α :=
  Action.zoom Console.wire (fun wire c => { c with wire }) x

def send (command : String) : Action (Console σ) LinkReply := onWire (Wire.send command)

def updateRegistry (f : Registry → Registry) : Action (Console σ) Unit :=
  .modify fun c => { c with registry := f c.registry }

def updateClock (f : Clock → Clock) : Action (Console σ) Unit :=
  .modify fun c => { c with clock := f c.clock }

def wait (d : Duration) : Action (Console σ) Unit :=
  .modify fun c => { c with waited := ⟨c.waited.nanoseconds + d.nanoseconds⟩ }

def setBatch (batch : Batch) : Action (Console σ) Unit := .modify fun c => { c with batch }

def decode (reply : String) : Action (Console σ) Value :=
  match Reply.decode reply with
  | .ok v => pure v
  | .error e => .fail (.remote e)

/-! ## Fingerprints and uploads -/

def fetchCommand : String := "/sc rcon.print(game.table_to_json(global.fingerprints or {}))"

def clearCommand : String := "/sc global.fingerprints = \x7b\x7d"

def recordCommand (entries : List (String × String)) : String :=
  let assignments := entries.map fun (name, hash) =>
    s!"global.fingerprints[{(Value.string name).toLiteral}] = {(Value.string hash).toLiteral}"
  "/sc global.fingerprints = global.fingerprints or \x7b\x7d; " ++ String.intercalate "; " assignments

/-- Reads the table of fingerprints. An empty one may come as an array or as nothing. -/
def fingerprints? (reply : String) : Option (List (String × String)) :=
  let text := String.ofList (Text.trim reply.toList)
  if text = "" ∨ text = "[]" ∨ text = "\x7b\x7d" then some []
  else match Json.read? text with
    | some (.object members) => members.mapM fun
      | (name, .string hash) => some (name, hash)
      | _ => none
    | _ => none

def fetch : Action (Console σ) Unit := do
  let reply ← send fetchCommand
  match fingerprints? reply.text with
  | some mirror => updateRegistry fun r => { r with mirror }
  | none => .fail (.transport "malformed fingerprint table")

def clear : Action (Console σ) Unit := do
  let _ ← send clearCommand
  updateRegistry fun r => { r with mirror := [] }

def sync : Action (Console σ) Unit := do
  if (← Action.read (·.registry.caching)) then fetch else clear

/-- Records fingerprints on the remote side and in the mirror, with one command. -/
def record (entries : List (String × String)) : Action (Console σ) Unit := do
  if entries.isEmpty then return
  let _ ← send (recordCommand entries)
  updateRegistry (·.record entries)

/-- Uploads a fragment that is out of date, and adds it to those uploaded before. -/
def upload (pending : List (String × String)) (name : String) :
    Action (Console σ) (List (String × String)) := do
  let registry ← Action.read Console.registry
  match registry.get? name with
  | none => .fail (.unknownFragment name)
  | some fragment =>
    if !registry.isOutdated fragment || (Assoc.get? name pending).isSome then return pending
    match Script.check fragment.content.toList with
    | .error issue => .fail (.script fragment.name issue)
    | .ok () =>
      let reply ← send ("/sc " ++ fragment.content)
      let _ ← decode reply.text
      return pending ++ [(name, fragment.hash)]

/-- Uploads every named fragment that is out of date and then records all of them at once.
Returns the names of those uploaded. -/
def install (names : List String) : Action (Console σ) (List String) := do
  let pending ← names.foldlM upload []
  record pending
  return pending.map Prod.fst

def installOne (name : String) : Action (Console σ) Bool := do
  return !(← install [name]).isEmpty

/-- Installs libraries; all must exist before anything is sent. -/
def installLibraries (names : List String) : Action (Console σ) (List String) := do
  let registry ← Action.read Console.registry
  let missing := names.find? fun name => (registry.get? name).map (·.kind) != some .library
  match missing with
  | some name => .fail (.missingLibrary name)
  | none => install names

def installLibrary (name : String) : Action (Console σ) Bool := do
  return !(← installLibraries [name]).isEmpty

def installTools (path : String) : Action (Console σ) Nat := do
  let registry ← Action.read Console.registry
  return (← install (registry.toolsBelow path)).length

def bootstrap : Action (Console σ) Unit := do
  sync
  let _ ← installLibraries (← Action.read (·.config.scripts.bootstrapLibraries))

/-- Finds the scripts again with caching off and installs everything anew. -/
def invalidate : Action (Console σ) Unit := do
  let c ← Action.get
  let fresh ← Action.lift (Registry.discover c.config.scripts.libraryDir c.config.scripts.toolsDir false c.files)
  updateRegistry fun _ => fresh
  bootstrap
  (CapabilityDirectory.discover c.config.scripts.toolsDir c.files).forM fun d => do
    let _ ← installTools d.fragmentPath

/-! ## Commands -/

def queueIfOpen (command : Command) : Action (Console σ) (Option Nat) := fun c =>
  if c.batch.isOpen then (.ok (some c.batch.queue.length), { c with batch := c.batch.add command })
  else (.ok none, c)

def add (command : Command) : Action (Console σ) Nat := do
  match (← queueIfOpen command) with
  | some index => return index
  | none => .fail (.transaction .addOutside)

/-- Sends a text and decodes its reply. A measured one advances the clock if that succeeds. -/
def run (text : String) (measured : Bool) : Action (Console σ) Value := do
  let reply ← send text
  let value ← decode reply.text
  if measured then updateClock (·.advance reply.elapsed)
  return value

def perform (command : Command) (measured : Bool) : Action (Console σ) Value := do
  match (← queueIfOpen command) with
  | some _ => return .nil
  | none => run ((← Action.read Console.registry).compileCommand measured command) measured

def execute (target : String) (params : List Value) (measured : Bool) : Action (Console σ) Value :=
  perform (.ofFragment target params) measured

def executeText (text : String) : Action (Console σ) Value := perform (.ofText text) false

/-! ## The batch -/

/-- Opens a batch; what an earlier one left is dropped. -/
def beginBatch : Action (Console σ) Unit := setBatch .opened

def discard : Action (Console σ) Unit := setBatch .idle

def sendQueue (measured : Bool) (queue : List Command) : Action (Console σ) BatchResult := do
  if queue.isEmpty then return .empty
  let entries := batchEntries (← Action.read Console.registry) measured queue
  let replies ← onWire (Wire.sendBatch entries)
  Action.lift (BatchResult.ofReplies (Assoc.keys entries) replies)

/-- Sends the open batch. The batch is idle before anything is sent. -/
def commit (measured : Bool) : Action (Console σ) BatchResult := do
  let batch ← Action.read Console.batch
  if batch.isOpen then
    discard
    sendQueue measured batch.queue
  else Action.fail (.transaction .executeOutside)

end Console

end RemoteConsole
