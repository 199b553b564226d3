import RemoteConsole.Assoc
import RemoteConsole.Link.Basic
import RemoteConsole.Link.Packet

/-!
# The RCON client

A client authenticates and then sends each command under an id of its own. The packets that carry
an id answer its command; a batch is answered when there is a packet for each of its commands.
-/

namespace RemoteConsole

/-- What the other end of a connection answers to bytes, and how long that takes. -/
def Peer (τ : Type) : Type := List UInt8 → τ → (List UInt8 × Duration) × τ

structure Rcon (τ : Type) where
  peer : τ
  incoming : List UInt8
  written : List UInt8
  /-- A read found fewer bytes than it needed. -/
  starved : Bool
  nextId : Int32
  isOpen : Bool
  interrupted : Bool

namespace Rcon

variable {τ α : Type}

def new (peer : τ) (incoming : List UInt8) : Rcon τ := ⟨peer, incoming, [], false, 1, true, false⟩

def authKind : Int32 := 3
def authResponseKind : Int32 := 2
def commandKind : Int32 := 2

def allocateId : Action (Rcon τ) Int32 :=
  fun c => (.ok c.nextId, { c with nextId := if c.nextId = Int32.maxValue then 1 else c.nextId + 1 })

def requireOpen : Action (Rcon τ) Unit := do
  if !(← Action.read Rcon.isOpen) then Action.fail (.transport "RCON link is closed")

def write (peer : Peer τ) (bytes : List UInt8) : Action (Rcon τ) Duration := fun c =>
  if bytes.isEmpty then (.ok ⟨0⟩, c)
  else if c.interrupted then (.error (.transport "Broken pipe (os error 32)"), c)
  else
    let ((answer, elapsed), peer) := peer bytes c.peer
    (.ok elapsed, { c with peer, incoming := c.incoming ++ answer, written := c.written ++ bytes })

def finishRead (outcome : Except PacketFault α) (rest : List UInt8) : Action (Rcon τ) α := fun c =>
  match outcome with
  | .ok a => (.ok a, { c with incoming := rest })
  | .error fault =>
    (.error (.transport fault.message),
      { c with incoming := rest, starved := c.starved || fault == .endOfInput })

/-- Passes over packets until the answer to the authentication: whether it was accepted. -/
def authAnswer (bytes : List UInt8) : Except PacketFault Bool × List UInt8 :=
  match h : Packet.read bytes with
  | (.error fault, rest) => (.error fault, rest)
  | (.ok p, rest) =>
    have := Packet.read_length h
    if p.kind = authResponseKind then (.ok (p.id != -1), rest) else authAnswer rest
termination_by bytes.length

def authenticate (peer : Peer τ) (password : String) : Action (Rcon τ) Unit := do
  let id ← allocateId
  let _ ← write peer (Packet.toBytes ⟨id, authKind, password⟩)
  let (answer, rest) := authAnswer (← Action.read Rcon.incoming)
  if !(← finishRead answer rest) then Action.fail (.transport "RCON authentication rejected")

/-- Reads packets until there is one for every id; bodies of the same id are joined and packets
with other ids are passed over. -/
def collect (ids : List Int32) (bodies : List (Int32 × String)) (bytes : List UInt8) :
    Except PacketFault (List (Int32 × String)) × List UInt8 :=
  if bodies.length < ids.length then
    match h : Packet.read bytes with
    | (.error fault, rest) => (.error fault, rest)
    | (.ok p, rest) =>
      have := Packet.read_length h
      if ids.contains p.id then
        let body := (Assoc.get? p.id bodies).getD "" ++ p.body
        collect ids (Assoc.put p.id body bodies) rest
      else collect ids bodies rest
  else (.ok bodies, bytes)
termination_by bytes.length

def allocate (tags : List String) : Action (Rcon τ) (List (Int32 × String)) :=
  tags.mapM fun tag => do return (← allocateId, tag)

/-- Sends tagged commands together; returns their tagged replies and the time they took. -/
def exchange (peer : Peer τ) (commands : List (String × String)) :
    Action (Rcon τ) (List (String × String) × Duration) := do
  let tagged ← allocate (Assoc.keys commands)
  requireOpen
  let packets := (tagged.zip commands).map fun ((id, _), (_, text)) => Packet.toBytes ⟨id, commandKind, text⟩
  let elapsed ← write peer packets.flatten
  let (answer, rest) := collect (Assoc.keys tagged) [] (← Action.read Rcon.incoming)
  let bodies ← finishRead answer rest
  return (tagged.map fun (id, tag) => (tag, (Assoc.get? id bodies).getD ""), elapsed)

def send (peer : Peer τ) (command : String) : Action (Rcon τ) LinkReply := do
  let (replies, elapsed) ← exchange peer [("", command)]
  match replies with
  | (_, text) :: _ => return ⟨text, elapsed⟩
  | [] => Action.fail (.transport "no reply to command")

def sendBatch (peer : Peer τ) (commands : List (String × String)) : Action (Rcon τ) (List (String × String)) := do
  return (← exchange peer commands).1

def close : Action (Rcon τ) Unit := .modify fun c => { c with isOpen := false }

def interrupt : Action (Rcon τ) Unit :=
  .modify fun c => { c with interrupted := true }

/-- A request that is broken off finds the connection ended. -/
def interruptedRequest : Action (Rcon τ) LinkReply := do
  interrupt
  Action.fail (.transport PacketFault.endOfInput.message)

def link (peer : Peer τ) : Link (Rcon τ) where
  send := send peer
  sendBatch := sendBatch peer
  close := close
  interrupt := some interruptedRequest

def connect (peer : Peer τ) (password : String) (connectTimeout readTimeout : Nat) : Action (Rcon τ) Unit := do
  if connectTimeout = 0 ∨ readTimeout = 0 then
    Action.fail (.transport "cannot set a 0 duration timeout")
  authenticate peer password

end Rcon

end RemoteConsole
