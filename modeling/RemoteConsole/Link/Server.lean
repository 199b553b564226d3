import RemoteConsole.Link.Rcon
import RemoteConsole.Link.Scripted

/-!
# Scripted RCON servers

A server checks the password and answers commands by rules. A rule that gives no reply makes it
hang up.
-/

namespace RemoteConsole

structure Server where
  rules : List Rule
  password : String
  received : List String
  hungUp : Bool

namespace Server

def new (rules : List Rule) (password : String) : Server := ⟨rules, password, [], false⟩

/-- Answers the authentication: an empty packet, and one with the id or with a refusal. -/
def authenticate (p : Packet) (s : Server) : List UInt8 :=
  let id := if p.body = s.password then p.id else -1
  Packet.toBytes ⟨p.id, 0, ""⟩ ++ Packet.toBytes ⟨id, Rcon.authResponseKind, ""⟩

def receive (p : Packet) (s : Server) : List UInt8 × Server :=
  if s.hungUp then ([], s)
  else if p.kind = Rcon.authKind then (s.authenticate p, s)
  else
    let (outcome, rules) := Scripted.respond p.body s.rules
    let s := { s with rules, received := s.received ++ [p.body] }
    match outcome with
    | .ok (some text) => (Packet.toBytes ⟨p.id, 0, text⟩, s)
    | _ => ([], { s with hungUp := true })

def receiveAll (bytes : List UInt8) (s : Server) : List UInt8 × Server :=
  match h : Packet.read bytes with
  | (.ok p, rest) =>
    have := Packet.read_length h
    let (first, s) := s.receive p
    let (later, s) := receiveAll rest s
    (first ++ later, s)
  | (.error _, _) => ([], s)
termination_by bytes.length

def peer : Peer Server := fun bytes s =>
  let (answer, s) := s.receiveAll bytes
  ((answer, ⟨1000⟩), s)

end Server

end RemoteConsole
