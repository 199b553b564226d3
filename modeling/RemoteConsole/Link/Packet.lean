import RemoteConsole.Text.Utf8

/-!
# RCON packets

A packet is its size, an id, a kind and a body, the numbers as 32 bits with the least significant
byte first; two zero bytes follow the body. The size counts what comes after it.
-/

namespace RemoteConsole

-- powers are the built-in ones, whatever algebra is in scope
attribute [instance(high), default_instance(high + 1)] instPowNat

structure Packet where
  id : Int32
  kind : Int32
  body : String
deriving DecidableEq, Repr

inductive PacketFault where
  | invalidSize (size : Int)
  | endOfInput
deriving DecidableEq, Repr

def PacketFault.message : PacketFault → String
  | invalidSize size => s!"invalid RCON packet size {size}"
  | endOfInput => "failed to fill whole buffer"

def littleEndian (n : Int32) : List UInt8 :=
  let w := n.toUInt32.toNat
  [UInt8.ofNat w, UInt8.ofNat (w / 2 ^ 8), UInt8.ofNat (w / 2 ^ 16), UInt8.ofNat (w / 2 ^ 24)]

def ofLittleEndian (a b c d : UInt8) : Int32 :=
  (UInt32.ofNat (a.toNat + 2 ^ 8 * (b.toNat + 2 ^ 8 * (c.toNat + 2 ^ 8 * d.toNat)))).toInt32

namespace Packet

def overhead : Nat := 10

def maxSize : Nat := 4096 * 1024

def toBytes (p : Packet) : List UInt8 :=
  let body := p.body.toUTF8.toList
  littleEndian (Int32.ofInt (body.length + overhead)) ++ littleEndian p.id ++ littleEndian p.kind
    ++ body ++ [0, 0]

def ofContent? : List UInt8 → Option Packet
  | a :: b :: c :: d :: e :: f :: g :: h :: rest =>
    let body := Text.Utf8.decodeLossy (rest.take (rest.length - 2))
    some ⟨ofLittleEndian a b c d, ofLittleEndian e f g h, String.ofList body⟩
  | _ => none

/-- Reads a packet; returns what follows it, or what is left after the fault. -/
def read : List UInt8 → Except PacketFault Packet × List UInt8
  | a :: b :: c :: d :: rest =>
    let size := (ofLittleEndian a b c d).toInt
    if size < overhead ∨ size > maxSize then (.error (.invalidSize size), rest)
    else if rest.length < size.toNat then (.error .endOfInput, [])
    else match ofContent? (rest.take size.toNat) with
      | some p => (.ok p, rest.drop size.toNat)
      | none => (.error .endOfInput, [])
  | _ => (.error .endOfInput, [])

theorem read_length {bytes rest : List UInt8} {p : Packet} (h : read bytes = (.ok p, rest)) :
    rest.length < bytes.length := by
  unfold read at h
  split at h
  · simp only at h
    repeat' split at h
    all_goals simp only [Prod.mk.injEq, reduceCtorEq, false_and] at h
    obtain ⟨_, rfl⟩ := h
    simp only [List.length_drop, List.length_cons]
    omega
  · simp at h

end Packet

end RemoteConsole
