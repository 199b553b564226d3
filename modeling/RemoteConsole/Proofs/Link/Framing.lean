import RemoteConsole.Proofs.Link.Packet

/-!
# Frames

A packet is read by positions: two numbers at the front, two bytes at the end,
and the body between them. The size is looked at before anything else, so the
positions are there whenever they are read. A reader therefore ends in one of
four ways (`read_frames`), and what it takes is always a size and as many bytes.
-/

namespace RemoteConsole.Packet

/-! ## Positions -/

def numberAt? (bytes : List UInt8) (i : Nat) : Option Int32 := do
  return ofLittleEndian (← bytes[i]?) (← bytes[i + 1]?) (← bytes[i + 2]?) (← bytes[i + 3]?)

def slice? (bytes : List UInt8) (first last : Nat) : Option (List UInt8) :=
  if first ≤ last ∧ last ≤ bytes.length then some ((bytes.take last).drop first) else none

def backwards? (bytes : List UInt8) (n : Nat) : Option Nat :=
  if n ≤ bytes.length then some (bytes.length - n) else none

/-- The packet that a content is by its positions; there is none as soon as one is out of range. -/
def atPositions? (content : List UInt8) : Option Packet := do
  let id ← numberAt? content 0
  let kind ← numberAt? content 4
  let body ← slice? content 8 (← backwards? content 2)
  return ⟨id, kind, String.ofList (Text.Utf8.decodeLossy body)⟩

theorem exists_atPositions {content : List UInt8} (h : overhead ≤ content.length) :
    ∃ p, atPositions? content = some p ∧ ofContent? content = some p := by
  unfold overhead at h
  match content, h with
  | a :: b :: c :: d :: e :: f :: g :: i :: rest, h =>
    have htwo : 2 ≤ rest.length := by simpa using h
    refine ⟨_, ?_, rfl⟩
    have hlast : backwards? (a :: b :: c :: d :: e :: f :: g :: i :: rest) 2 = some (rest.length - 2 + 8) := by
      unfold backwards?
      rw [if_pos (by simp)]
      simp only [List.length_cons]
      congr 1
      omega
    have hbody : slice? (a :: b :: c :: d :: e :: f :: g :: i :: rest) 8 (rest.length - 2 + 8) =
        some (rest.take (rest.length - 2)) := by
      unfold slice?
      rw [if_pos (by simp)]
      rfl
    unfold atPositions?
    rw [hlast, Option.bind_eq_bind, Option.bind_eq_bind]
    simp only [Option.bind_eq_bind, Option.bind_some, hbody]
    rfl

/-! ## Reading one frame -/

/-- How reading ends. A fault names a size that is not allowed, or the bytes do not suffice;
otherwise the size and as many bytes are taken, and they are the packet by their positions. -/
inductive Frame : List UInt8 → Except PacketFault Packet × List UInt8 → Prop
  | unsized {bytes : List UInt8} : bytes.length < 4 → Frame bytes (.error .endOfInput, [])
  | refused {a b c d : UInt8} {rest : List UInt8} {size : Int} : (ofLittleEndian a b c d).toInt = size →
    size < overhead ∨ size > maxSize → Frame (a :: b :: c :: d :: rest) (.error (.invalidSize size), rest)
  | cut {a b c d : UInt8} {rest : List UInt8} {size : Nat} : (ofLittleEndian a b c d).toInt = size →
    overhead ≤ size → size ≤ maxSize → rest.length < size → Frame (a :: b :: c :: d :: rest) (.error .endOfInput, [])
  | whole {a b c d : UInt8} {content rest : List UInt8} {p : Packet} :
    (ofLittleEndian a b c d).toInt = content.length → overhead ≤ content.length → content.length ≤ maxSize →
    atPositions? content = some p → Frame (a :: b :: c :: d :: (content ++ rest)) (.ok p, rest)

theorem read_frames (bytes : List UInt8) : Frame bytes (read bytes) := by
  match bytes with
  | [] | [_] | [_, _] | [_, _, _] => exact .unsized (by simp)
  | a :: b :: c :: d :: rest =>
    unfold read
    simp only
    split
    next h => exact .refused rfl h
    next h =>
      obtain ⟨size, hsize⟩ := Int.eq_ofNat_of_zero_le (show 0 ≤ (ofLittleEndian a b c d).toInt by omega)
      rw [hsize] at h ⊢
      simp only [Int.toNat_natCast]
      split
      next hshort => exact .cut hsize (by omega) (by omega) hshort
      next hlong =>
        have hlength : (rest.take size).length = size := List.length_take_of_le (by omega)
        obtain ⟨p, hpositions, hcontent⟩ := exists_atPositions (show overhead ≤ (rest.take size).length by omega)
        rw [hcontent]
        have hwhole : Frame (a :: b :: c :: d :: (rest.take size ++ rest.drop size)) (.ok p, rest.drop size) :=
          .whole (by rw [hlength, hsize]) (by omega) (by omega) hpositions
        rwa [List.take_append_drop] at hwhole

/-! ## Reading one after the other -/

theorem reads_stream (rest : List UInt8) : ∀ {packets : List Packet}, (∀ p ∈ packets, p.Fits) →
    Reads (stream packets ++ rest) packets rest
  | [], _ => .nil rest
  | p :: packets, h => by
    obtain ⟨hp, hpackets⟩ := List.forall_mem_cons.mp h
    rw [stream_cons, List.append_assoc]
    exact .cons (read_toBytes hp _) (reads_stream rest hpackets)

theorem Reads.unique {bytes rest : List UInt8} {packets : List Packet} (h : Reads bytes packets rest) :
    ∀ {packets' : List Packet} {rest' : List UInt8}, Reads bytes packets' rest' →
      packets'.length = packets.length → packets' = packets ∧ rest' = rest := by
  induction h with
  | nil bytes =>
    intro packets' rest' h' hlength
    cases h' with
    | nil => exact ⟨rfl, rfl⟩
    | cons => cases hlength
  | cons hread _ ih =>
    intro packets' rest' h' hlength
    cases h' with
    | nil => cases hlength
    | cons hread' hrest' =>
      rw [hread] at hread'
      cases hread'
      obtain ⟨rfl, rfl⟩ := ih hrest' (Nat.succ.inj hlength)
      exact ⟨rfl, rfl⟩

/-- **Framing loses nothing.** Whatever follows the bytes of packets that fit, reading as many packets gives these
and leaves just what follows. And whatever the bytes are, reading fails or takes a frame, with every position of
the frame in range. -/
theorem framing {packets : List Packet} (hfits : ∀ p ∈ packets, p.Fits) (rest : List UInt8) :
    (∀ got left, got.length = packets.length →
      (Reads (stream packets ++ rest) got left ↔ got = packets ∧ left = rest)) ∧
    ∀ bytes, Frame bytes (read bytes) := by
  have hstream := reads_stream rest hfits
  refine ⟨fun got left hlength => ⟨fun hgot => hstream.unique hgot hlength, ?_⟩, read_frames⟩
  rintro ⟨rfl, rfl⟩
  exact hstream

/-- Negative numbers and nul characters pass, and half a packet stays where it is. -/
theorem framing_pair :
    let packets : List Packet := [⟨-1, 3, "a\x00b"⟩, ⟨7, -2, ""⟩]
    (∀ p ∈ packets, p.Fits) ∧ Reads (stream packets ++ [23, 0]) packets [23, 0] := by
  intro packets
  have hfits : ∀ p ∈ packets, p.Fits := by decide +kernel
  exact ⟨hfits, ((framing hfits [23, 0]).1 packets [23, 0] rfl).mpr ⟨rfl, rfl⟩⟩

end RemoteConsole.Packet
