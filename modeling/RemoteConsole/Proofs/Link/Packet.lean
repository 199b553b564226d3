import RemoteConsole.Link.Packet
import RemoteConsole.Proofs.Text.Utf8

/-!
# Packets survive their bytes

The four bytes of a number give it back, the size says where a packet ends, and its body is text.
So packets that are written one after the other are read one after the other, whatever follows.
-/

namespace RemoteConsole

theorem ofLittleEndian_littleEndian {n : Int32} {a b c d : UInt8} (h : littleEndian n = [a, b, c, d]) :
    ofLittleEndian a b c d = n := by
  simp only [littleEndian, List.cons.injEq, and_true] at h
  obtain ⟨rfl, rfl, rfl, rfl⟩ := h
  have hn : n.toUInt32.toNat < 2 ^ 32 := n.toUInt32.toNat_lt
  have hsum : (UInt8.ofNat n.toUInt32.toNat).toNat + 2 ^ 8 * ((UInt8.ofNat (n.toUInt32.toNat / 2 ^ 8)).toNat + 2 ^ 8 *
      ((UInt8.ofNat (n.toUInt32.toNat / 2 ^ 16)).toNat + 2 ^ 8 * (UInt8.ofNat (n.toUInt32.toNat / 2 ^ 24)).toNat)) =
      n.toUInt32.toNat := by
    simp only [UInt8.toNat_ofNat']
    omega
  rw [ofLittleEndian, hsum, UInt32.ofNat_toNat, Int32.toInt32_toUInt32]

theorem exists_littleEndian (n : Int32) : ∃ a b c d, littleEndian n = [a, b, c, d] ∧ ofLittleEndian a b c d = n :=
  ⟨_, _, _, _, rfl, ofLittleEndian_littleEndian rfl⟩

namespace Packet

/-- The reader takes the packet: its body and the overhead are not too long. -/
def Fits (p : Packet) : Prop := p.body.toUTF8.toList.length + overhead ≤ maxSize

theorem fits_iff (p : Packet) : (Text.Utf8.encode p.body.toList).length + overhead ≤ maxSize ↔ p.Fits := by
  rw [Fits, Text.Utf8.toList_toUTF8]

instance (p : Packet) : Decidable p.Fits := decidable_of_iff _ p.fits_iff

def content (p : Packet) : List UInt8 := littleEndian p.id ++ littleEndian p.kind ++ p.body.toUTF8.toList ++ [0, 0]

theorem toBytes_eq (p : Packet) :
    p.toBytes = littleEndian (Int32.ofInt (p.body.toUTF8.toList.length + overhead)) ++ p.content := by
  simp only [toBytes, content, List.append_assoc]

theorem toBytes_ne_nil (p : Packet) : p.toBytes ≠ [] := by
  rw [toBytes_eq]
  exact List.cons_ne_nil _ _

theorem length_content (p : Packet) : p.content.length = p.body.toUTF8.toList.length + overhead := by
  simp [content, littleEndian, overhead]

theorem ofContent?_content (p : Packet) : ofContent? p.content = some p := by
  obtain ⟨a, b, c, d, hid, hofId⟩ := exists_littleEndian p.id
  obtain ⟨e, f, g, h, hkind, hofKind⟩ := exists_littleEndian p.kind
  have hbody : (p.body.toUTF8.toList ++ [0, 0]).take ((p.body.toUTF8.toList ++ [0, 0]).length - 2) =
      p.body.toUTF8.toList := by
    rw [List.length_append]
    exact List.take_left
  rw [content, hid, hkind]
  show some (Packet.mk (ofLittleEndian a b c d) (ofLittleEndian e f g h) (String.ofList (Text.Utf8.decodeLossy
    ((p.body.toUTF8.toList ++ [0, 0]).take ((p.body.toUTF8.toList ++ [0, 0]).length - 2))))) = some p
  rw [hofId, hofKind, hbody, Text.Utf8.toList_toUTF8, Text.Utf8.decodeLossy_encode, String.ofList_toList]

theorem read_toBytes {p : Packet} (hp : p.Fits) (rest : List UInt8) : read (p.toBytes ++ rest) = (.ok p, rest) := by
  obtain ⟨a, b, c, d, hsize, hofSize⟩ := exists_littleEndian (Int32.ofInt (p.body.toUTF8.toList.length + overhead))
  have hfits : p.body.toUTF8.toList.length + overhead ≤ maxSize := hp
  have hlength := p.length_content
  have hint : (ofLittleEndian a b c d).toInt = p.content.length := by
    have hmax : maxSize < 2 ^ 31 := by decide
    rw [hofSize, Int32.toInt_ofInt_of_le (by omega) (by omega), hlength]
    omega
  rw [toBytes_eq, hsize]
  show read (a :: b :: c :: d :: (p.content ++ rest)) = _
  unfold read
  simp only [hint]
  rw [if_neg (by omega), if_neg (by simp), Int.toNat_natCast, List.take_left, ofContent?_content, List.drop_left]

/-! ## One after the other -/

def stream (packets : List Packet) : List UInt8 := packets.flatMap toBytes

theorem stream_cons (p : Packet) (packets : List Packet) : stream (p :: packets) = p.toBytes ++ stream packets := rfl

theorem stream_append (packets more : List Packet) : stream (packets ++ more) = stream packets ++ stream more :=
  List.flatMap_append

theorem stream_eq_nil : ∀ {packets : List Packet}, stream packets = [] → packets = []
  | [], _ => rfl
  | p :: packets, h => by
    rw [stream_cons] at h
    exact absurd (List.append_eq_nil_iff.mp h).1 p.toBytes_ne_nil

/-- Read from these bytes one after the other, the packets come out and the rest is left. -/
inductive Reads : List UInt8 → List Packet → List UInt8 → Prop
  | nil (bytes : List UInt8) : Reads bytes [] bytes
  | cons {bytes middle rest : List UInt8} {p : Packet} {packets : List Packet} :
    read bytes = (.ok p, middle) → Reads middle packets rest → Reads bytes (p :: packets) rest

theorem Reads.of_stream {bytes rest : List UInt8} {packets : List Packet} (h : Reads bytes packets rest) :
    ∀ {all : List Packet}, (∀ p ∈ all, p.Fits) → bytes = stream all →
      ∃ later, all = packets ++ later ∧ rest = stream later := by
  induction h with
  | nil bytes => exact fun {all} _ hbytes => ⟨all, rfl, hbytes⟩
  | @cons bytes middle rest p packets hread _ ih =>
    intro all hall hbytes
    subst hbytes
    cases all with
    | nil => cases hread
    | cons q all =>
      obtain ⟨hq, hall⟩ := List.forall_mem_cons.mp hall
      rw [stream_cons, read_toBytes hq] at hread
      obtain ⟨rfl, rfl⟩ : q = p ∧ stream all = middle := by simpa using hread
      obtain ⟨later, rfl, hrest⟩ := ih hall rfl
      exact ⟨later, rfl, hrest⟩

end Packet

end RemoteConsole
