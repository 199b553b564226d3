import Mathlib.Data.List.Perm.Subperm
import RemoteConsole.Link.Rcon
import RemoteConsole.Proofs.Assoc
import RemoteConsole.Proofs.Link.Packet

/-!
# Collecting answers

Packets are read until there is one for every id that is waited for. What has been collected by
then is, for each of these ids, the bodies of its packets in the order in which they were read.
-/

namespace RemoteConsole.Rcon

open Packet (Reads stream)

def gather (ids : List Int32) (bodies : List (Int32 × String)) (p : Packet) : List (Int32 × String) :=
  if ids.contains p.id then Assoc.put p.id ((Assoc.get? p.id bodies).getD "" ++ p.body) bodies else bodies

def gathered (ids : List Int32) (packets : List Packet) : List (Int32 × String) := packets.foldl (gather ids) []

/-- The bodies of the packets that carry an id, joined in order. -/
def joined (id : Int32) (packets : List Packet) : String :=
  String.join ((packets.filter fun p => p.id == id).map Packet.body)

/-! ## The loop -/

theorem collect_full {ids : List Int32} {bodies : List (Int32 × String)} (h : ¬ bodies.length < ids.length)
    (bytes : List UInt8) : collect ids bodies bytes = (.ok bodies, bytes) := by
  rw [collect, if_neg h]

theorem collect_packet {ids : List Int32} {bodies : List (Int32 × String)} (h : bodies.length < ids.length)
    {bytes rest : List UInt8} {p : Packet} (hread : Packet.read bytes = (.ok p, rest)) :
    collect ids bodies bytes = collect ids (gather ids bodies p) rest := by
  rw [collect, if_pos h, gather]
  split
  · rename_i fault _ hfault
    rw [hread] at hfault
    cases hfault
  · rename_i q rest' hread'
    obtain ⟨rfl, rfl⟩ : p = q ∧ rest = rest' := by simpa using hread.symm.trans hread'
    split
    · rfl
    · rfl

theorem collect_fault {ids : List Int32} {bodies : List (Int32 × String)} (h : bodies.length < ids.length)
    {bytes rest : List UInt8} {fault : PacketFault} (hread : Packet.read bytes = (.error fault, rest)) :
    collect ids bodies bytes = (.error fault, rest) := by
  rw [collect, if_pos h]
  split
  · rename_i fault' rest' hfault
    obtain ⟨rfl, rfl⟩ : fault = fault' ∧ rest = rest' := by simpa using hread.symm.trans hfault
    rfl
  · rename_i q rest' hread'
    rw [hread] at hread'
    cases hread'

theorem exists_reads_of_collect {ids : List Int32} {result : List (Int32 × String)} {rest : List UInt8} :
    ∀ {bytes : List UInt8} {bodies : List (Int32 × String)}, collect ids bodies bytes = (.ok result, rest) →
      ∃ packets, Reads bytes packets rest ∧ result = packets.foldl (gather ids) bodies := by
  intro bytes
  induction hn : bytes.length using Nat.strongRecOn generalizing bytes with
  | ind n ih =>
    intro bodies h
    by_cases hless : bodies.length < ids.length
    · cases hread : Packet.read bytes with
      | mk outcome middle =>
        cases outcome with
        | error fault =>
          rw [collect_fault hless hread] at h
          cases h
        | ok p =>
          rw [collect_packet hless hread] at h
          have hshort : middle.length < n := hn ▸ Packet.read_length hread
          obtain ⟨packets, hreads, hresult⟩ := ih _ hshort rfl h
          exact ⟨p :: packets, .cons hread hreads, hresult⟩
    · rw [collect_full hless] at h
      cases h
      exact ⟨[], .nil _, rfl⟩

/-! ## What is gathered -/

theorem joined_cons (id : Int32) (p : Packet) (packets : List Packet) :
    joined id (p :: packets) = (if p.id = id then p.body else "") ++ joined id packets := by
  by_cases h : p.id = id
  · simp [joined, h]
  · simp [joined, h]

theorem get?_gather {ids : List Int32} {id : Int32} (hid : id ∈ ids) (bodies : List (Int32 × String)) (p : Packet) :
    (Assoc.get? id (gather ids bodies p)).getD "" =
      (Assoc.get? id bodies).getD "" ++ (if p.id = id then p.body else "") := by
  unfold gather
  by_cases h : p.id = id
  · rw [h, if_pos (List.contains_iff_mem.mpr hid), Assoc.get?_put_self, if_pos rfl]
    rfl
  · rw [if_neg h, String.append_empty]
    split
    · rw [Assoc.get?_put_ne (Ne.symm h)]
    · rfl

theorem get?_foldl_gather {ids : List Int32} {id : Int32} (hid : id ∈ ids) :
    ∀ (packets : List Packet) (bodies : List (Int32 × String)),
      (Assoc.get? id (packets.foldl (gather ids) bodies)).getD "" = (Assoc.get? id bodies).getD "" ++ joined id packets
  | [], bodies => by simp [joined]
  | p :: packets, bodies => by
    rw [List.foldl_cons, get?_foldl_gather hid packets, get?_gather hid, joined_cons, String.append_assoc]

theorem get?_gathered {ids : List Int32} {id : Int32} (hid : id ∈ ids) (packets : List Packet) :
    (Assoc.get? id (gathered ids packets)).getD "" = joined id packets := by
  rw [gathered, get?_foldl_gather hid, Assoc.get?, Option.getD_none, String.empty_append]

theorem gathered_snoc (ids : List Int32) (packets : List Packet) (p : Packet) :
    gathered ids (packets ++ [p]) = gather ids (gathered ids packets) p := by
  rw [gathered, List.foldl_append]
  rfl

theorem nodup_gathered (ids : List Int32) (packets : List Packet) : (Assoc.keys (gathered ids packets)).Nodup := by
  induction packets using List.reverseRecOn with
  | nil => exact List.nodup_nil
  | append_singleton packets p ih =>
    rw [gathered_snoc, gather]
    split
    · exact Assoc.nodup_put _ ih
    · exact ih

theorem mem_gathered {ids : List Int32} {packets : List Packet} {id : Int32} :
    id ∈ Assoc.keys (gathered ids packets) ↔ id ∈ ids ∧ id ∈ packets.map Packet.id := by
  induction packets using List.reverseRecOn with
  | nil => simp [gathered]
  | append_singleton packets p ih =>
    rw [gathered_snoc, gather, List.map_append, List.mem_append, and_or_left, ← ih, List.map_singleton,
      List.mem_singleton]
    by_cases hp : p.id ∈ ids
    · rw [if_pos (List.contains_iff_mem.mpr hp), Assoc.mem_keys_put, or_comm]
      refine or_congr_right ⟨?_, And.right⟩
      rintro rfl
      exact ⟨hp, rfl⟩
    · rw [if_neg (by simpa using hp)]
      refine (or_iff_left ?_).symm
      rintro ⟨hid, rfl⟩
      exact hp hid

/-! ## When to stop -/

def Answered (ids : List Int32) (packets : List Packet) : Prop := ∀ id ∈ ids, id ∈ packets.map Packet.id

instance (ids : List Int32) (packets : List Packet) : Decidable (Answered ids packets) :=
  List.decidableBAll (fun id => id ∈ packets.map Packet.id) ids

theorem Answered.mono {ids : List Int32} {packets : List Packet} (h : Answered ids packets) (more : List Packet) :
    Answered ids (packets ++ more) := by
  intro id hid
  rw [List.map_append]
  exact List.mem_append_left _ (h id hid)

theorem answered_iff {ids : List Int32} (hids : ids.Nodup) (packets : List Packet) :
    Answered ids packets ↔ ¬ (gathered ids packets).length < ids.length := by
  have hkeys : (Assoc.keys (gathered ids packets)).length = (gathered ids packets).length := List.length_map _
  rw [← hkeys, Nat.not_lt]
  constructor
  · intro h
    refine (List.Nodup.subperm hids fun id hid => ?_).length_le
    exact mem_gathered.mpr ⟨hid, h id hid⟩
  · intro h id hid
    have hsub : Assoc.keys (gathered ids packets) ⊆ ids := fun id hid => (mem_gathered.mp hid).1
    have hperm := (List.Nodup.subperm (nodup_gathered ids packets) hsub).perm_of_length_le h
    exact (mem_gathered.mp (hperm.mem_iff.mpr hid)).2

/-- Packets are read up to the first one that leaves no id without an answer. -/
theorem collect_stream {ids : List Int32} (hids : ids.Nodup) (rest : List UInt8) :
    ∀ {packets front : List Packet}, (∀ p ∈ packets, p.Fits) → Answered ids (front ++ packets) →
      (∀ before p after, packets = before ++ p :: after → ¬ Answered ids (front ++ before)) →
      collect ids (gathered ids front) (stream packets ++ rest) = (.ok (gathered ids (front ++ packets)), rest)
  | [], front, _, hall, _ => by
    rw [List.append_nil] at hall ⊢
    exact collect_full ((answered_iff hids front).mp hall) rest
  | p :: packets, front, hfits, hall, hnot => by
    obtain ⟨hp, hpackets⟩ := List.forall_mem_cons.mp hfits
    have hless : (gathered ids front).length < ids.length := by
      by_contra h
      have hfront := (answered_iff hids front).mpr h
      exact hnot [] p packets rfl (by rwa [List.append_nil])
    have hread : Packet.read (stream (p :: packets) ++ rest) = (.ok p, stream packets ++ rest) := by
      rw [Packet.stream_cons, List.append_assoc]
      exact Packet.read_toBytes hp _
    rw [collect_packet hless hread, ← gathered_snoc, List.append_cons front p packets]
    refine collect_stream hids rest hpackets (by rwa [← List.append_cons]) fun before q after h => ?_
    rw [List.append_assoc]
    exact hnot (p :: before) q after (by rw [h]; rfl)

/-- The last packet is the first that leaves no id without an answer. -/
def Settles (ids : List Int32) (packets : List Packet) : Prop :=
  Answered ids packets ∧ ∀ before p after, packets = before ++ p :: after → ¬ Answered ids before

theorem collect_settled {ids : List Int32} (hids : ids.Nodup) {packets : List Packet} (hfits : ∀ p ∈ packets, p.Fits)
    (h : Settles ids packets) (rest : List UInt8) :
    collect ids [] (stream packets ++ rest) = (.ok (gathered ids packets), rest) := by
  show collect ids (gathered ids []) (stream packets ++ rest) = (.ok (gathered ids ([] ++ packets)), rest)
  exact collect_stream hids rest hfits h.1 h.2

theorem prefix_of_append_cons {α : Type} {init before after : List α} {last a : α}
    (h : init ++ [last] = before ++ a :: after) : before <+: init := by
  refine List.prefix_of_prefix_length_le ⟨a :: after, h.symm⟩ (List.prefix_append init [last]) ?_
  have hlength := congrArg List.length h
  simp only [List.length_append, List.length_cons, List.length_nil] at hlength
  omega

theorem Answered.exists_settles {ids : List Int32} {packets : List Packet} (h : Answered ids packets) :
    ∃ front back, packets = front ++ back ∧ Settles ids front := by
  induction packets using List.reverseRecOn with
  | nil => exact ⟨[], [], rfl, h, fun before p after hnil => by simp at hnil⟩
  | append_singleton packets last ih =>
    by_cases hbefore : Answered ids packets
    · obtain ⟨front, back, rfl, hfront⟩ := ih hbefore
      exact ⟨front, back ++ [last], List.append_assoc .., hfront⟩
    · refine ⟨packets ++ [last], [], (List.append_nil _).symm, h, fun before p after hall hans => hbefore ?_⟩
      obtain ⟨more, rfl⟩ := prefix_of_append_cons hall
      exact hans.mono more

theorem settles_iff {ids : List Int32} {packets : List Packet} (h : Answered ids packets) :
    Settles ids packets ↔ ∀ before p, packets = before ++ [p] → p.id ∈ ids ∧ p.id ∉ before.map Packet.id := by
  constructor
  · rintro ⟨-, hfirst⟩ before p rfl
    have hbefore := hfirst before p [] rfl
    unfold Answered at hbefore
    push Not at hbefore
    obtain ⟨id, hid, hunanswered⟩ := hbefore
    have hlast := h id hid
    rw [List.map_append, List.mem_append] at hlast
    obtain rfl : id = p.id := by simpa using hlast.resolve_left hunanswered
    exact ⟨hid, hunanswered⟩
  · intro hlast
    refine ⟨h, fun before q after hall hans => ?_⟩
    obtain ⟨init, p, hp⟩ : ∃ init p, packets = init ++ [p] :=
      (List.eq_nil_or_concat' packets).resolve_left (by rw [hall]; simp)
    obtain ⟨hid, hnew⟩ := hlast init p hp
    obtain ⟨more, rfl⟩ := prefix_of_append_cons (hp.symm.trans hall)
    exact hnew (hans.mono more p.id hid)

theorem settles_snoc {ids : List Int32} (before : List Packet) {p : Packet} (h : Answered ids (before ++ [p]))
    (hid : p.id ∈ ids) (hnew : p.id ∉ before.map Packet.id) : Settles ids (before ++ [p]) := by
  refine (settles_iff h).mpr fun before' p' hsnoc => ?_
  obtain ⟨hbefore, hlast⟩ := List.append_inj' hsnoc rfl
  obtain rfl := List.singleton_inj.mp hlast
  exact ⟨hid, hbefore ▸ hnew⟩

end RemoteConsole.Rcon
