import RemoteConsole.Proofs.Link.Exchange

/-!
# Replies

A call takes replies from the packets that it reads, by the ids of its own commands. It reads no
further than the first packet of the id that is answered last.
-/

namespace RemoteConsole.Rcon

open Packet (Reads stream)

variable {τ : Type}

inductive Call where
  | send (command : String)
  | batch (commands : List (String × String))

namespace Call

def commands : Call → List (String × String)
  | send command => [("", command)]
  | batch commands => commands

def run (peer : Peer τ) : Call → Action (Rcon τ) (List (String × String))
  | send command => do return [("", (← Rcon.send peer command).text)]
  | batch commands => sendBatch peer commands

def ids (call : Call) (c : Rcon τ) : List Int32 := allotted call.commands.length c.nextId

theorem length_ids (call : Call) (c : Rcon τ) : (call.ids c).length = (Assoc.keys call.commands).length := by
  rw [ids, length_allotted, Assoc.keys, List.length_map]

theorem run_eq (peer : Peer τ) (call : Call) (c : Rcon τ) :
    call.run peer c = ((exchange peer call.commands c).1.map Prod.fst, (exchange peer call.commands c).2) := by
  cases call with
  | batch commands => exact Action.bind_pure_eq (exchange peer commands) Prod.fst c
  | send command =>
    rw [run, commands, Rcon.send, bind_assoc]
    cases h : exchange peer [("", command)] c with
    | mk outcome c' =>
      cases outcome with
      | ok r =>
        obtain ⟨replies, elapsed⟩ := r
        rw [Action.bind_ok h]
        rw [exchange_eq] at h
        -- an exchange of one command has one reply
        obtain ⟨d, bodies, rest, -, -, rfl, -⟩ := exists_of_complete h
        rfl
      | error e => exact Action.bind_error h
      | crash k => exact Action.bind_crash h

end Call

/-- The bytes that lie ready once the commands of a call are written. -/
def arrivals (peer : Peer τ) (call : Call) (c : Rcon τ) : List UInt8 :=
  (write peer (requests (call.ids c) call.commands) c).2.incoming

/-- The replies that packets make for commands, each under its tag. -/
def replies (ids : List Int32) (commands : List (String × String)) (packets : List Packet) : List (String × String) :=
  (ids.zip (Assoc.keys commands)).map fun (id, tag) => (tag, joined id packets)

theorem paired_gathered (ids : List Int32) (commands : List (String × String)) (packets : List Packet) :
    paired ids commands (gathered ids packets) = replies ids commands packets := by
  refine List.map_congr_left fun (id, tag) h => ?_
  exact congrArg (Prod.mk tag) (get?_gathered (List.of_mem_zip h).1 packets)

section
variable {peer : Peer τ} {call : Call} {c c' : Rcon τ}

theorem keys_replies (packets : List Packet) :
    Assoc.keys (replies (call.ids c) call.commands packets) = Assoc.keys call.commands := by
  have hzip := List.map_snd_zip (Nat.le_of_eq (call.length_ids c).symm)
  rwa [replies, Assoc.keys, List.map_map]

theorem bodies_replies (packets : List Packet) :
    (replies (call.ids c) call.commands packets).map Prod.snd = (call.ids c).map fun id => joined id packets := by
  have hzip := congrArg (List.map fun id => joined id packets) (List.map_fst_zip (Nat.le_of_eq (call.length_ids c)))
  rw [List.map_map] at hzip
  rwa [replies, List.map_map]

theorem run_settled {packets : List Packet} {later : List UInt8} (hopen : c.isOpen = true)
    (hline : c.interrupted = false) (hids : (call.ids c).Nodup) (hfits : ∀ p ∈ packets, p.Fits)
    (hsettled : Settles (call.ids c) packets)
    (harrivals : arrivals peer call c = stream packets ++ later) :
    call.run peer c = (.ok (replies (call.ids c) call.commands packets),
      { (write peer (requests (call.ids c) call.commands) c).2 with
        nextId := successor^[call.commands.length] c.nextId, incoming := later }) := by
  have hwrite := write_nextId peer (requests (call.ids c) call.commands)
    (successor^[call.commands.length] c.nextId) c
  obtain ⟨elapsed, d, hd⟩ := write_ok peer (requests (call.ids c) call.commands) hline
  have hcollect := collect_settled hids hfits hsettled later
  rw [← harrivals, arrivals] at hcollect
  rw [hd] at hwrite hcollect
  have hcomplete := complete_ok (c := { c with nextId := successor^[call.commands.length] c.nextId })
    hopen hwrite hcollect
  rw [Call.run_eq, exchange_eq, ← Call.ids, hcomplete, paired_gathered, hd]
  rfl

theorem exists_of_run {result : List (String × String)} (h : call.run peer c = (.ok result, c')) :
    ∃ bodies, collect (call.ids c) [] (arrivals peer call c) = (.ok bodies, c'.incoming) ∧
      result = paired (call.ids c) call.commands bodies ∧
      c'.written = c.written ++ requests (call.ids c) call.commands := by
  rw [Call.run_eq] at h
  cases hexchange : exchange peer call.commands c with
  | mk outcome d =>
    rw [hexchange] at h
    cases outcome with
    | error e => cases h
    | crash k => cases h
    | ok r =>
      cases h
      rw [exchange_eq, ← Call.ids] at hexchange
      obtain ⟨d, bodies, rest, hwrite, hcollect, hresult, rfl⟩ := exists_of_complete hexchange
      have hwritten := written_of_write hwrite
      rw [write_nextId] at hwrite
      obtain ⟨-, rfl⟩ := Prod.mk.inj hwrite
      exact ⟨bodies, hcollect, hresult, hwritten⟩

end

/-! ## A quiet line -/

def silent : Peer Unit := fun _ p => (([], ⟨0⟩), p)

def quiet (packets : List Packet) (written : List UInt8) (nextId : Int32) : Rcon Unit :=
  ⟨(), stream packets, written, false, nextId, true, false⟩

theorem write_quiet (bytes : List UInt8) (packets : List Packet) (written : List UInt8) (id : Int32) :
    write silent bytes (quiet packets written id) = (.ok ⟨0⟩, quiet packets (written ++ bytes) id) := by
  unfold write
  split
  · rename_i hempty
    rw [List.isEmpty_iff.mp hempty, List.append_nil]
  · simp [quiet, silent]

theorem arrivals_quiet (call : Call) (packets : List Packet) (written : List UInt8) (id : Int32) :
    arrivals silent call (quiet packets written id) = stream packets := by
  rw [arrivals, write_quiet]
  rfl

theorem run_quiet (call : Call) (packets later : List Packet) (written : List UInt8) (id : Int32)
    (hids : (allotted call.commands.length id).Nodup) (hfits : ∀ p ∈ packets, p.Fits)
    (hsettled : Settles (allotted call.commands.length id) packets) :
    call.run silent (quiet (packets ++ later) written id) =
      (.ok (replies (allotted call.commands.length id) call.commands packets),
        quiet later (written ++ requests (allotted call.commands.length id) call.commands)
          (successor^[call.commands.length] id)) := by
  have harrivals :=
    (arrivals_quiet call (packets ++ later) written id).trans (Packet.stream_append packets later)
  have hrun := run_settled (c := quiet (packets ++ later) written id) rfl rfl hids hfits hsettled harrivals
  rw [write_quiet] at hrun
  exact hrun

section
variable {peer : Peer τ} {call : Call} {c c' : Rcon τ}

/-- The packets of a call end up in its replies, and none of them is left behind, exactly if the
last of them is the only one with its id. -/
theorem run_whole_iff {packets : List Packet} {later : List UInt8} (hopen : c.isOpen = true)
    (hline : c.interrupted = false) (hcount : call.commands.length < 2 ^ 31) (hfits : ∀ p ∈ packets, p.Fits)
    (hanswered : Answered (call.ids c) packets) (harrivals : arrivals peer call c = stream packets ++ later) :
    (∃ c', call.run peer c = (.ok (replies (call.ids c) call.commands packets), c') ∧ c'.incoming = later) ↔
      ∀ before p, packets = before ++ [p] → p.id ∈ call.ids c ∧ p.id ∉ before.map Packet.id := by
  have hids : (call.ids c).Nodup := nodup_allotted hcount c.nextId
  rw [← settles_iff hanswered]
  constructor
  · rintro ⟨c', hrun, hleft⟩
    obtain ⟨front, back, rfl, hfront⟩ := hanswered.exists_settles
    rw [Packet.stream_append, List.append_assoc] at harrivals
    have hshort := run_settled hopen hline hids (fun p hp => hfits p (List.mem_append_left _ hp)) hfront harrivals
    have hrest : later = stream back ++ later :=
      hleft.symm.trans (congrArg (fun r => r.2.incoming) (hrun.symm.trans hshort))
    rw [Packet.stream_eq_nil (List.self_eq_append_left.mp hrest), List.append_nil]
    exact hfront
  · intro hsettled
    exact ⟨_, run_settled hopen hline hids hfits hsettled harrivals, rfl⟩

theorem run_whole_interleaved : ∃ c', (Call.batch [("0_a", "a"), ("1_b", "b")]).run silent
      (quiet [⟨2, 0, "x"⟩, ⟨2, 0, "y"⟩, ⟨3, 0, "z"⟩] [] 2) = (.ok [("0_a", "xy"), ("1_b", "z")], c') ∧
    c'.incoming = [] := by
  have hanswered : Answered
      ((Call.batch [("0_a", "a"), ("1_b", "b")]).ids (quiet [⟨2, 0, "x"⟩, ⟨2, 0, "y"⟩, ⟨3, 0, "z"⟩] [] 2))
      [⟨2, 0, "x"⟩, ⟨2, 0, "y"⟩, ⟨3, 0, "z"⟩] := by decide
  have hsettled := settles_snoc [⟨2, 0, "x"⟩, ⟨2, 0, "y"⟩] hanswered (by decide) (by decide)
  have harrivals :=
    arrivals_quiet (.batch [("0_a", "a"), ("1_b", "b")]) [⟨2, 0, "x"⟩, ⟨2, 0, "y"⟩, ⟨3, 0, "z"⟩] [] 2
  refine (run_whole_iff rfl rfl (by decide) (by decide) hanswered (harrivals.trans (List.append_nil _).symm)).mpr ?_
  exact (settles_iff hanswered).mp hsettled

/-- The second packet of an answer is not waited for: the next call passes over it. -/
theorem run_cut_short : ∃ c' c'',
    (Call.send "a").run silent (quiet [⟨2, 0, "first"⟩, ⟨2, 0, "second"⟩, ⟨3, 0, "other"⟩] [] 2) =
      (.ok [("", "first")], c') ∧
    (Call.send "b").run silent c' = (.ok [("", "other")], c'') ∧ c''.incoming = [] := by
  have hfirst := run_quiet (.send "a") [⟨2, 0, "first"⟩] [⟨2, 0, "second"⟩, ⟨3, 0, "other"⟩] [] 2 (by decide) (by decide)
    (settles_snoc [] (by decide) (by decide) (by decide))
  have hsecond := run_quiet (.send "b") [⟨2, 0, "second"⟩, ⟨3, 0, "other"⟩] [] (requests [2] [("", "a")]) 3
    (by decide) (by decide) (settles_snoc [⟨2, 0, "second"⟩] (by decide) (by decide) (by decide))
  exact ⟨_, _, hfirst, hsecond, rfl⟩

/-! ## Calls one after the other -/

def after (peer : Peer τ) (calls : List Call) (c : Rcon τ) : Rcon τ :=
  calls.foldl (fun c call => (call.run peer c).2) c

def issued (peer : Peer τ) : List Call → Rcon τ → List Int32
  | [], _ => []
  | call :: calls, c => call.ids c ++ issued peer calls (call.run peer c).2

def commandCount : List Call → Nat
  | [] => 0
  | call :: calls => call.commands.length + commandCount calls

theorem nextId_run (peer : Peer τ) (call : Call) (c : Rcon τ) :
    (call.run peer c).2.nextId = successor^[call.commands.length] c.nextId := by
  rw [Call.run_eq]
  exact nextId_exchange peer call.commands c

theorem nextId_after (peer : Peer τ) : ∀ (calls : List Call) (c : Rcon τ),
    (after peer calls c).nextId = successor^[commandCount calls] c.nextId
  | [], _ => rfl
  | call :: calls, c => by
    have ih := nextId_after peer calls (call.run peer c).2
    rw [nextId_run, ← Function.iterate_add_apply, Nat.add_comm] at ih
    exact ih

theorem issued_eq (peer : Peer τ) : ∀ (calls : List Call) (c : Rcon τ),
    issued peer calls c = allotted (commandCount calls) c.nextId
  | [], _ => rfl
  | call :: calls, c => by
    rw [issued, issued_eq peer calls, nextId_run, commandCount, allotted_add]
    rfl

theorem issued_after (peer : Peer τ) (calls : List Call) (call : Call) (c : Rcon τ) :
    issued peer calls c ++ call.ids (after peer calls c) =
      allotted (commandCount calls + call.commands.length) c.nextId := by
  rw [issued_eq, Call.ids, nextId_after, allotted_add]

theorem nextId_authenticate (peer : Peer τ) (password : String) (c : Rcon τ) :
    (authenticate peer password c).2.nextId = successor c.nextId := by
  have hone : allocateId c = (.ok c.nextId, { c with nextId := successor c.nextId }) := rfl
  unfold authenticate
  rw [Action.bind_ok hone]
  refine Action.preserves_bind (P := fun c' : Rcon τ => c'.nextId = successor c.nextId) (preserves_write _ _)
    (fun _ => ?_) _ rfl
  refine Action.preserves_bind (Action.preserves_read _) fun _ => ?_
  refine Action.preserves_bind (preserves_finishRead _ _ _) fun accepted => ?_
  split
  · exact Action.preserves_fail _
  · exact Action.preserves_pure ()

theorem authAnswer_packet {bytes rest : List UInt8} {p : Packet} (hread : Packet.read bytes = (.ok p, rest)) :
    authAnswer bytes = if p.kind = authResponseKind then (.ok (p.id != -1), rest) else authAnswer rest := by
  rw [authAnswer]
  split
  · rename_i fault _ hfault
    rw [hread] at hfault
    cases hfault
  · rename_i q rest' hread'
    obtain ⟨rfl, rfl⟩ : p = q ∧ rest = rest' := by simpa using hread.symm.trans hread'
    rfl

theorem authenticate_ok {password : String} {elapsed : Duration} {d : Rcon τ} {rest : List UInt8}
    (hwrite : write peer (Packet.toBytes ⟨c.nextId, authKind, password⟩) { c with nextId := successor c.nextId } =
      (.ok elapsed, d)) (hanswer : authAnswer d.incoming = (.ok true, rest)) :
    authenticate peer password c = (.ok (), { d with incoming := rest }) := by
  have hone : allocateId c = (.ok c.nextId, { c with nextId := successor c.nextId }) := rfl
  unfold authenticate
  rw [Action.bind_ok hone, Action.bind_ok hwrite, Action.read_bind, hanswer]
  rfl

theorem connect_eq {connectTimeout readTimeout : Nat} (h : ¬ (connectTimeout = 0 ∨ readTimeout = 0)) (peer : Peer τ)
    (password : String) : connect peer password connectTimeout readTimeout = authenticate peer password := by
  unfold connect
  rw [if_neg h]

theorem nextId_connect {password : String} {connectTimeout readTimeout : Nat}
    (h : connect peer password connectTimeout readTimeout c = (.ok (), c')) : c'.nextId = successor c.nextId := by
  by_cases hzero : connectTimeout = 0 ∨ readTimeout = 0
  · unfold connect at h
    rw [if_pos hzero] at h
    cases h
  · rw [connect_eq hzero] at h
    have hid := nextId_authenticate peer password c
    rwa [h] at hid

/-- What a call that returned has read, and the replies that it took from it. -/
structure Answers (peer : Peer τ) (call : Call) (c : Rcon τ) (packets : List Packet) (result : List (String × String))
    (c' : Rcon τ) : Prop where
  written : c'.written = c.written ++ requests (call.ids c) call.commands
  reads : Reads (arrivals peer call c) packets c'.incoming
  tags : Assoc.keys result = Assoc.keys call.commands
  bodies : result.map Prod.snd = (call.ids c).map fun id => joined id packets

theorem exists_answers {result : List (String × String)} (h : call.run peer c = (.ok result, c')) :
    ∃ packets, Answers peer call c packets result c' := by
  obtain ⟨bodies, hcollect, rfl, hwritten⟩ := exists_of_run h
  obtain ⟨packets, hreads, rfl⟩ := exists_reads_of_collect hcollect
  rw [← gathered, paired_gathered]
  exact ⟨packets, hwritten, hreads, keys_replies packets, bodies_replies packets⟩

/-- No two commands of a link have the same id, and a reply is made of the packets that a call has
read and that have the id of its command. -/
theorem replies_own {password : String} {connectTimeout readTimeout : Nat} {p : τ} {incoming : List UInt8} {c₀ : Rcon τ}
    (hconnect : connect peer password connectTimeout readTimeout (new p incoming) = (.ok (), c₀))
    (earlier : List Call) (call : Call)
    (hcount : (issued peer earlier c₀ ++ call.ids (after peer earlier c₀)).length < 2 ^ 31 - 1) :
    (1 :: issued peer earlier c₀ ++ call.ids (after peer earlier c₀)).Nodup ∧
    ∀ result c', call.run peer (after peer earlier c₀) = (.ok result, c') →
      ∃ packets, Answers peer call (after peer earlier c₀) packets result c' ∧
        ∀ all, (∀ p ∈ all, p.Fits) → arrivals peer call (after peer earlier c₀) = stream all →
          ∃ later, all = packets ++ later ∧ c'.incoming = stream later := by
  constructor
  · rw [issued_after, length_allotted] at hcount
    rw [List.cons_append, issued_after, nextId_connect hconnect]
    exact nodup_allotted (n := commandCount earlier + call.commands.length + 1) (by omega) 1
  · intro result c' hrun
    obtain ⟨packets, hanswers⟩ := exists_answers hrun
    exact ⟨packets, hanswers, fun all hfits hall => hanswers.reads.of_stream hfits hall⟩

theorem connect_quiet (password : String) (packets : List Packet) :
    connect silent password 5000 30000 (new () (stream (⟨1, 0, ""⟩ :: ⟨1, authResponseKind, ""⟩ :: packets))) =
      (.ok (), quiet packets (Packet.toBytes ⟨1, authKind, password⟩) 2) := by
  have hwrite := write_quiet (Packet.toBytes ⟨1, authKind, password⟩)
    (⟨1, 0, ""⟩ :: ⟨1, authResponseKind, ""⟩ :: packets) [] 2
  have hanswer :
      authAnswer (stream (⟨1, 0, ""⟩ :: ⟨1, authResponseKind, ""⟩ :: packets)) = (.ok true, stream packets) := by
    rw [Packet.stream_cons, authAnswer_packet (Packet.read_toBytes (by decide) _), if_neg (by decide)]
    rw [Packet.stream_cons, authAnswer_packet (Packet.read_toBytes (by decide) _), if_pos rfl]
    rfl
  have hauthenticate := authenticate_ok
    (c := new () (stream (⟨1, 0, ""⟩ :: ⟨1, authResponseKind, ""⟩ :: packets))) hwrite hanswer
  rw [connect_eq (by decide)]
  exact hauthenticate

/-- A late packet and one that nobody asked for are passed over. -/
theorem replies_own_late : ∃ c₀ c' packets,
    connect silent "secret" 5000 30000 (new () (stream [⟨1, 0, ""⟩, ⟨1, 2, ""⟩, ⟨2, 0, "first"⟩, ⟨2, 0, "late"⟩,
      ⟨9, 0, "?"⟩, ⟨4, 0, "y"⟩, ⟨3, 0, "x"⟩])) = (.ok (), c₀) ∧
    (Call.batch [("0_a", "a"), ("1_b", "b")]).run silent (after silent [.send "a"] c₀) =
      (.ok [("0_a", "x"), ("1_b", "y")], c') ∧
    (1 :: issued silent [.send "a"] c₀ ++
      (Call.batch [("0_a", "a"), ("1_b", "b")]).ids (after silent [.send "a"] c₀)).Nodup ∧
    Answers silent (.batch [("0_a", "a"), ("1_b", "b")]) (after silent [.send "a"] c₀) packets
      [("0_a", "x"), ("1_b", "y")] c' := by
  have hconnect := connect_quiet "secret" [⟨2, 0, "first"⟩, ⟨2, 0, "late"⟩, ⟨9, 0, "?"⟩, ⟨4, 0, "y"⟩, ⟨3, 0, "x"⟩]
  have hearlier := run_quiet (.send "a") [⟨2, 0, "first"⟩]
    [⟨2, 0, "late"⟩, ⟨9, 0, "?"⟩, ⟨4, 0, "y"⟩, ⟨3, 0, "x"⟩] (Packet.toBytes ⟨1, authKind, "secret"⟩) 2
    (by decide) (by decide) (settles_snoc [] (by decide) (by decide) (by decide))
  have hrun := run_quiet (.batch [("0_a", "a"), ("1_b", "b")])
    [⟨2, 0, "late"⟩, ⟨9, 0, "?"⟩, ⟨4, 0, "y"⟩, ⟨3, 0, "x"⟩] []
    (Packet.toBytes ⟨1, authKind, "secret"⟩ ++ requests [2] [("", "a")]) 3 (by decide) (by decide)
    (settles_snoc [⟨2, 0, "late"⟩, ⟨9, 0, "?"⟩, ⟨4, 0, "y"⟩] (by decide) (by decide) (by decide))
  generalize hc₀ : quiet [⟨2, 0, "first"⟩, _, _, _, _] _ 2 = c₀ at hconnect
  have hafter : after silent [.send "a"] c₀ = quiet [⟨2, 0, "late"⟩, ⟨9, 0, "?"⟩, ⟨4, 0, "y"⟩, ⟨3, 0, "x"⟩]
      (Packet.toBytes ⟨1, authKind, "secret"⟩ ++ requests [2] [("", "a")]) 3 :=
    hc₀ ▸ congrArg Prod.snd hearlier
  rw [List.append_nil, ← hafter] at hrun
  have hcount : (issued silent [.send "a"] c₀ ++ (Call.batch [("0_a", "a"), ("1_b", "b")]).ids
      (after silent [.send "a"] c₀)).length < 2 ^ 31 - 1 := by
    rw [issued_after, length_allotted]
    decide
  obtain ⟨hnodup, hall⟩ := replies_own hconnect [.send "a"] (.batch [("0_a", "a"), ("1_b", "b")]) hcount
  obtain ⟨packets, hanswers, -⟩ := hall _ _ hrun
  exact ⟨c₀, _, packets, hconnect, hrun, hnodup, hanswers⟩

end

end RemoteConsole.Rcon
