import Mathlib.Data.List.Nodup
import Mathlib.Logic.Function.Iterate
import RemoteConsole.Proofs.Action
import RemoteConsole.Proofs.Link.Collect

/-!
# One exchange

Each command takes the next id, so ids come back only after all the others. An exchange writes
the commands under their ids, collects the packets that answer them and leaves the rest.
-/

namespace RemoteConsole.Rcon

open Packet (stream)

variable {τ : Type}

/-! ## Ids -/

def successor (id : Int32) : Int32 := if id = Int32.maxValue then 1 else id + 1

theorem toInt_successor (id : Int32) :
    (successor id).toInt = if id.toInt = 2 ^ 31 - 1 then 1 else id.toInt + 1 := by
  have hmax : Int32.maxValue.toInt = 2 ^ 31 - 1 := rfl
  have hlow := id.le_toInt
  have hhigh := id.toInt_lt
  unfold successor
  by_cases h : id = Int32.maxValue
  · rw [if_pos h, if_pos (by rw [h, hmax])]
    rfl
  · have hne : id.toInt ≠ 2 ^ 31 - 1 := fun heq => h (Int32.toInt_inj.mp (heq.trans hmax.symm))
    rw [if_neg h, if_neg hne, Int32.toInt_add]
    exact Int.bmod_eq_of_le (by simp; omega) (by simp; omega)

theorem toInt_iterate_successor (id : Int32) (i : Nat) (hi : i < 2 ^ 31) :
    (successor^[i] id).toInt = if id.toInt + i < 2 ^ 31 then id.toInt + i else id.toInt + i - (2 ^ 31 - 1) := by
  have hlow := id.le_toInt
  have hhigh := id.toInt_lt
  induction i with
  | zero => rw [Function.iterate_zero, id_eq, Int.natCast_zero, Int.add_zero, if_pos hhigh]
  | succ i ih =>
    rw [Function.iterate_succ_apply', toInt_successor, ih (by omega)]
    push_cast
    split <;> split <;> split <;> omega

def allotted : Nat → Int32 → List Int32
  | 0, _ => []
  | n + 1, id => id :: allotted n (successor id)

theorem length_allotted : ∀ (n : Nat) (id : Int32), (allotted n id).length = n
  | 0, _ => rfl
  | n + 1, id => congrArg (· + 1) (length_allotted n (successor id))

theorem allotted_add : ∀ (m n : Nat) (id : Int32), allotted (m + n) id = allotted m id ++ allotted n (successor^[m] id)
  | 0, n, id => by rw [Nat.zero_add]; rfl
  | m + 1, n, id => by
    rw [Nat.succ_add, allotted, allotted_add m n, allotted, Function.iterate_succ_apply]
    rfl

theorem allotted_eq : ∀ (n : Nat) (id : Int32), allotted n id = (List.range n).map fun i => successor^[i] id
  | 0, _ => rfl
  | n + 1, id => by
    rw [allotted, allotted_eq n, List.range_succ_eq_map, List.map_cons, List.map_map]
    rfl

/-- Ids come back only when all the others were handed out. -/
theorem nodup_allotted {n : Nat} (hn : n < 2 ^ 31) (id : Int32) : (allotted n id).Nodup := by
  rw [allotted_eq]
  refine List.Nodup.map_on (fun i hi j hj h => ?_) List.nodup_range
  rw [List.mem_range] at hi hj
  have hint := congrArg Int32.toInt h
  rw [toInt_iterate_successor id i (by omega), toInt_iterate_successor id j (by omega)] at hint
  split at hint <;> split at hint <;> omega

theorem allocate_eq : ∀ (tags : List String) (c : Rcon τ),
    allocate tags c =
      (.ok ((allotted tags.length c.nextId).zip tags), { c with nextId := successor^[tags.length] c.nextId })
  | [], c => rfl
  | tag :: tags, c => by
    have hone : allocateId c = (.ok c.nextId, { c with nextId := successor c.nextId }) := rfl
    have ih := allocate_eq tags { c with nextId := successor c.nextId }
    unfold allocate at ih ⊢
    rw [List.mapM_cons, bind_assoc, Action.bind_ok hone, pure_bind, Action.bind_ok ih]
    rfl

/-! ## One exchange -/

def requests (ids : List Int32) (commands : List (String × String)) : List UInt8 :=
  stream ((ids.zip commands).map fun (id, _, text) => ⟨id, commandKind, text⟩)

theorem requests_eq : ∀ (ids : List Int32) (commands : List (String × String)),
    (((ids.zip (Assoc.keys commands)).zip commands).map fun ((id, _), (_, text)) =>
      Packet.toBytes ⟨id, commandKind, text⟩).flatten = requests ids commands
  | [], _ => rfl
  | _ :: _, [] => rfl
  | id :: ids, (tag, text) :: commands => by
    have ih := requests_eq ids commands
    unfold requests at ih ⊢
    rw [List.zip_cons_cons, List.map_cons, Packet.stream_cons, ← ih]
    rfl

def paired (ids : List Int32) (commands : List (String × String)) (bodies : List (Int32 × String)) :
    List (String × String) :=
  (ids.zip (Assoc.keys commands)).map fun (id, tag) => (tag, (Assoc.get? id bodies).getD "")

def complete (peer : Peer τ) (ids : List Int32) (commands : List (String × String)) :
    Action (Rcon τ) (List (String × String) × Duration) := do
  requireOpen
  let elapsed ← write peer (requests ids commands)
  let (answer, rest) := collect ids [] (← Action.read Rcon.incoming)
  let bodies ← finishRead answer rest
  return (paired ids commands bodies, elapsed)

theorem exchange_eq (peer : Peer τ) (commands : List (String × String)) (c : Rcon τ) :
    exchange peer commands c = complete peer (allotted commands.length c.nextId) commands
      { c with nextId := successor^[commands.length] c.nextId } := by
  have hlength : (Assoc.keys commands).length = commands.length := List.length_map _
  have hkeys : Assoc.keys ((allotted commands.length c.nextId).zip (Assoc.keys commands)) =
      allotted commands.length c.nextId :=
    List.map_fst_zip (Nat.le_of_eq (by rw [length_allotted, hlength]))
  unfold exchange
  rw [Action.bind_ok (allocate_eq _ _), hlength]
  dsimp only
  rw [requests_eq, hkeys]
  rfl

theorem requireOpen_ok {c : Rcon τ} (h : c.isOpen = true) : requireOpen c = (.ok (), c) := by
  unfold requireOpen
  rw [Action.read_bind, h]
  rfl

theorem requireOpen_closed {c : Rcon τ} (h : c.isOpen = false) :
    requireOpen c = (.error (.transport "RCON link is closed"), c) := by
  unfold requireOpen
  rw [Action.read_bind, h]
  rfl

theorem finishRead_ok {α : Type} (a : α) (rest : List UInt8) (c : Rcon τ) :
    finishRead (.ok a) rest c = (.ok a, { c with incoming := rest }) := rfl

section
variable {peer : Peer τ} {ids : List Int32} {commands : List (String × String)} {c d : Rcon τ} {elapsed : Duration}

theorem complete_ok {bodies : List (Int32 × String)} {rest : List UInt8} (hopen : c.isOpen = true)
    (hwrite : write peer (requests ids commands) c = (.ok elapsed, d))
    (hcollect : collect ids [] d.incoming = (.ok bodies, rest)) :
    complete peer ids commands c = (.ok (paired ids commands bodies, elapsed), { d with incoming := rest }) := by
  unfold complete
  rw [Action.bind_ok (requireOpen_ok hopen), Action.bind_ok hwrite, Action.read_bind, hcollect]
  rfl

theorem exists_of_complete {result : List (String × String)} {c' : Rcon τ}
    (h : complete peer ids commands c = (.ok (result, elapsed), c')) :
    ∃ d bodies rest, write peer (requests ids commands) c = (.ok elapsed, d) ∧
      collect ids [] d.incoming = (.ok bodies, rest) ∧ result = paired ids commands bodies ∧
      c' = { d with incoming := rest } := by
  unfold complete at h
  cases hopen : c.isOpen with
  | false =>
    rw [Action.bind_error (requireOpen_closed hopen)] at h
    cases h
  | true =>
    rw [Action.bind_ok (requireOpen_ok hopen)] at h
    obtain ⟨_, d, hwrite, hread⟩ := Action.exists_of_bind_ok h
    rw [Action.read_bind] at hread
    cases hcollect : collect ids [] d.incoming with
    | mk answer rest =>
      rw [hcollect] at hread
      cases answer with
      | error fault =>
        obtain ⟨_, _, hfault, _⟩ := Action.exists_of_bind_ok hread
        cases hfault
      | ok bodies =>
        cases (Action.bind_ok (finishRead_ok bodies rest d)).symm.trans hread
        exact ⟨d, bodies, rest, hwrite, hcollect, rfl, rfl⟩

/-! ## Writing -/

theorem write_ok (peer : Peer τ) (bytes : List UInt8) (h : c.interrupted = false) :
    ∃ elapsed d, write peer bytes c = (.ok elapsed, d) := by
  unfold write
  split
  · exact ⟨_, _, rfl⟩
  · rw [h]
    exact ⟨_, _, rfl⟩

theorem written_of_write {bytes : List UInt8} (h : write peer bytes c = (.ok elapsed, d)) :
    d.written = c.written ++ bytes := by
  unfold write at h
  split at h
  · rename_i hempty
    cases h
    rw [List.isEmpty_iff.mp hempty, List.append_nil]
  · split at h
    · cases h
    · cases h
      rfl

theorem write_nextId (peer : Peer τ) (bytes : List UInt8) (id : Int32) (c : Rcon τ) :
    write peer bytes { c with nextId := id } =
      ((write peer bytes c).1, { (write peer bytes c).2 with nextId := id }) := by
  unfold write
  split
  · rfl
  · dsimp only
    split
    · rfl
    · rfl

theorem preserves_write (bytes : List UInt8) (id : Int32) :
    Action.Preserves (fun c => c.nextId = id) (write peer bytes) := by
  rintro c rfl
  have h := congrArg (fun r => r.2.nextId) (write_nextId peer bytes c.nextId c)
  exact h

theorem preserves_requireOpen {P : Rcon τ → Prop} : Action.Preserves P (requireOpen : Action (Rcon τ) Unit) := by
  refine Action.preserves_bind (Action.preserves_read _) fun opened => ?_
  split
  · exact Action.preserves_fail _
  · exact Action.preserves_pure ()

theorem preserves_finishRead {α : Type} (id : Int32) (answer : Except PacketFault α) (rest : List UInt8) :
    Action.Preserves (fun c : Rcon τ => c.nextId = id) (finishRead answer rest) := by
  intro c h
  cases answer with
  | error fault => exact h
  | ok a => exact h

theorem preserves_complete (id : Int32) : Action.Preserves (fun c => c.nextId = id) (complete peer ids commands) := by
  refine Action.preserves_bind preserves_requireOpen fun _ => ?_
  refine Action.preserves_bind (preserves_write _ id) fun _ => ?_
  refine Action.preserves_bind (Action.preserves_read _) fun _ => ?_
  refine Action.preserves_bind (preserves_finishRead id _ _) fun _ => ?_
  exact Action.preserves_pure _

theorem nextId_exchange (peer : Peer τ) (commands : List (String × String)) (c : Rcon τ) :
    (exchange peer commands c).2.nextId = successor^[commands.length] c.nextId := by
  rw [exchange_eq]
  exact preserves_complete _ _ rfl

end

end RemoteConsole.Rcon
