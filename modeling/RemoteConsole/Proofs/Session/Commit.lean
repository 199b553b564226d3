import RemoteConsole.Link.Scripted
import RemoteConsole.Proofs.Action
import RemoteConsole.Proofs.Batch

/-!
# Committing a batch

An open batch is idle again before its commands are sent. Nothing is sent for
an empty queue; any other queue is one request to the link, and each reply is
found again under the place and under the tag of its command.
-/

namespace RemoteConsole.Console

variable {σ : Type}

theorem commit_open {c : Console σ} (h : c.batch.isOpen = true) (measured : Bool) :
    commit measured c = sendQueue measured c.batch.queue { c with batch := .idle } := by
  show (if c.batch.isOpen = true then (discard >>= fun _ => sendQueue measured c.batch.queue)
    else Action.fail _) c = _
  rw [if_pos h]
  rfl

theorem commit_idle {c : Console σ} (h : c.batch.isOpen = false) (measured : Bool) :
    commit measured c = (.error (.transaction .executeOutside), c) := by
  show (if c.batch.isOpen = true then (discard >>= fun _ => sendQueue measured c.batch.queue)
    else Action.fail _) c = _
  rw [h]
  rfl

def queueOutcome (queue : List Command) : Outcome (List (String × String)) → Outcome BatchResult
  | .ok replies => .ofExcept (BatchResult.ofReplies (Command.tags queue) replies)
  | .error e => .error e
  | .crash k => .crash k

theorem sendQueue_eq {queue : List Command} (hne : queue ≠ []) (measured : Bool) (c : Console σ) :
    sendQueue measured queue c =
      (queueOutcome queue (Wire.sendBatch (batchEntries c.registry measured queue) c.wire).1,
        { c with wire := (Wire.sendBatch (batchEntries c.registry measured queue) c.wire).2 }) := by
  have hempty : queue.isEmpty = false := List.isEmpty_eq_false_iff.mpr hne
  have hsend : onWire (Wire.sendBatch (batchEntries c.registry measured queue)) c =
      ((Wire.sendBatch (batchEntries c.registry measured queue) c.wire).1,
        { c with wire := (Wire.sendBatch (batchEntries c.registry measured queue) c.wire).2 }) := rfl
  unfold sendQueue
  rw [hempty, if_neg (by decide)]
  show (onWire (Wire.sendBatch (batchEntries c.registry measured queue)) >>= fun replies =>
    Action.lift (BatchResult.ofReplies (Assoc.keys (batchEntries c.registry measured queue)) replies)) c = _
  rw [keys_batchEntries]
  cases houtcome : (Wire.sendBatch (batchEntries c.registry measured queue) c.wire).1 with
  | ok replies => rw [houtcome] at hsend; rw [Action.bind_ok hsend]; rfl
  | error e => rw [houtcome] at hsend; rw [Action.bind_error hsend]; rfl
  | crash k => rw [houtcome] at hsend; rw [Action.bind_crash hsend]; rfl

theorem sendQueue_ok {queue : List Command} {measured : Bool} {c : Console σ} {replies : List (String × String)}
    (hlink : queue ≠ [] → (Wire.sendBatch (batchEntries c.registry measured queue) c.wire).1 = .ok replies) :
    (sendQueue measured queue c).1 = .ofExcept (BatchResult.ofReplies (Command.tags queue) replies) := by
  cases queue with
  | nil => rfl
  | cons command queue =>
    have hne : command :: queue ≠ [] := List.cons_ne_nil command queue
    rw [sendQueue_eq hne, hlink hne]
    rfl

/-! ## Results -/

theorem ofReplies_ok {queue : List Command} {replies : List (String × String)}
    (h : ∀ tag ∈ Command.tags queue, (Assoc.get? tag replies).isSome = true) :
    ∃ r, BatchResult.ofReplies (Command.tags queue) replies = .ok r ∧ r.results.length = queue.length ∧
      ∀ i command, queue[i]? = some command → ∃ reply, Assoc.get? (command.tag i) replies = some reply ∧
        r.result? i = some (Reply.decode reply) ∧ r.byTag? (command.tag i) = some (Reply.decode reply) := by
  let reply := fun tag => (Assoc.get? tag replies).getD ""
  have hreply : ∀ tag ∈ Command.tags queue, Assoc.get? tag replies = some (reply tag) := by
    intro tag ht
    obtain ⟨text, htext⟩ := Option.isSome_iff_exists.mp (h tag ht)
    simp only [reply, htext, Option.getD_some]
  have hkeys : Assoc.keys ((Command.tags queue).map fun tag => (tag, Reply.decode (reply tag))) = Command.tags queue := by
    rw [Assoc.keys, List.map_map]
    exact List.map_id _
  refine ⟨_, BatchResult.file_ok reply _ (by simpa using nodup_tags queue) hreply, by simp [Command.tags], ?_⟩
  intro i command hc
  have htag : (Command.tags queue)[i]? = some (command.tag i) := by
    rw [Command.tags, List.getElem?_mapIdx, hc]
    rfl
  have hmem : command.tag i ∈ Command.tags queue := List.mem_of_getElem? htag
  refine ⟨reply (command.tag i), hreply _ hmem, ?_, ?_⟩
  · rw [BatchResult.result?, List.nil_append, List.getElem?_map, htag]
    rfl
  · refine Assoc.get?_of_mem ?_ ?_
    · rw [List.nil_append, hkeys]
      exact nodup_tags queue
    · exact List.mem_map.mpr ⟨_, hmem, rfl⟩

/-- Tags are distinct, so every command has one entry and its own reply; without it nothing is returned. -/
theorem commit_replies {c : Console σ} (hopen : c.batch.isOpen = true) (measured : Bool)
    (replies : List (String × String))
    (hlink : c.batch.queue ≠ [] →
      (Wire.sendBatch (batchEntries c.registry measured c.batch.queue) c.wire).1 = .ok replies) :
    (Command.tags c.batch.queue).Nodup ∧
    batchEntries c.registry measured c.batch.queue =
      c.batch.queue.mapIdx (fun i command => (command.tag i, c.registry.compileCommand measured command)) ∧
    ((∀ tag ∈ Command.tags c.batch.queue, (Assoc.get? tag replies).isSome = true) →
      ∃ r, (commit measured c).1 = .ok r ∧ r.results.length = c.batch.queue.length ∧
        ∀ i command, c.batch.queue[i]? = some command → ∃ reply, Assoc.get? (command.tag i) replies = some reply ∧
          r.result? i = some (Reply.decode reply) ∧ r.byTag? (command.tag i) = some (Reply.decode reply)) ∧
    ((∃ tag ∈ Command.tags c.batch.queue, Assoc.get? tag replies = none) →
      ∃ tag ∈ Command.tags c.batch.queue, Assoc.get? tag replies = none ∧
        (commit measured c).1 = .error (.transport s!"no reply for transaction entry `{tag}`")) := by
  have hcommit : (commit measured c).1 = .ofExcept (BatchResult.ofReplies (Command.tags c.batch.queue) replies) := by
    rw [commit_open hopen]
    exact sendQueue_ok hlink
  refine ⟨nodup_tags _, batchEntries_eq _ _ _, fun h => ?_, fun h => ?_⟩
  · obtain ⟨r, hr, hlength, hresult⟩ := ofReplies_ok h
    exact ⟨r, by rw [hcommit, hr]; rfl, hlength, hresult⟩
  · obtain ⟨tag, ht, hnone, hfile⟩ := @BatchResult.file_missing _ replies [] (nodup_tags c.batch.queue) h
    exact ⟨tag, ht, hnone, by rw [hcommit, BatchResult.ofReplies, hfile]; rfl⟩

/-- Two open commands on one text, each answered under its own place. -/
theorem commit_replies_pair :
    let c : Console (List Rule) :=
      { Console.new .default .empty (.empty true) (.connect (Scripted.link false) [⟨.equals "0_x", none, .reply "true"⟩]) with
        batch := ⟨true, [.ofText "0_x", (Command.ofText "y").withLabel "0_x"]⟩ }
    ∃ r, (commit false c).1 = .ok r ∧ r.results.length = 2 ∧ r.byTag? "0_0_x" = some (Reply.decode "true") ∧
      r.result? 1 = some (Reply.decode "") := by
  intro c
  have hentries : batchEntries c.registry false c.batch.queue = [("0_0_x", "0_x"), ("1_0_x", "y")] := by decide
  have hreplies : (Wire.sendBatch (batchEntries c.registry false c.batch.queue) c.wire).1 =
      .ok [("0_0_x", "true"), ("1_0_x", "")] := by rw [hentries]; rfl
  obtain ⟨r, hr, hlength, hresult⟩ := (commit_replies (c := c) rfl false _ fun _ => hreplies).2.2.1 (by decide)
  obtain ⟨_, hfirst, _, htag⟩ := hresult 0 _ rfl
  obtain ⟨_, hsecond, hplace, _⟩ := hresult 1 _ rfl
  cases hfirst
  cases hsecond
  exact ⟨r, hr, hlength, htag, hplace⟩

end RemoteConsole.Console
