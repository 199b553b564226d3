import RemoteConsole.Proofs.Session.Body
import RemoteConsole.Proofs.Session.Commit

/-!
# Transactions

A transaction runs its body in an open batch, where nothing is sent. A body
that returns is committed with one request, a body that fails or crashes is
rolled back, and whatever the link does the batch is idle at the end.
-/

namespace RemoteConsole

variable {σ α : Type}

namespace Session

def idleConsole (s : Session σ) : Console σ := { s.console with batch := .idle }

theorem begin_eq (s : Session σ) : beginTransaction s = (.ok (), (beginTransaction s).2) := rfl

/-- A transaction ends as its body does and rolls back, or as the commit after it does. -/
theorem transaction_run (x : Action (Session σ) α) (s : Session σ) : transaction x s =
    match (x (beginTransaction s).2).1 with
    | .ok a => ((commit (x (beginTransaction s).2).2).1.map fun r => (a, r), (commit (x (beginTransaction s).2).2).2)
    | .error e => (.error e, (rollback (x (beginTransaction s).2).2).2)
    | .crash k => (.crash k, (rollback (x (beginTransaction s).2).2).2) := by
  have hattempt : Action.attempt x (beginTransaction s).2 =
      (.ok (x (beginTransaction s).2).1, (x (beginTransaction s).2).2) := rfl
  unfold transaction
  rw [Action.bind_ok (begin_eq s), Action.bind_ok hattempt]
  cases (x (beginTransaction s).2).1 with
  | ok a => exact Action.bind_pure_eq commit (fun r => (a, r)) _
  | error e => rfl
  | crash k => rfl

theorem run_begun (s : Session σ) (body : Body α) : ∃ hooks, body.run (beginTransaction s).2 =
    ((body.queued s.namespaces).2, { s with
      hooks
      console := { s.console with batch := ⟨true, (body.queued s.namespaces).1⟩ } }) :=
  body.run_open (s := (beginTransaction s).2) rfl

theorem commit_queued (s : Session σ) (hooks : Hooks) (queue : List Command) :
    commit { s with hooks, console := { s.console with batch := ⟨true, queue⟩ } } =
      ((Console.sendQueue false queue s.idleConsole).1,
        { s with hooks, console := (Console.sendQueue false queue s.idleConsole).2 }) := by
  rw [commit, onConsole, Action.zoom, Console.commit_open rfl]
  rfl

theorem transaction_eq (s : Session σ) (body : Body α) : ∃ hooks, transaction body.run s =
    match (body.queued s.namespaces).2 with
    | .ok a => ((Console.sendQueue false (body.queued s.namespaces).1 s.idleConsole).1.map fun r => (a, r),
        { s with hooks, console := (Console.sendQueue false (body.queued s.namespaces).1 s.idleConsole).2 })
    | .error e => (.error e, { s with hooks, console := s.idleConsole })
    | .crash k => (.crash k, { s with hooks, console := s.idleConsole }) := by
  obtain ⟨hooks, hbody⟩ := run_begun s body
  refine ⟨hooks, ?_⟩
  rw [transaction_run, hbody]
  cases (body.queued s.namespaces).2 with
  | error e => rfl
  | crash k => rfl
  | ok a =>
    have hcommit := commit_queued s hooks (body.queued s.namespaces).1
    exact congrArg (fun r => (r.1.map fun r => (a, r), r.2)) hcommit

end Session

theorem Wire.sent_sendBatch (entries : List (String × String)) (w : Wire σ) :
    (Wire.sendBatch entries w).2.sent = if w.poisoned then w.sent else w.sent ++ [.batch entries] := by
  unfold sendBatch
  split
  · rfl
  · exact List.map_append

theorem Console.idle_sendQueue (measured : Bool) (queue : List Command) :
    Action.Preserves (Idle (σ := σ)) (sendQueue measured queue) := by
  intro c h
  cases queue with
  | nil => exact h
  | cons command queue =>
    rw [sendQueue_eq (List.cons_ne_nil command queue)]
    exact h

theorem Console.outcome_sendQueue (queue : List Command) (c : Console σ) :
    (sendQueue false queue c).1 =
      if queue = [] then .ok .empty
      else queueOutcome queue (Wire.sendBatch (batchEntries c.registry false queue) c.wire).1 := by
  cases queue with
  | nil => rfl
  | cons command queue =>
    rw [sendQueue_eq (List.cons_ne_nil command queue), if_neg (List.cons_ne_nil command queue)]

theorem Console.wire_sendQueue (queue : List Command) (c : Console σ) :
    (sendQueue false queue c).2.wire =
      if queue = [] then c.wire else (Wire.sendBatch (batchEntries c.registry false queue) c.wire).2 := by
  cases queue with
  | nil => rfl
  | cons command queue =>
    rw [sendQueue_eq (List.cons_ne_nil command queue), if_neg (List.cons_ne_nil command queue)]

namespace Session

theorem sent_transaction_open {x : Action (Session σ) α} {s : Session σ} {a : α}
    (hok : (x (beginTransaction s).2).1 = .ok a) (hopen : (x (beginTransaction s).2).2.console.batch.isOpen = true) :
    (transaction x s).2.console.wire.sent = (x (beginTransaction s).2).2.console.wire.sent ++
      if (x (beginTransaction s).2).2.console.batch.queue = [] ∨ (x (beginTransaction s).2).2.console.wire.poisoned = true
      then []
      else [.batch (batchEntries (x (beginTransaction s).2).2.console.registry false
        (x (beginTransaction s).2).2.console.batch.queue)] := by
  rw [transaction_run, hok]
  generalize (x (beginTransaction s).2).2 = t at hopen
  show (Console.commit false t.console).2.wire.sent = _
  rw [Console.commit_open hopen, Console.wire_sendQueue]
  by_cases hqueue : t.console.batch.queue = []
  · rw [if_pos hqueue, if_pos (.inl hqueue), List.append_nil]
  · rw [if_neg hqueue, Wire.sent_sendBatch]
    simp only [hqueue, false_or]
    by_cases hpoisoned : t.console.wire.poisoned = true
    · rw [if_pos hpoisoned, if_pos hpoisoned, List.append_nil]
    · rw [if_neg hpoisoned, if_neg hpoisoned]

theorem transaction_idle {x : Action (Session σ) α} {s : Session σ} {a : α}
    (hok : (x (beginTransaction s).2).1 = .ok a) (hidle : (x (beginTransaction s).2).2.console.Idle) :
    transaction x s = (.error (.transaction .executeOutside), (x (beginTransaction s).2).2) := by
  rw [transaction_run, hok]
  generalize (x (beginTransaction s).2).2 = t at hidle
  have hcommit := Console.commit_idle (by rw [hidle]; rfl : t.console.batch.isOpen = false) false
  show ((Console.commit false t.console).1.map _, { t with console := (Console.commit false t.console).2 }) = _
  rw [hcommit]
  rfl

def Ready (s : Session σ) : Prop := s.console.batch.isOpen = true ∨ s.console.Idle

theorem idle_of_ready {x : Action (Session σ) α} {s : Session σ} (h : (x (beginTransaction s).2).2.Ready) :
    (transaction x s).2.console.Idle := by
  rw [transaction_run]
  cases (x (beginTransaction s).2).1 with
  | error e => rfl
  | crash k => rfl
  | ok a =>
    show (Console.commit false (x (beginTransaction s).2).2.console).2.Idle
    rcases h with hopen | hidle
    · rw [Console.commit_open hopen]
      exact Console.idle_sendQueue _ _ _ rfl
    · rw [Console.commit_idle (by rw [hidle]; rfl)]
      exact hidle

theorem idle_transaction (s : Session σ) (body : Body α) : (transaction body.run s).2.console.Idle := by
  obtain ⟨hooks, hrun⟩ := run_begun s body
  refine idle_of_ready (.inl ?_)
  rw [hrun]

/-- Nothing is sent while the body runs, one batch if it returns, nothing if it does not, and the
batch is idle and empty from then on. A wire that an earlier crash poisoned refuses the batch. -/
theorem transaction_body (s : Session σ) (body : Body α) :
    let queue := (body.queued s.namespaces).1
    let ending := (body.queued s.namespaces).2
    let entries := batchEntries s.console.registry false queue
    let inside := body.run (beginTransaction s).2
    let after := transaction body.run s
    inside.1 = ending ∧ inside.2.console.wire = s.console.wire ∧ inside.2.console.batch = ⟨true, queue⟩ ∧
    entries.map Prod.snd = queue.map (s.console.registry.compileCommand false) ∧
    (match ending with
      | .ok a =>
        after.1 = (if queue = [] then .ok .empty
          else Console.queueOutcome queue (Wire.sendBatch entries s.console.wire).1).map (fun r => (a, r)) ∧
        after.2.console.wire = (if queue = [] then s.console.wire else (Wire.sendBatch entries s.console.wire).2) ∧
        after.2.console.wire.sent = (if queue = [] ∨ s.console.wire.poisoned = true then s.console.wire.sent
          else s.console.wire.sent ++ [.batch entries])
      | .error e => after.1 = .error e ∧ after.2.console.wire = s.console.wire
      | .crash k => after.1 = .crash k ∧ after.2.console.wire = s.console.wire) ∧
    after.2.console.batch = ⟨false, []⟩ ∧
    ∀ {β : Type} (later : Body β), (later.run after.2).2.console.batch = ⟨false, []⟩ := by
  intro queue ending entries inside after
  obtain ⟨_, hinside⟩ : ∃ hooks, inside = (ending, { s with
      hooks
      console := { s.console with batch := ⟨true, queue⟩ } }) := body.run_open (s := (beginTransaction s).2) rfl
  obtain ⟨hooks, hafter⟩ := transaction_eq s body
  have hidle : after.2.console.Idle := idle_transaction s body
  refine ⟨by rw [hinside], by rw [hinside], by rw [hinside], texts_batchEntries _ _ _, ?_,
    hidle, fun later => later.idle_run after.2 hidle⟩
  -- the ending is spelled out, or else the match could not be split with what it stands for
  show match (body.queued s.namespaces).2 with
    | .ok _ => (transaction body.run s).1 = _ ∧ (transaction body.run s).2.console.wire = _ ∧
        (transaction body.run s).2.console.wire.sent = _
    | .error e => (transaction body.run s).1 = .error e ∧ (transaction body.run s).2.console.wire = _
    | .crash k => (transaction body.run s).1 = .crash k ∧ (transaction body.run s).2.console.wire = _
  rw [hafter]
  cases (body.queued s.namespaces).2 with
  | error e => exact ⟨rfl, rfl⟩
  | crash k => exact ⟨rfl, rfl⟩
  | ok a =>
    have houtcome := Console.outcome_sendQueue queue s.idleConsole
    have hwire := Console.wire_sendQueue queue s.idleConsole
    refine ⟨congrArg (Outcome.map fun r => (a, r)) houtcome, hwire, (congrArg Wire.sent hwire).trans ?_⟩
    by_cases hempty : queue = []
    · rw [if_pos hempty, if_pos (.inl hempty)]
      rfl
    · rw [if_neg hempty, Wire.sent_sendBatch]
      simp only [hempty, false_or]
      rfl

end Session

end RemoteConsole
