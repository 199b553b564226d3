import RemoteConsole.Link.Scripted
import RemoteConsole.Proofs.Session.Transaction

/-!
# Discarded transactions

A body that fails or crashes leaves the session as it was, but for two things. The batch is idle, also
if there was an open one before; and a game speed that was only asked for in the batch is kept by the
clock, as if the remote side had been told.
-/

namespace RemoteConsole

variable {σ α : Type}

/-- A body that may also set the game speed. -/
inductive TunedBody (α : Type) where
  | done (outcome : Outcome α)
  | step (op : Operation) (next : Outcome Value → TunedBody α)
  | setGameSpeed (speed : Double) (next : Outcome Unit → TunedBody α)

namespace TunedBody

def run : TunedBody α → Action (Session σ) α
  | done outcome => Action.resume outcome
  | step op next => fun s => (next (op.run s).1).run (op.run s).2
  | setGameSpeed speed next => fun s => (next (Session.setGameSpeed speed s).1).run (Session.setGameSpeed speed s).2

theorem run_step (op : Operation) (next : Outcome Value → TunedBody α) (s : Session σ) :
    (step op next).run s = (next (op.run s).1).run (op.run s).2 := rfl

theorem run_setGameSpeed (speed : Double) (next : Outcome Unit → TunedBody α) (s : Session σ) :
    (setGameSpeed speed next).run s =
      (next (Session.setGameSpeed speed s).1).run (Session.setGameSpeed speed s).2 := rfl

end TunedBody

/-! ## Setting the speed -/

def speedRefusal? (registry : Registry) (speed : Double) : Option ControlError :=
  if Config.isSpeed speed = false then
    some (.invalidArgument Session.gameSpeedScript
      s!"speed must be positive, got {String.ofList (NumberStyle.message.render speed)}")
  else if registry.contains Session.gameSpeedScript = false then some (.missingLibrary Session.gameSpeedScript)
  else none

namespace Session

/-- A session inside a batch, where only the hooks, the queue and the speed of the clock may change. -/
def inBatch (hooks : Hooks) (queue : List Command) (speed : Double) (s : Session σ) : Session σ :=
  { s with
    hooks
    console := { s.console with batch := ⟨true, queue⟩, clock := { s.console.clock with gameSpeed := speed } } }

theorem inBatch_self {s : Session σ} (h : s.console.batch.isOpen = true) :
    s.inBatch s.hooks s.console.batch.queue s.console.clock.gameSpeed = s := by
  unfold inBatch
  rw [← h]

theorem queued_inBatch {s : Session σ} (h : s.console.batch.isOpen = true) (command : Except ControlError Command)
    (hooks : Hooks) : ∃ queue, s.queued command hooks = s.inBatch hooks queue s.console.clock.gameSpeed := by
  cases command with
  | error e =>
    refine ⟨s.console.batch.queue, ?_⟩
    unfold inBatch queued Console.queued
    rw [← h]
  | ok command =>
    refine ⟨s.console.batch.queue ++ [command], ?_⟩
    unfold inBatch queued Console.queued Batch.add
    rw [← h]

theorem setGameSpeed_eq (speed : Double) (s : Session σ) : setGameSpeed speed s =
    match speedRefusal? s.console.registry speed with
    | some e => (.error e, s)
    | none => (execute gameSpeedScript [.number speed] false >>= fun _ =>
        onConsole (Console.updateClock fun c => { c with gameSpeed := speed })) s := by
  unfold setGameSpeed speedRefusal?
  cases hspeed : Config.isSpeed speed with
  | false => rfl
  | true =>
    simp only [Bool.not_true, Bool.false_eq_true, if_false, Bool.true_eq_false]
    rw [Action.read_bind]
    cases hknown : s.console.registry.contains gameSpeedScript with
    | false => rfl
    | true => rfl

/-- In a batch the command only waits, but the clock has the new speed at once. -/
theorem setGameSpeed_open {speed : Double} {s : Session σ} (h : s.console.batch.isOpen = true)
    (htaken : speedRefusal? s.console.registry speed = none) :
    ∃ queue, setGameSpeed speed s = (.ok (), s.inBatch s.hooks queue speed) := by
  let command : Command := .ofFragment gameSpeedScript [.number speed]
  have hqueued : execute gameSpeedScript [.number speed] false s = (.ok .nil, s.queued (.ok command) s.hooks) := by
    show onConsole (Console.perform command false) s = _
    rw [onConsole, Action.zoom, Console.perform_open h]
    rfl
  obtain ⟨queue, hbatch⟩ := queued_inBatch h (.ok command) s.hooks
  refine ⟨queue, ?_⟩
  rw [setGameSpeed_eq, htaken]
  simp only
  rw [Action.bind_ok hqueued, hbatch]
  rfl

end Session

/-! ## Bodies on paper -/

namespace TunedBody

/-- How a body ends in a batch, and the speed that it took last or else the current one. -/
def ending (registry : Registry) (namespaces : List (Namespace ToolInstance)) :
    TunedBody α → Double → Outcome α × Double
  | done outcome, current => (outcome, current)
  | step op next, current => (next (Console.answer (op.command namespaces))).ending registry namespaces current
  | setGameSpeed speed next, current =>
    match speedRefusal? registry speed with
    | some e => (next (.error e)).ending registry namespaces current
    | none => (next (.ok ())).ending registry namespaces speed

theorem run_open : ∀ (body : TunedBody α) {s : Session σ}, s.console.batch.isOpen = true →
    ∃ hooks queue, body.run s =
      ((body.ending s.console.registry s.namespaces s.console.clock.gameSpeed).1, s.inBatch hooks queue
        (body.ending s.console.registry s.namespaces s.console.clock.gameSpeed).2)
  | done outcome, s, h => by
    refine ⟨s.hooks, s.console.batch.queue, ?_⟩
    simp only [ending, Session.inBatch_self h]
    rfl
  | step op next, s, h => by
    obtain ⟨hooks, hop⟩ := op.run_open h
    obtain ⟨queue, hqueued⟩ := Session.queued_inBatch h (op.command s.namespaces) hooks
    obtain ⟨hooks', queue', ih⟩ := run_open (next (Console.answer (op.command s.namespaces)))
      (s := s.inBatch hooks queue s.console.clock.gameSpeed) rfl
    refine ⟨hooks', queue', ?_⟩
    rw [run_step, hop, hqueued, ih]
    rfl
  | setGameSpeed speed next, s, h => by
    rw [run_setGameSpeed]
    cases hrefusal : speedRefusal? s.console.registry speed with
    | some e =>
      obtain ⟨hooks, queue, ih⟩ := run_open (next (.error e)) h
      refine ⟨hooks, queue, ?_⟩
      simp only [Session.setGameSpeed_eq, ending, hrefusal]
      exact ih
    | none =>
      obtain ⟨queue, hset⟩ := Session.setGameSpeed_open h hrefusal
      obtain ⟨hooks', queue', ih⟩ := run_open (next (.ok ())) (s := s.inBatch s.hooks queue speed) rfl
      refine ⟨hooks', queue', ?_⟩
      simp only [hset, ending, hrefusal]
      exact ih

end TunedBody

namespace Session

theorem transaction_failed {x : Action (Session σ) α} {s : Session σ} (h : (x (beginTransaction s).2).1.isOk = false) :
    (transaction x s).1.isOk = false ∧ (transaction x s).2 = (rollback (x (beginTransaction s).2).2).2 := by
  rw [transaction_run]
  cases hx : (x (beginTransaction s).2).1 with
  | ok a => rw [hx] at h; cases h
  | error e => exact ⟨rfl, rfl⟩
  | crash k => exact ⟨rfl, rfl⟩

/-- **Discarded transactions.** A body that does not return leaves nothing on the wire and the session as it
was, but for an idle batch and the speed that the body took last. So no trace is left if and only if the batch
was idle before and that speed is the one from before. -/
theorem transaction_discarded (s : Session σ) (body : TunedBody α)
    (hfail : (body.run (beginTransaction s).2).1.isOk = false) :
    let speed := (body.ending s.console.registry s.namespaces s.console.clock.gameSpeed).2
    let after := transaction body.run s
    after.1.isOk = false ∧ after.2.console.wire = s.console.wire ∧
    (∃ hooks, after.2 = { s with
      hooks
      console := { s.console with batch := .idle, clock := { s.console.clock with gameSpeed := speed } } }) ∧
    ((∃ hooks, after.2 = { s with hooks }) ↔ s.console.Idle ∧ speed = s.console.clock.gameSpeed) := by
  intro speed after
  obtain ⟨hooks, queue, hrun⟩ := body.run_open (s := (beginTransaction s).2) rfl
  obtain ⟨hended, hrolled⟩ := transaction_failed hfail
  have hafter : after.2 = { s with
      hooks
      console := { s.console with batch := .idle, clock := { s.console.clock with gameSpeed := speed } } } := by
    show (transaction body.run s).2 = _
    rw [hrolled, hrun]
    rfl
  refine ⟨hended, by rw [hafter], ⟨hooks, hafter⟩, ?_⟩
  constructor
  · rintro ⟨hooks', hsame⟩
    have hconsole : after.2.console = s.console := by rw [hsame]
    rw [hafter] at hconsole
    constructor
    · rw [Console.Idle, ← hconsole]
    · rw [← hconsole]
  · rintro ⟨hidle, hspeed⟩
    refine ⟨hooks, ?_⟩
    rw [hafter, hspeed, ← show s.console.batch = .idle from hidle]

def tunable : Session (List Rule) :=
  new (.new .default .empty ((Registry.empty true).insert ⟨gameSpeedScript, .library, "game.speed = arg1"⟩)
    (.connect (Scripted.link false) [])) .empty

/-- A refused speed leaves no trace: a body that gives up on its error is as if it had not been. -/
theorem transaction_discarded_refused :
    let body : TunedBody Unit := .step (.executeText "a") fun _ =>
      .setGameSpeed (Double.zero false) fun refused => .done refused
    (body.run (beginTransaction tunable).2).1.isOk = false ∧
      ∃ hooks, (transaction body.run tunable).2 = { tunable with hooks } := by
  intro body
  have hfail : (body.run (beginTransaction tunable).2).1.isOk = false := by decide +kernel
  have hsame := (transaction_discarded tunable body hfail).2.2.2
  exact ⟨hfail, hsame.mpr ⟨rfl, by decide +kernel⟩⟩

/-- A speed that was taken stays, though the remote side never heard of it. -/
theorem transaction_discarded_speed :
    let body : TunedBody Unit := .setGameSpeed (Double.ofInt 2) fun _ => .done (.error .unreadable)
    (transaction body.run tunable).1.isOk = false ∧ (transaction body.run tunable).2.console.wire.sent = [] ∧
      tunable.console.clock.gameSpeed = Double.ofInt 1 ∧
      (transaction body.run tunable).2.console.clock.gameSpeed = Double.ofInt 2 := by
  decide +kernel

end Session

end RemoteConsole
