import RemoteConsole.Link.Scripted
import RemoteConsole.Proofs.Session.Direct

/-!
# Transactions inside transactions

A session has one batch. A transaction that is begun inside another one drops what the other has
queued, and leaves the batch idle when it ends: what comes after it is sent at once, and nothing is
left to commit. So a body has all that it asks for in its own batch as long as it begins no other
transaction, and only then.
-/

namespace RemoteConsole

variable {σ α β : Type}

/-- A body that may also begin transactions, which may begin others. -/
inductive Nested : Type → Type 1 where
  | done {α : Type} (outcome : Outcome α) : Nested α
  | step {α : Type} (op : Operation) (next : Outcome Value → Nested α) : Nested α
  | transaction {α β : Type} (body : Nested β) (next : Outcome (β × BatchResult) → Nested α) : Nested α

/-- An operation of a body itself, between two states of the session. -/
structure OwnStep (σ : Type) where
  op : Operation
  before : Session σ
  after : Session σ

namespace OwnStep

def command? (t : OwnStep σ) : Option Command := (t.op.command t.before.namespaces).toOption

def IsSilent (t : OwnStep σ) : Prop := t.after.console.wire = t.before.console.wire

end OwnStep

namespace Nested

def run : {α : Type} → Nested α → Action (Session σ) α
  | _, done outcome => Action.resume outcome
  | _, step op next => fun s => (next (op.run s).1).run (op.run s).2
  | _, transaction body next => fun s =>
    (next (Session.transaction body.run s).1).run (Session.transaction body.run s).2

/-- The operations of a body outside the transactions that it begins. -/
def steps : {α : Type} → Nested α → Session σ → List (OwnStep σ)
  | _, done _, _ => []
  | _, step op next, s => ⟨op, s, (op.run s).2⟩ :: (next (op.run s).1).steps (op.run s).2
  | _, transaction body next, s =>
    (next (Session.transaction body.run s).1).steps (Session.transaction body.run s).2

/-- The commands that a body asks for outside the transactions that it begins. -/
def commands (body : Nested α) (s : Session σ) : List Command := (body.steps s).filterMap OwnStep.command?

def begun : {α : Type} → Nested α → Session σ → Nat
  | _, done _, _ => 0
  | _, step op next, s => (next (op.run s).1).begun (op.run s).2
  | _, transaction body next, s =>
    (next (Session.transaction body.run s).1).begun (Session.transaction body.run s).2 + 1

theorem commands_step (op : Operation) (next : Outcome Value → Nested α) (s : Session σ) :
    (step op next).commands s =
      (op.command s.namespaces).toOption.toList ++ (next (op.run s).1).commands (op.run s).2 := by
  have hhead : OwnStep.command? ⟨op, s, (op.run s).2⟩ = (op.command s.namespaces).toOption := rfl
  unfold commands
  rw [steps, List.filterMap_cons, hhead]
  cases op.command s.namespaces with
  | error e => rfl
  | ok command => rfl

end Nested

/-! ## The batch along a run -/

namespace Operation

theorem ready_run (op : Operation) {s : Session σ} (h : s.Ready) : (op.run s).2.Ready := by
  rcases h with hopen | hidle
  · obtain ⟨hooks, hrun⟩ := op.run_open hopen
    rw [hrun]
    exact .inl ((Console.isOpen_queued _ _).trans hopen)
  · exact .inr (op.idle_run s hidle)

end Operation

namespace Nested

theorem ready_run : {α : Type} → (body : Nested α) → {s : Session σ} → s.Ready → (body.run s).2.Ready
  | _, done _, _, h => h
  | _, step op next, s, h => ready_run (next (op.run s).1) (op.ready_run h)
  | _, transaction body next, s, _ =>
    ready_run (next (Session.transaction body.run s).1) (.inr (Session.idle_of_ready (ready_run body (.inl rfl))))

/-- However a transaction ends, and whatever was begun inside it, the batch is idle from then on. -/
theorem idle_transaction (body : Nested α) (s : Session σ) : (Session.transaction body.run s).2.console.Idle :=
  Session.idle_of_ready (body.ready_run (.inl rfl))

theorem idle_run : {α : Type} → (body : Nested α) → {s : Session σ} → s.console.Idle → (body.run s).2.console.Idle
  | _, done _, _, h => h
  | _, step op next, s, h => idle_run (next (op.run s).1) (op.idle_run s h)
  | _, transaction body next, s, _ => idle_run (next (Session.transaction body.run s).1) (body.idle_transaction s)

theorem run_open : {α : Type} → (body : Nested α) → {s : Session σ} → s.console.batch.isOpen = true →
    (body.begun s = 0 ∧ (∀ t ∈ body.steps s, t.IsSilent) ∧
      (body.run s).2.console = { s.console with batch := ⟨true, s.console.batch.queue ++ body.commands s⟩ }) ∨
    (0 < body.begun s ∧ (body.run s).2.console.Idle)
  | _, done outcome, s, h => by
    have hbatch : (⟨true, s.console.batch.queue ++ []⟩ : Batch) = s.console.batch := by rw [List.append_nil, ← h]
    refine .inl ⟨rfl, fun t ht => absurd ht List.not_mem_nil, ?_⟩
    show s.console = { s.console with batch := ⟨true, s.console.batch.queue ++ []⟩ }
    rw [hbatch]
  | _, step op next, s, h => by
    obtain ⟨hooks, hop⟩ := op.run_open h
    have hconsole : (op.run s).2.console = s.console.queued (op.command s.namespaces) := by rw [hop]; rfl
    have hopen : (op.run s).2.console.batch.isOpen = true := by rw [hconsole, Console.isOpen_queued, h]
    rcases run_open (next (op.run s).1) hopen with ⟨hbegun, hsilent, hrest⟩ | hbegun
    · refine .inl ⟨hbegun, List.forall_mem_cons.mpr ⟨?_, hsilent⟩, hrest.trans ?_⟩
      · show (op.run s).2.console.wire = s.console.wire
        rw [hconsole]
        cases op.command s.namespaces with
        | error e => rfl
        | ok command => rfl
      · rw [commands_step, hconsole]
        cases op.command s.namespaces with
        | error e => rfl
        | ok command =>
          simp only [Console.queued, Batch.add, List.append_assoc]
          rfl
    · exact .inr hbegun
  | _, transaction body next, s, h =>
    .inr ⟨Nat.succ_pos _, idle_run (next (Session.transaction body.run s).1) (body.idle_transaction s)⟩

theorem after_of_mem_steps : {α : Type} → (body : Nested α) → {s : Session σ} → {t : OwnStep σ} →
    t ∈ body.steps s → t.after = (t.op.run t.before).2
  | _, done _, _, _, h => absurd h List.not_mem_nil
  | _, step op next, s, t, h => by
    rcases List.mem_cons.mp h with rfl | h
    · rfl
    · exact after_of_mem_steps (next (op.run s).1) h
  | _, transaction body next, s, _, h => after_of_mem_steps (next (Session.transaction body.run s).1) h

theorem silent_of_commands_eq_nil {body : Nested α} {s : Session σ} (h : body.commands s = []) :
    ∀ t ∈ body.steps s, t.IsSilent := by
  intro t ht
  have hnone : t.command? = none := List.filterMap_eq_nil_iff.mp h t ht
  cases hcommand : t.op.command t.before.namespaces with
  | ok command =>
    rw [OwnStep.command?, hcommand] at hnone
    cases hnone
  | error e =>
    obtain ⟨hooks, hrun⟩ := Operation.run_refused hcommand
    rw [OwnStep.IsSilent, body.after_of_mem_steps ht, hrun]

end Nested

namespace Session

/-- **Nested transactions.** Whether all that a body asks for itself is queued and then sent in its own
batch, or whether it begins no transaction, is the same. Once it has begun one the batch is idle, and
nothing can be committed if it returns. -/
theorem transaction_whole_iff (s : Session σ) (body : Nested α) :
    let start := (beginTransaction s).2
    let inside := body.run start
    let after := transaction body.run s
    let own := body.commands start
    (((∀ t ∈ body.steps start, t.IsSilent) ∧ inside.2.console.batch.queue = own ∧
      ∀ a, inside.1 = .ok a → after.2.console.wire.sent = inside.2.console.wire.sent ++
        if own = [] ∨ inside.2.console.wire.poisoned = true then []
        else [.batch (batchEntries inside.2.console.registry false own)]) ↔
      body.begun start = 0 ∨ own = []) ∧
    (0 < body.begun start → inside.2.console.batch = ⟨false, []⟩ ∧
      ∀ a, inside.1 = .ok a → after = (.error (.transaction .executeOutside), inside.2)) := by
  intro start inside after own
  have hready := body.run_open (s := start) rfl
  refine ⟨⟨fun ⟨_, hqueue, _⟩ => ?_, fun h => ?_⟩, fun hbegun => ?_⟩
  · rcases hready with ⟨hbegun, -⟩ | ⟨-, hidle⟩
    · exact .inl hbegun
    · right
      rw [← hqueue, hidle]
      rfl
  · rcases hready with ⟨-, hsilent, hconsole⟩ | ⟨hbegun, hidle⟩
    · have hqueue : inside.2.console.batch.queue = own := by rw [hconsole]; rfl
      have hopen : inside.2.console.batch.isOpen = true := by rw [hconsole]
      refine ⟨hsilent, hqueue, fun a hok => ?_⟩
      rw [← hqueue]
      exact sent_transaction_open hok hopen
    · have hown : own = [] := h.resolve_left (Nat.pos_iff_ne_zero.mp hbegun)
      refine ⟨body.silent_of_commands_eq_nil hown, by rw [hown, hidle]; rfl, fun a hok => ?_⟩
      have hafter : after = (.error (.transaction .executeOutside), inside.2) := transaction_idle hok hidle
      rw [hafter, if_pos (.inl hown), List.append_nil]
  · rcases hready with ⟨hnone, -⟩ | ⟨-, hidle⟩
    · exact absurd hnone (Nat.pos_iff_ne_zero.mp hbegun)
    · exact ⟨hidle, fun a hok => transaction_idle hok hidle⟩

/-- Around a transaction of one command, the command before it is lost and the one after it goes alone. -/
theorem transaction_not_whole :
    let s : Session (List Rule) := new (.new .default .empty (.empty true) (.connect (Scripted.link false) [])) .empty
    let inner : Nested Unit := .step (.executeText "b") fun _ => .done (.ok ())
    let outer : Nested Unit := .step (.executeText "a") fun _ => .transaction inner fun _ =>
      .step (.executeText "c") fun _ => .done (.ok ())
    (outer.run (beginTransaction s).2).1 = .ok () ∧
    outer.commands (beginTransaction s).2 = [.ofText "a", .ofText "c"] ∧
    (transaction outer.run s).1 = .error (.transaction .executeOutside) ∧
    (transaction outer.run s).2.console.wire.sent = [.batch [("0_b", "b")], .command "c"] := by
  intro s inner outer
  refine ⟨rfl, rfl, rfl, ?_⟩
  decide

end Session

end RemoteConsole
