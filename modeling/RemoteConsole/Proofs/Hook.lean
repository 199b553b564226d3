import RemoteConsole.Hook

/-!
# Calls among hooks

The hooks of a phase are those in the table when the phase begins, so no hook keeps another one of its phase
from being called or brings one in. What the hooks do to the table counts from the next phase on, and the
call that they are around is made once, between the phases, and ends as it would without them.
-/

namespace RemoteConsole

/-- What a hook is told agrees with how the call ended. -/
structure Ending.Reports (ending : Ending) (outcome : Outcome Value) : Prop where
  returned : ∀ v, ending = .returned v ↔ outcome = .ok v
  failed : ∀ e, ending = .failed e ↔ outcome = .error e
  crashed : (∃ message, ending = .crashed message) ↔ outcome.isCrash = true
  message : ∀ text, outcome = .crash (.text text) → ending = .crashed text

theorem Outcome.ending_reports (outcome : Outcome Value) : outcome.ending.Reports outcome := by
  cases outcome with
  | ok v => constructor <;> simp [ending, isCrash]
  | error e => constructor <;> simp [ending, isCrash]
  | crash c => cases c <;> constructor <;> simp [ending, isCrash]

namespace Hooks

/-! ## One phase -/

/-- The hooks of a capability and a phase in a table, in the order of the table and no others. -/
def Found (table : List (String × Phase × Hook)) (capability : String) (phase : Phase) (found : List Hook) : Prop :=
  found.map (fun hook => (capability, phase, hook)) = table.filter fun e => e.1 = capability ∧ e.2.1 = phase

theorem lookup_found (capability : String) (phase : Phase) (h : Hooks) :
    Found h.table capability phase (h.lookup capability phase) := by
  unfold Found lookup
  induction h.table with
  | nil => rfl
  | cons e table ih =>
    obtain ⟨c, p, hook⟩ := e
    by_cases hmatch : c = capability ∧ p = phase
    · obtain ⟨rfl, rfl⟩ := hmatch
      simpa using ih
    · simpa [hmatch] using ih

def edited (table : List (String × Phase × Hook)) (edits : List (HookEdit Hook)) : List (String × Phase × Hook) :=
  edits.foldl (fun table edit => match edit with
    | .register capability phase hook => table ++ [(capability, phase, hook)]
    | .clear => []) table

/-- What is left when hooks were called with an event: each call is traced, once and in order, and what each
hook did to the table is done, also if it failed or crashed. -/
def visited (event : HookEvent) (found : List Hook) (h : Hooks) : Hooks where
  table := edited h.table (found.flatMap fun hook => (hook.react event).edits)
  trace := h.trace ++ found.map fun hook => (hook.label, event)

theorem foldl_apply (edits : List (HookEdit Hook)) : ∀ h : Hooks, edits.foldl apply h = ⟨edited h.table edits, h.trace⟩ := by
  induction edits with
  | nil => intro h; rfl
  | cons edit edits ih =>
    intro h
    rw [List.foldl_cons, ih]
    cases edit with
    | register capability phase hook => rfl
    | clear => rfl

theorem edited_append (table : List (String × Phase × Hook)) (edits more : List (HookEdit Hook)) :
    edited table (edits ++ more) = edited (edited table edits) more := List.foldl_append

theorem call_eq (event : HookEvent) (h : Hooks) (hook : Hook) : h.call event hook = h.visited event [hook] := by
  rw [call, foldl_apply]
  simp [visited]

theorem visited_visited (event : HookEvent) (found more : List Hook) (h : Hooks) :
    (h.visited event found).visited event more = h.visited event (found ++ more) := by
  simp [visited, edited_append]

theorem foldl_call (event : HookEvent) (found : List Hook) : ∀ h : Hooks, found.foldl (call event) h = h.visited event found := by
  induction found with
  | nil => intro h; simp [visited, edited]
  | cons hook found ih =>
    intro h
    rw [List.foldl_cons, ih, call_eq, visited_visited]
    rfl

theorem run_eq (event : HookEvent) (h : Hooks) : (h.run event).2 = h.visited event (h.lookup event.capability event.phase) := by
  rw [run]
  apply foldl_call

/-! ## A call -/

/-- **Calls among hooks.** The hooks of the capability that the table has before the call are called first, each
once and in order; then the call itself is made, with its arguments; then the hooks of the capability that the
table has by then, each once and in order, and told how the call ended. No other hook is called. The call ends
for the caller as it ended, and leaves what it left. -/
theorem around_visits {ρ : Type} (capability : String) (inner : List Value → Action (Hooked ρ) Value) (args : List Value)
    (s : Hooked ρ) : ∃ before after ending,
      let started := s.hooks.visited ⟨capability, args, none⟩ before
      let ended := inner args ⟨started, s.rest⟩
      Found s.hooks.table capability .before before ∧
      Found ended.2.hooks.table capability .after after ∧
      ending.Reports ended.1 ∧
      around capability inner args s =
        (ended.1, ⟨ended.2.hooks.visited ⟨capability, args, some ending⟩ after, ended.2.rest⟩) := by
  let started := s.hooks.visited ⟨capability, args, none⟩ (s.hooks.lookup capability .before)
  let ended := inner args ⟨started, s.rest⟩
  refine ⟨s.hooks.lookup capability .before, ended.2.hooks.lookup capability .after, ended.1.ending,
    lookup_found _ _ _, lookup_found _ _ _, ended.1.ending_reports, ?_⟩
  unfold around
  simp only [run_eq]
  rfl

end Hooks

end RemoteConsole
