import RemoteConsole.Link.Scripted
import RemoteConsole.Proofs.Session.Direct

/-!
# Deferred texts

A command that waits in a batch is made into a text when the batch is committed, not when it is
queued. The text is the one that its operation sends outside a batch, unless that is a fragment
and measured: the queue does not know of the accounting, and a batch is never counted.
-/

namespace RemoteConsole

variable {σ α : Type}

/-! ## What is queued -/

def Body.accepted (namespaces : List (Namespace ToolInstance)) : Body α → List Operation
  | done _ => []
  | step op next =>
    match op.command namespaces with
    | .ok _ => op :: (next (.ok .nil)).accepted namespaces
    | .error e => (next (.error e)).accepted namespaces

theorem Body.map_accepted (namespaces : List (Namespace ToolInstance)) : ∀ (body : Body α),
    (body.accepted namespaces).map (Operation.command namespaces) = (body.queued namespaces).1.map .ok
  | done _ => rfl
  | step op next => by
    unfold accepted queued
    cases hcommand : op.command namespaces with
    | error e => exact map_accepted namespaces (next (.error e))
    | ok command =>
      simp only
      rw [List.map_cons, hcommand, map_accepted namespaces (next (.ok .nil)), List.map_cons]

theorem Body.queued_of_accepted {namespaces : List (Namespace ToolInstance)} {body : Body α} {i : Nat} {op : Operation}
    (h : (body.accepted namespaces)[i]? = some op) :
    ∃ command, op.command namespaces = .ok command ∧ (body.queued namespaces).1[i]? = some command := by
  have hmap := congrArg (fun l => l[i]?) (body.map_accepted namespaces)
  simp only [List.getElem?_map, h, Option.map_some] at hmap
  obtain ⟨command, hqueued, hcommand⟩ := Option.map_eq_some_iff.mp hmap.symm
  exact ⟨command, hcommand.symm, hqueued⟩

/-! ## The two texts -/

/-- The operation runs a fragment that the registry knows, and asks for it to be counted. -/
def Operation.isMeasuredFragment (registry : Registry) : Operation → Bool
  | execute target _ measured => measured && registry.contains target
  | executeText _ => false
  | call .. => false

theorem Command.envelope_ne (body : String) : envelope false body ≠ envelope true body := by
  intro h
  have hchars := congrArg (fun s => s.toList[1]?) h
  simp [envelope, String.toList_append] at hchars

theorem Registry.compile_eq_iff (target : String) (params : List Value) (measured : Bool) (r : Registry) :
    r.compile target params false = r.compile target params measured ↔ (measured && r.contains target) = false := by
  unfold compile contains
  cases hget : r.get? target with
  | none => simp
  | some f =>
    cases measured with
    | false => simp
    | true => simpa using Command.envelope_ne _

theorem Registry.compileCommand_literal {command : Command} (h : command.isLiteral = true) (measured : Bool) (r : Registry) :
    r.compileCommand measured command = command.target := by
  rw [compileCommand, if_pos h]

theorem callCommand_literal {namespaces : List (Namespace ToolInstance)} {agent : Nat} {name : String} {args : List Value}
    {command : Command} (h : callCommand namespaces agent name args = .ok command) : command.isLiteral = true := by
  unfold callCommand at h
  split at h
  · rename_i ns _
    cases hfind : ns.find name with
    | error e => rw [hfind] at h; cases h
    | ok binding =>
      rw [hfind] at h
      obtain ⟨actuals, -, rfl⟩ := ToolInstance.command_ok h
      rfl
  · cases h

theorem Operation.compile_eq_iff {op : Operation} {namespaces : List (Namespace ToolInstance)} {command : Command}
    (h : op.command namespaces = .ok command) (r : Registry) :
    r.compileCommand false command = r.compileCommand op.isMeasured command ↔ op.isMeasuredFragment r = false := by
  cases op with
  | execute target params measured =>
    cases h
    exact r.compile_eq_iff target params measured
  | executeText text =>
    cases h
    exact iff_of_true rfl rfl
  | call agent name args =>
    refine iff_of_true ?_ rfl
    rw [Registry.compileCommand_literal (callCommand_literal h), Registry.compileCommand_literal (callCommand_literal h)]

namespace Session

theorem sent_transaction {s : Session σ} {body : Body α} {a : α} (hok : (body.run (beginTransaction s).2).1 = .ok a)
    (hqueue : (body.queued s.namespaces).1 ≠ []) (hclean : s.console.wire.poisoned = false) :
    (transaction body.run s).2.console.wire.sent = s.console.wire.sent ++
      [.batch (batchEntries s.console.registry false (body.queued s.namespaces).1)] := by
  obtain ⟨hooks, hrun⟩ := run_begun s body
  have hopen : (body.run (beginTransaction s).2).2.console.batch.isOpen = true := by rw [hrun]
  have hsent := sent_transaction_open hok hopen
  rw [hrun] at hsent
  simp only [hqueue, hclean, false_or, Bool.false_eq_true, if_false] at hsent
  exact hsent

/-- **Deferred texts.** What a body queues is sent as one batch if it returns, and the text in it of an
operation is what the operation alone sends outside a batch, unless that is a measured fragment. -/
theorem deferred_text {s : Session σ} (hidle : s.console.Idle) (body : Body α) {i : Nat} {op : Operation}
    (hop : (body.accepted s.namespaces)[i]? = some op) :
    let entries := batchEntries s.console.registry false (body.queued s.namespaces).1
    ∃ command, op.command s.namespaces = .ok command ∧
      (∀ a, (body.run (beginTransaction s).2).1 = .ok a → s.console.wire.poisoned = false →
        (transaction body.run s).2.console.wire.sent = s.console.wire.sent ++ [.batch entries]) ∧
      Console.Tells (s.console.registry.compileCommand op.isMeasured command) s.console
        ((op.run s).1, (op.run s).2.console) ∧
      ((entries.map Prod.snd)[i]? = some (s.console.registry.compileCommand op.isMeasured command) ↔
        op.isMeasuredFragment s.console.registry = false) := by
  intro entries
  obtain ⟨command, hcommand, hqueued⟩ := Body.queued_of_accepted hop
  have hqueue : (body.queued s.namespaces).1 ≠ [] := by
    intro hnil
    rw [hnil] at hqueued
    cases hqueued
  have htext : (entries.map Prod.snd)[i]? = some (s.console.registry.compileCommand false command) := by
    rw [texts_batchEntries, List.getElem?_map, hqueued]
    rfl
  refine ⟨command, hcommand, fun a hok hclean => sent_transaction hok hqueue hclean, op.tells_run hcommand hidle, ?_⟩
  rw [htext, Option.some_inj]
  exact op.compile_eq_iff hcommand s.console.registry

def knowing : Session (List Rule) :=
  new (.new .default .empty ((Registry.empty true).insert ⟨"f", .tool, "x"⟩) (.connect (Scripted.link false) [])) .empty

theorem deferred_text_second :
    let body : Body Value := .step (.executeText "y") fun _ => .step (.execute "f" [] false) fun r => .done r
    (transaction body.run knowing).2.console.wire.sent = [.batch [("0_y", "y"), ("1_f", "/sc x")]] ∧
    Console.Tells "/sc x" knowing.console
      (((Operation.execute "f" [] false).run knowing).1, ((Operation.execute "f" [] false).run knowing).2.console) := by
  intro body
  have hop : (body.accepted knowing.namespaces)[1]? = some (.execute "f" [] false) := rfl
  obtain ⟨command, hcommand, hsent, htells, -⟩ := deferred_text (s := knowing) rfl body hop
  cases hcommand
  exact ⟨(hsent .nil rfl rfl).trans (by decide), htells⟩

/-- A measured fragment is counted outside a batch and not inside. -/
theorem deferred_text_uncounted :
    let op : Operation := .execute "f" [] true
    let body : Body Value := .step op fun r => .done r
    (op.run knowing).2.console.wire.sent = [.command "/command x"] ∧
    (transaction body.run knowing).2.console.wire.sent = [.batch [("0_f", "/sc x")]] := by
  decide

end Session

end RemoteConsole
