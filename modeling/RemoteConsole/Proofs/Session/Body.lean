import RemoteConsole.Proofs.Capability.Sleep
import RemoteConsole.Proofs.Session.Idle

/-!
# Bodies of transactions

A body asks the session for one operation after the other and goes on by how
each one ended. Inside a batch an operation only checks its arguments: it queues
one command or fails, whatever the link does, so a body can be run on paper.
-/

namespace RemoteConsole

variable {σ α : Type}

inductive Operation where
  | execute (target : String) (params : List Value) (measured : Bool)
  | executeText (text : String)
  | call (agent : Nat) (name : String) (args : List Value)

/-- A body may pass over an error, or give up with one of its own. -/
inductive Body (α : Type) where
  | done (outcome : Outcome α)
  | step (op : Operation) (next : Outcome Value → Body α)

def Operation.run : Operation → Action (Session σ) Value
  | execute target params measured => Session.execute target params measured
  | executeText text => Session.executeText text
  | call agent name args => Session.call agent name args

def Body.run : Body α → Action (Session σ) α
  | done outcome => Action.resume outcome
  | step op next => fun s => (next (op.run s).1).run (op.run s).2

/-! ## On paper -/

def Tool.actuals (name : String) (args : List Value) : Tool → Except ControlError (List Value)
  | moveTo => moveToArgs name args
  | inspectInventory => noArgs name args
  | placeEntity => placeEntityArgs name args
  | placeNextTo => placeNextToArgs name args
  | pickUpEntity => pickUpArgs name args
  | sleep => do
    Args.arity name args 1 1
    let _ ← Args.count name args 0 "ticks"
    return []
  | clearEntities => noArgs name args
  | setInventory => setInventoryArgs name args

theorem Tool.actuals_sleep (name : String) (args : List Value) :
    sleep.actuals name args = (fun _ => []) <$> ticksArg name args := by
  unfold actuals ticksArg
  cases Args.arity name args 1 1 with
  | error e => rfl
  | ok _ =>
    cases Args.count name args 0 "ticks" with
    | error e => rfl
    | ok ticks => rfl

theorem Tool.ticksArg_ok {name : String} {args actuals : List Value} (h : sleep.actuals name args = .ok actuals) :
    ∃ ticks, ticksArg name args = .ok ticks ∧ actuals = [] := by
  rw [actuals_sleep] at h
  cases hticks : ticksArg name args with
  | error e => rw [hticks] at h; cases h
  | ok ticks => rw [hticks] at h; cases h; exact ⟨ticks, rfl, rfl⟩

theorem Tool.ticksArg_error {name : String} {args : List Value} {e : ControlError}
    (h : sleep.actuals name args = .error e) : ticksArg name args = .error e := by
  rw [actuals_sleep] at h
  cases hticks : ticksArg name args with
  | error e' => rw [hticks] at h; cases h; rfl
  | ok ticks => rw [hticks] at h; cases h

def Context.command (ctx : Context) (args : List Value) : Command :=
  (Command.ofText (ctx.invokeCommand args)).withLabel ctx.capability

def ToolInstance.command (t : ToolInstance) (args : List Value) : Except ControlError Command :=
  t.context.command <$> t.tool.actuals t.context.capability args

def callCommand (namespaces : List (Namespace ToolInstance)) (agent : Nat) (name : String) (args : List Value) :
    Except ControlError Command :=
  match namespaces[agent]? with
  | some ns => do
    let binding ← ns.find name
    binding.instance'.command args
  | none => .error (.config s!"no agent {agent} (session has {namespaces.length})")

def Operation.command (namespaces : List (Namespace ToolInstance)) : Operation → Except ControlError Command
  | execute target params _ => .ok (.ofFragment target params)
  | executeText text => .ok (.ofText text)
  | call agent name args => callCommand namespaces agent name args

/-- The commands that a body queues, in order, and how it ends. -/
def Body.queued (namespaces : List (Namespace ToolInstance)) : Body α → List Command × Outcome α
  | done outcome => ([], outcome)
  | step op next =>
    match op.command namespaces with
    | .ok command => (command :: ((next (.ok .nil)).queued namespaces).1, ((next (.ok .nil)).queued namespaces).2)
    | .error e => (next (.error e)).queued namespaces

/-! ## In an open batch -/

namespace Console

def queued (command : Except ControlError Command) (c : Console σ) : Console σ :=
  match command with
  | .ok command => { c with batch := c.batch.add command }
  | .error _ => c

theorem isOpen_queued (command : Except ControlError Command) (c : Console σ) :
    (c.queued command).batch.isOpen = c.batch.isOpen := by
  cases command with
  | error e => rfl
  | ok command => rfl

def answer (command : Except ControlError Command) : Outcome Value := .ofExcept ((fun _ => Value.nil) <$> command)

theorem queueIfOpen_open {c : Console σ} (h : c.batch.isOpen = true) (command : Command) :
    queueIfOpen command c = (.ok (some c.batch.queue.length), { c with batch := c.batch.add command }) := by
  rw [queueIfOpen, if_pos h]

theorem perform_open {c : Console σ} (h : c.batch.isOpen = true) (command : Command) (measured : Bool) :
    perform command measured c = (answer (.ok command), c.queued (.ok command)) := by
  unfold perform
  rw [Action.bind_ok (queueIfOpen_open h command)]
  rfl

end Console

theorem Context.invoke_open (ctx : Context) (args : List Value) {c : Console σ} (h : c.batch.isOpen = true) :
    ctx.invoke args c = (Console.answer (.ok (ctx.command args)), c.queued (.ok (ctx.command args))) := by
  unfold invoke
  rw [Action.bind_ok (Console.queueIfOpen_open h _)]
  rfl

namespace Tool

theorem callChecked_open (check : String → List Value → Except ControlError (List Value)) (ctx : Context)
    (args : List Value) {c : Console σ} (h : c.batch.isOpen = true) :
    callChecked check ctx args c = (Console.answer (ctx.command <$> check ctx.capability args),
      c.queued (ctx.command <$> check ctx.capability args)) := by
  unfold callChecked
  cases hcheck : check ctx.capability args with
  | error e => exact Action.lift_error_bind e _ c
  | ok actuals =>
    rw [Action.lift_ok_bind]
    exact ctx.invoke_open actuals h

theorem callInspect_open (ctx : Context) (args : List Value) {c : Console σ} (h : c.batch.isOpen = true) :
    callInspect ctx args c = (Console.answer (ctx.command <$> noArgs ctx.capability args),
      c.queued (ctx.command <$> noArgs ctx.capability args)) := by
  unfold callInspect
  cases hcheck : noArgs ctx.capability args with
  | error e => exact Action.lift_error_bind e _ c
  | ok actuals =>
    rw [Action.lift_ok_bind, Action.bind_ok (ctx.invoke_open actuals h)]
    rfl

/-- Nothing is waited for, because the batch is still open after the first reading is queued. -/
theorem callSleep_open (ctx : Context) (args : List Value) {c : Console σ} (h : c.batch.isOpen = true) :
    callSleep ctx args c = (Console.answer (ctx.command <$> sleep.actuals ctx.capability args),
      c.queued (ctx.command <$> sleep.actuals ctx.capability args)) := by
  rw [callSleep_eq, actuals_sleep]
  cases ticksArg ctx.capability args with
  | error e => exact Action.lift_error_bind e _ c
  | ok ticks =>
    have hopen : (c.queued (.ok (ctx.command []))).batch.isOpen = true := by rw [Console.isOpen_queued, h]
    rw [Action.lift_ok_bind, Action.bind_ok (ctx.invoke_open [] h), sleepFrom, if_pos hopen]
    rfl

theorem call_open (tool : Tool) (ctx : Context) (args : List Value) {c : Console σ} (h : c.batch.isOpen = true) :
    tool.call ctx args c = (Console.answer (ToolInstance.command ⟨tool, ctx⟩ args),
      c.queued (ToolInstance.command ⟨tool, ctx⟩ args)) := by
  cases tool with
  | moveTo => exact callChecked_open moveToArgs ctx args h
  | inspectInventory => exact callInspect_open ctx args h
  | placeEntity => exact callChecked_open placeEntityArgs ctx args h
  | placeNextTo => exact callChecked_open placeNextToArgs ctx args h
  | pickUpEntity => exact callChecked_open pickUpArgs ctx args h
  | sleep => exact callSleep_open ctx args h
  | clearEntities => exact callChecked_open noArgs ctx args h
  | setInventory => exact callChecked_open setInventoryArgs ctx args h

end Tool

def Session.queued (command : Except ControlError Command) (hooks : Hooks) (s : Session σ) : Session σ :=
  { s with hooks, console := s.console.queued command }

theorem Session.namespace?_some {s : Session σ} {agent : Nat} {ns : Namespace ToolInstance}
    (h : s.namespaces[agent]? = some ns) : Session.namespace? agent s = (.ok ns, s) := by
  unfold Session.namespace?
  rw [Action.read_bind, h]
  rfl

theorem Session.namespace?_none {s : Session σ} {agent : Nat} (h : s.namespaces[agent]? = none) :
    Session.namespace? agent s =
      (.error (.config s!"no agent {agent} (session has {s.namespaces.length})"), s) := by
  unfold Session.namespace?
  rw [Action.read_bind, h]
  rfl

/-- Hooks watch a call and change their table, but neither how it ends nor what else it does. -/
theorem Hooks.around_eq {ρ : Type} (capability : String) (inner : List Value → Action (Hooked ρ) Value)
    (args : List Value) {s : Hooked ρ} {outcome : Outcome Value} {rest : ρ}
    (h : ∀ hooks, ∃ hooks', inner args ⟨hooks, s.rest⟩ = (outcome, ⟨hooks', rest⟩)) :
    ∃ hooks, Hooks.around capability inner args s = (outcome, ⟨hooks, rest⟩) := by
  unfold Hooks.around
  obtain ⟨hooks, hinner⟩ := h (s.hooks.run ⟨capability, args, none⟩).2
  simp only
  rw [hinner]
  exact ⟨_, rfl⟩

theorem Session.call_cases (agent : Nat) (name : String) (args : List Value) (s : Session σ) :
    (∃ e, callCommand s.namespaces agent name args = .error e ∧ Session.call agent name args s = (.error e, s)) ∨
    ∃ ns binding hooks, s.namespaces[agent]? = some ns ∧ ns.find name = .ok binding ∧
      callCommand s.namespaces agent name args = binding.instance'.command args ∧
      Session.call agent name args s = ((binding.instance'.tool.call binding.instance'.context args s.console).1,
        { s with hooks, console := (binding.instance'.tool.call binding.instance'.context args s.console).2 }) := by
  unfold Session.call callCommand
  cases hns : s.namespaces[agent]? with
  | none => exact .inl ⟨_, rfl, Action.bind_error (Session.namespace?_none hns)⟩
  | some ns =>
    rw [Action.bind_ok (Session.namespace?_some hns)]
    simp only
    cases hfind : ns.find name with
    | error e => exact .inl ⟨e, rfl, Action.lift_error_bind e _ s⟩
    | ok binding =>
      rw [Action.lift_ok_bind]
      let x := binding.instance'.tool.call binding.instance'.context (σ := σ)
      obtain ⟨hooks, haround⟩ := @Hooks.around_eq _ binding.instance'.context.capability
        (fun args => Action.zoom Hooked.rest (fun rest h => { h with rest }) (x args))
        args ⟨s.hooks, s.console⟩ (x args s.console).1 (x args s.console).2 fun hooks => ⟨hooks, rfl⟩
      exact .inr ⟨ns, binding, hooks, rfl, hfind, rfl, by rw [Session.onHooked, Action.zoom, haround]⟩

theorem Session.call_open (agent : Nat) (name : String) (args : List Value) {s : Session σ}
    (h : s.console.batch.isOpen = true) :
    ∃ hooks, Session.call agent name args s = (Console.answer (callCommand s.namespaces agent name args),
      s.queued (callCommand s.namespaces agent name args) hooks) := by
  rcases Session.call_cases agent name args s with
    ⟨e, hcommand, hcall⟩ | ⟨ns, binding, hooks, -, -, hcommand, hcall⟩
  · exact ⟨s.hooks, by rw [hcommand]; exact hcall⟩
  · refine ⟨hooks, ?_⟩
    rw [Tool.call_open _ _ _ h] at hcall
    rw [hcommand]
    exact hcall

theorem Operation.run_open (op : Operation) {s : Session σ} (h : s.console.batch.isOpen = true) :
    ∃ hooks, op.run s = (Console.answer (op.command s.namespaces), s.queued (op.command s.namespaces) hooks) := by
  cases op with
  | execute target params measured =>
    refine ⟨s.hooks, ?_⟩
    show Session.onConsole (Console.perform (.ofFragment target params) measured) s = _
    rw [Session.onConsole, Action.zoom, Console.perform_open h]
    rfl
  | executeText text =>
    refine ⟨s.hooks, ?_⟩
    show Session.onConsole (Console.perform (.ofText text) false) s = _
    rw [Session.onConsole, Action.zoom, Console.perform_open h]
    rfl
  | call agent name args => exact Session.call_open agent name args h

theorem Body.run_step (op : Operation) (next : Outcome Value → Body α) (s : Session σ) :
    (Body.step op next).run s = (next (op.run s).1).run (op.run s).2 := rfl

/-- The run of a body inside a batch: its commands are queued in order, and nothing is sent. -/
theorem Body.run_open : ∀ (body : Body α) {s : Session σ}, s.console.batch.isOpen = true →
    ∃ hooks, body.run s = ((body.queued s.namespaces).2, { s with
      hooks
      console := { s.console with batch := ⟨true, s.console.batch.queue ++ (body.queued s.namespaces).1⟩ } })
  | done outcome, s, h => by
    have hbatch : (⟨true, s.console.batch.queue ++ []⟩ : Batch) = s.console.batch := by rw [List.append_nil, ← h]
    refine ⟨s.hooks, ?_⟩
    rw [queued, hbatch]
    rfl
  | step op next, s, h => by
    obtain ⟨hooks, hop⟩ := op.run_open h
    rw [run_step, hop]
    cases hcommand : op.command s.namespaces with
    | error e =>
      obtain ⟨hooks', ih⟩ := run_open (next (.error e)) (s := s.queued (.error e) hooks) h
      refine ⟨hooks', ?_⟩
      rw [queued, hcommand]
      exact ih
    | ok command =>
      obtain ⟨hooks', ih⟩ := run_open (next (.ok .nil)) (s := s.queued (.ok command) hooks) h
      refine ⟨hooks', ?_⟩
      rw [queued, hcommand]
      refine ih.trans ?_
      simp only [Session.queued, Console.queued, Batch.add, List.append_assoc, List.singleton_append]

/-! ## Outside a batch -/

theorem Operation.idle_run (op : Operation) : Action.Preserves (fun s : Session σ => s.console.Idle) op.run := by
  have hconsole {x : Action (Console σ) Value} (hx : Action.Preserves Console.Idle x) :
      Action.Preserves (fun s : Session σ => s.console.Idle) (Session.onConsole x) := fun s h => hx s.console h
  cases op with
  | execute target params measured => exact hconsole (Console.idle_perform _ _)
  | executeText text => exact hconsole (Console.idle_perform _ _)
  | call agent name args =>
    show Action.Preserves _ (Session.call agent name args)
    refine Action.preserves_bind ?_ fun ns => Action.preserves_bind (Action.preserves_lift _) fun binding => ?_
    · refine Action.preserves_bind (Action.preserves_read _) fun namespaces => ?_
      split
      · exact Action.preserves_pure _
      · exact Action.preserves_fail _
    · intro s h
      exact Tool.idle_call _ _ _ s.console h

theorem Body.idle_run : ∀ (body : Body α), Action.Preserves (fun s : Session σ => s.console.Idle) body.run
  | done _, _, h => h
  | step op next, s, h => idle_run (next (op.run s).1) _ (op.idle_run s h)

end RemoteConsole
