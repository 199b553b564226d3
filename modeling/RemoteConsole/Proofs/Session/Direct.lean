import RemoteConsole.Proofs.Session.Invoke
import RemoteConsole.Proofs.Session.Transaction

/-!
# What an operation says

Outside a batch an operation whose arguments are in order sends one text, some twice, and nothing
else but probes and what they lead to. Inside a batch it queues a command, and committing turns the
command into a text. The two texts are the same, but for the prefix of a measured fragment.
-/

namespace RemoteConsole

variable {σ α : Type}

/-! ## Outside a batch -/

/-- From the one console to the other a text is sent that often, and beside it probes with the
installation and the probe that may follow them. -/
inductive Console.Says (text : String) : Nat → Console σ → Console σ → Prop
  | quiet {c c' : Console σ} : c'.wire.exchanges = c.wire.exchanges → Says text 0 c c'
  | said {c c' : Console σ} {reply : Option String} :
    c'.wire.exchanges = c.wire.exchanges ++ [⟨.command text, reply⟩] → Says text 1 c c'
  | asked {c c' : Console σ} {ctx : Context} {first reinstall again : List Exchange} :
    ctx.Asked c c' first reinstall again →
    c'.wire.exchanges = c.wire.exchanges ++ (first ++ reinstall ++ again) → Says text 0 c c'
  | trans {m n : Nat} {c d e : Console σ} : Says text m c d → Says text n d e → Says text (m + n) c e

/-- An action says a text, at least once if it succeeds. -/
def Console.Tells (text : String) (c : Console σ) (r : Outcome α × Console σ) : Prop :=
  ∃ n, Says text n c r.2 ∧ (r.1.isOk = true → 0 < n)

namespace Console

theorem Tells.of_failed {text : String} {c : Console σ} {r : Outcome α × Console σ} {n : Nat}
    (h : Says text n c r.2) (hfail : r.1.isOk = false) : Tells text c r :=
  ⟨n, h, fun hok => by rw [hfail] at hok; cases hok⟩

theorem Tells.bind {β : Type} {text : String} {c : Console σ} {x : Action (Console σ) α} {f : α → Action (Console σ) β}
    (h : Tells text c (x c)) (hf : ∀ a d, x c = (.ok a, d) → ∃ m, Says text m d (f a d).2) :
    Tells text c ((x >>= f) c) := by
  obtain ⟨n, hsays, hpos⟩ := h
  cases hx : x c with
  | mk outcome d =>
    rw [hx] at hsays hpos
    cases outcome with
    | error e => rw [Action.bind_error hx]; exact .of_failed hsays rfl
    | crash k => rw [Action.bind_crash hx]; exact .of_failed hsays rfl
    | ok a =>
      obtain ⟨m, hnext⟩ := hf a d hx
      rw [Action.bind_ok hx]
      exact ⟨n + m, .trans hsays hnext, fun _ => Nat.lt_of_lt_of_le (hpos rfl) (Nat.le_add_right n m)⟩

theorem Tells.bind_quiet {β : Type} {text : String} {c : Console σ} {x : Action (Console σ) α}
    {f : α → Action (Console σ) β} (h : Tells text c (x c))
    (hf : ∀ a wire, Action.Preserves (fun d => d.wire = wire) (f a)) : Tells text c ((x >>= f) c) :=
  h.bind fun a d _ => ⟨0, .quiet (congrArg Wire.exchanges (hf a d.wire d rfl))⟩

theorem tells_send (text : String) (c : Console σ) : Tells text c (send text c) := by
  cases hpoisoned : c.wire.poisoned with
  | true =>
    rw [send_poisoned hpoisoned]
    exact .of_failed (.quiet rfl) rfl
  | false =>
    rw [send_clean hpoisoned]
    exact ⟨1, .said rfl, fun _ => Nat.one_pos⟩

theorem tells_run (text : String) (measured : Bool) (c : Console σ) : Tells text c (run text measured c) := by
  refine (tells_send text c).bind_quiet fun reply wire => ?_
  refine Action.preserves_bind (preserves_decode _) fun value => ?_
  split
  · exact Action.preserves_bind (Action.preserves_modify fun _ h => h) fun _ => Action.preserves_pure value
  · exact Action.preserves_pure value

theorem tells_perform {c : Console σ} (hidle : c.Idle) (command : Command) (measured : Bool) :
    Tells (c.registry.compileCommand measured command) c (perform command measured c) := by
  unfold perform
  rw [Action.bind_ok (queueIfOpen_idle hidle command)]
  exact tells_run _ measured c

end Console

namespace Context

theorem tells_invoke (ctx : Context) (args : List Value) {c : Console σ} (hidle : c.Idle) :
    Console.Tells (ctx.invokeCommand args) c (ctx.invoke args c) := by
  have hclosed : c.batch.isOpen = false := by rw [hidle]; rfl
  obtain ⟨first, reinstall, again, h⟩ := ctx.ensured hclosed
  rw [ctx.invoke_idle args hclosed]
  cases hensure : ctx.ensureRegistered c with
  | mk outcome d =>
    rw [hensure] at h
    have hsaid : Console.Says (ctx.invokeCommand args) 0 c d := .asked h.asked h.log
    cases hok : outcome.isOk with
    | false =>
      obtain ⟨failure, hbind, hfail⟩ := Action.bind_failed hensure hok fun _ => Console.run (ctx.invokeCommand args) true
      rw [hbind]
      exact .of_failed hsaid hfail
    | true =>
      obtain rfl := Action.eq_ok_of_isOk hok
      rw [Action.bind_ok hensure]
      obtain ⟨n, hsays, hpos⟩ := Console.tells_run (ctx.invokeCommand args) true d
      exact ⟨0 + n, .trans hsaid hsays, fun hok => Nat.lt_of_lt_of_le (hpos hok) (Nat.le_add_left n 0)⟩

end Context

namespace Tool

theorem tells_callChecked {check : String → List Value → Except ControlError (List Value)} {ctx : Context}
    {args actuals : List Value} (hcheck : check ctx.capability args = .ok actuals) {c : Console σ} (hidle : c.Idle) :
    Console.Tells (ctx.invokeCommand actuals) c (callChecked check ctx args c) := by
  unfold callChecked
  rw [hcheck, Action.lift_ok_bind]
  exact ctx.tells_invoke actuals hidle

theorem tells_callInspect {ctx : Context} {args actuals : List Value} (hcheck : noArgs ctx.capability args = .ok actuals)
    {c : Console σ} (hidle : c.Idle) : Console.Tells (ctx.invokeCommand actuals) c (callInspect ctx args c) := by
  unfold callInspect
  rw [hcheck, Action.lift_ok_bind]
  refine (ctx.tells_invoke actuals hidle).bind_quiet fun v wire => ?_
  split
  · exact Action.preserves_pure _
  · exact Action.preserves_pure _

theorem tells_ticksSince (ctx : Context) (ticks : Int64) (start : Value) {c : Console σ} (hidle : c.Idle) :
    Console.Tells (ctx.invokeCommand []) c (ticksSince ctx ticks start c) := by
  refine (ctx.tells_invoke [] hidle).bind_quiet fun stop wire => ?_
  split
  · exact Action.preserves_resume _
  · exact Action.preserves_pure _

theorem tells_callSleep {ctx : Context} {args actuals : List Value}
    (hcheck : sleep.actuals ctx.capability args = .ok actuals) {c : Console σ} (hidle : c.Idle) :
    Console.Tells (ctx.invokeCommand actuals) c (callSleep ctx args c) := by
  obtain ⟨ticks, hticks, rfl⟩ := ticksArg_ok hcheck
  rw [callSleep_eq, hticks, Action.lift_ok_bind]
  refine (ctx.tells_invoke [] hidle).bind fun start d hstart => ?_
  have hd : d.Idle := by
    have h := ctx.idle_invoke [] c hidle
    rwa [hstart] at h
  unfold sleepFrom
  split
  · exact ⟨0, .quiet rfl⟩
  split
  next span _ =>
    obtain ⟨n, hsays, -⟩ := tells_ticksSince ctx ticks start (c := (Console.wait span d).2) hd
    exact ⟨0 + n, .trans (d := (Console.wait span d).2) (.quiet rfl) hsays⟩
  next => exact ⟨0, .quiet rfl⟩

theorem tells_call {tool : Tool} {ctx : Context} {args actuals : List Value}
    (hcheck : tool.actuals ctx.capability args = .ok actuals) {c : Console σ} (hidle : c.Idle) :
    Console.Tells (ctx.invokeCommand actuals) c (tool.call ctx args c) := by
  cases tool with
  | moveTo | placeEntity | placeNextTo | pickUpEntity | clearEntities | setInventory =>
    exact tells_callChecked hcheck hidle
  | inspectInventory => exact tells_callInspect hcheck hidle
  | sleep => exact tells_callSleep hcheck hidle

theorem callChecked_refused {check : String → List Value → Except ControlError (List Value)} {ctx : Context}
    {args : List Value} {e : ControlError} (hcheck : check ctx.capability args = .error e) (c : Console σ) :
    callChecked check ctx args c = (.error e, c) := by
  unfold callChecked
  rw [hcheck, Action.lift_error_bind]

theorem call_refused {tool : Tool} {ctx : Context} {args : List Value} {e : ControlError}
    (hcheck : tool.actuals ctx.capability args = .error e) (c : Console σ) : tool.call ctx args c = (.error e, c) := by
  cases tool with
  | moveTo | placeEntity | placeNextTo | pickUpEntity | clearEntities | setInventory =>
    exact callChecked_refused hcheck c
  | inspectInventory =>
    show callInspect ctx args c = (.error e, c)
    unfold callInspect
    rw [show noArgs ctx.capability args = .error e from hcheck, Action.lift_error_bind]
  | sleep =>
    show callSleep ctx args c = (.error e, c)
    rw [callSleep_eq, ticksArg_error hcheck, Action.lift_error_bind]

end Tool

/-! ## Operations -/

/-- The accounting that an operation asks for. Calls are always counted. -/
def Operation.isMeasured : Operation → Bool
  | execute _ _ measured => measured
  | executeText _ => false
  | call .. => true

theorem ToolInstance.command_ok {t : ToolInstance} {args : List Value} {command : Command}
    (h : t.command args = .ok command) :
    ∃ actuals, t.tool.actuals t.context.capability args = .ok actuals ∧ command = t.context.command actuals := by
  unfold ToolInstance.command at h
  cases hcheck : t.tool.actuals t.context.capability args with
  | error e => rw [hcheck] at h; cases h
  | ok actuals => rw [hcheck] at h; cases h; exact ⟨actuals, rfl, rfl⟩

theorem ToolInstance.command_error {t : ToolInstance} {args : List Value} {e : ControlError}
    (h : t.command args = .error e) : t.tool.actuals t.context.capability args = .error e := by
  unfold ToolInstance.command at h
  cases hcheck : t.tool.actuals t.context.capability args with
  | error e' => rw [hcheck] at h; cases h; rfl
  | ok actuals => rw [hcheck] at h; cases h

namespace Operation

theorem run_refused {op : Operation} {s : Session σ} {e : ControlError} (h : op.command s.namespaces = .error e) :
    ∃ hooks, op.run s = (.error e, { s with hooks }) := by
  cases op with
  | execute target params measured => cases h
  | executeText text => cases h
  | call agent name args =>
    have hcommand : callCommand s.namespaces agent name args = .error e := h
    rcases Session.call_cases agent name args s with ⟨e', herror, hcall⟩ | ⟨ns, binding, hooks, -, -, hbinding, hcall⟩
    · cases hcommand.symm.trans herror
      exact ⟨s.hooks, hcall⟩
    · rw [Tool.call_refused (ToolInstance.command_error (hbinding.symm.trans hcommand))] at hcall
      exact ⟨hooks, hcall⟩

theorem tells_run {op : Operation} {s : Session σ} {command : Command}
    (h : op.command s.namespaces = .ok command) (hidle : s.console.Idle) :
    Console.Tells (s.console.registry.compileCommand op.isMeasured command) s.console
      ((op.run s).1, (op.run s).2.console) := by
  cases op with
  | execute target params measured =>
    cases h
    exact Console.tells_perform hidle _ measured
  | executeText text =>
    cases h
    exact Console.tells_perform hidle _ false
  | call agent name args =>
    have hcommand : callCommand s.namespaces agent name args = .ok command := h
    rcases Session.call_cases agent name args s with ⟨e, herror, -⟩ | ⟨ns, binding, hooks, -, -, hbinding, hcall⟩
    · cases hcommand.symm.trans herror
    · obtain ⟨actuals, hcheck, rfl⟩ := ToolInstance.command_ok (hbinding.symm.trans hcommand)
      show Console.Tells _ _ ((Session.call agent name args s).1, (Session.call agent name args s).2.console)
      rw [hcall]
      exact Tool.tells_call hcheck hidle

end Operation

end RemoteConsole
