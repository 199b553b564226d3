import RemoteConsole.Proofs.Session.Steady

/-!
# An idle batch stays idle

Only opening a batch makes it open. Whatever is sent, installed or called while
it is idle is done at once, and nothing is queued.
-/

namespace RemoteConsole

open RemoteConsole.Action

variable {σ : Type}

/-- The batch is idle, and an idle batch is empty. -/
def Console.Idle (c : Console σ) : Prop := c.batch = .idle

namespace Console

theorem framed_idle : Framed (Idle (σ := σ)) := ⟨preserves_send fun _ h => h, fun _ h => h⟩

theorem idle_updateClock (f : Clock → Clock) : Preserves (Idle (σ := σ)) (updateClock f) :=
  preserves_modify fun _ h => h

/-! ## Running -/

theorem queueIfOpen_idle {c : Console σ} (h : c.Idle) (command : Command) : queueIfOpen command c = (.ok none, c) := by
  unfold queueIfOpen
  rw [h]
  rfl

theorem idle_run (text : String) (measured : Bool) : Preserves (Idle (σ := σ)) (run text measured) :=
  framed_idle.run (fun _ => idle_updateClock _) text measured

theorem idle_perform (command : Command) (measured : Bool) : Preserves (Idle (σ := σ)) (perform command measured) := by
  intro c h
  unfold perform
  rw [bind_ok (queueIfOpen_idle h command)]
  exact preserves_bind (preserves_read _) (fun _ => idle_run _ _) c h

end Console

namespace Context

theorem idle_invoke (ctx : Context) (args : List Value) : Preserves (Console.Idle (σ := σ)) (ctx.invoke args) := by
  intro c h
  unfold invoke
  rw [bind_ok (Console.queueIfOpen_idle h _)]
  apply preserves_bind (Console.framed_idle.ensureRegistered (fun _ h => h) ctx)
  · exact fun _ => Console.idle_run _ _
  · exact h

end Context

namespace Tool

theorem idle_call (tool : Tool) (ctx : Context) (args : List Value) :
    Preserves (Console.Idle (σ := σ)) (tool.call ctx args) := by
  intro c h
  apply (tool.call_leaves ctx args c).preserved
  · exact ctx.idle_invoke
  · exact fun _ => preserves_modify fun _ h => h
  · exact h

end Tool

end RemoteConsole
