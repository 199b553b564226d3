import RemoteConsole.Proofs.Capability.Sleep
import RemoteConsole.Proofs.Session.Frame
import RemoteConsole.Session.Basic

/-!
# What a whole session leaves alone

A property that survives every command and every batch, and on which neither the queue nor the
clock nor what is known of the contexts bears, survives everything that a session does to its
console short of closing the link.
-/

namespace RemoteConsole

open RemoteConsole.Action

variable {σ : Type} {P : Console σ → Prop}

/-! ## Asking -/

theorem Context.isUpkeep_probeCommand (ctx : Context) : Console.IsUpkeep ctx.probeCommand := by
  have hfront : Console.IsUpkeep "/sc rcon.print(global.actions ~= nil and global.actions[" :=
    Console.isUpkeep_append "rcon.print(global.actions ~= nil and global.actions["
  have htext : ctx.probeCommand =
      "/sc rcon.print(global.actions ~= nil and global.actions[" ++ (ctx.key ++ "] ~= nil)") := String.append_assoc
  unfold Console.IsUpkeep
  rw [htext, String.toList_append]
  exact hfront.trans (List.prefix_append _ _)

namespace Console.Upheld

variable {E : ControlError → Prop} {C : Console σ → Prop} (h : Upheld P E C)
  (hconfirmed : ∀ {c : Console σ} (confirmed : List Nat), P c → P { c with confirmed })
include h hconfirmed

theorem probe (ctx : Context) : Confined P E C ctx.probe := by
  refine confined_bind (h.send ctx.isUpkeep_probeCommand) fun reply => confined_bind (h.decode _) fun value => ?_
  split
  · exact confined_modify fun _ hc => hconfirmed _ hc
  · exact h.fail id

theorem ensureRegistered (ctx : Context) : Confined P E C ctx.ensureRegistered := by
  refine confined_bind (confined_read _) fun known => ?_
  split
  · exact confined_pure _
  refine confined_attempt_bind (h.probe hconfirmed ctx) fun outcome c hended => ?_
  split
  · exact confined_bind h.invalidate (fun _ => h.probe hconfirmed ctx) c hended.keeps
  · exact hended

end Console.Upheld

theorem Console.Framed.ensureRegistered (h : Framed P)
    (hconfirmed : ∀ {c : Console σ} (confirmed : List Nat), P c → P { c with confirmed }) (ctx : Context) :
    Preserves P ctx.ensureRegistered := (h.upheld.ensureRegistered hconfirmed ctx).preserves

/-! ## Commands and batches -/

namespace Console

/-- Batches keep the property as commands do, and so does a clock that goes on at its speed. -/
structure Steady (P : Console σ → Prop) : Prop extends Framed P where
  sendBatch : ∀ entries, Preserves P (onWire (Wire.sendBatch entries))
  batch : ∀ {c : Console σ} (batch : Batch), P c → P { c with batch }
  clock : ∀ {c : Console σ} {clock : Clock}, clock.gameSpeed = c.clock.gameSpeed → P c → P { c with clock }

namespace Steady

variable (h : Steady P)
include h

theorem updateClock {f : Clock → Clock} (hf : ∀ clock, (f clock).gameSpeed = clock.gameSpeed) :
    Preserves P (updateClock f) := preserves_modify fun c hc => h.clock (hf c.clock) hc

theorem run (text : String) (measured : Bool) : Preserves P (run text measured) :=
  h.toFramed.run (fun _ => h.updateClock fun _ => rfl) text measured

theorem setBatch (batch : Batch) : Preserves P (setBatch batch) := preserves_modify fun _ hc => h.batch _ hc

theorem queueIfOpen (command : Command) : Preserves P (queueIfOpen command) := by
  intro c hc
  unfold Console.queueIfOpen
  split
  · exact h.batch _ hc
  · exact hc

theorem perform (command : Command) (measured : Bool) : Preserves P (perform command measured) := by
  refine preserves_bind (h.queueIfOpen _) fun queued => ?_
  split
  · exact preserves_pure _
  · exact preserves_bind (preserves_read _) fun _ => h.run _ _

theorem commit (measured : Bool) : Preserves P (commit measured) := by
  refine preserves_bind (preserves_read _) fun batch => ?_
  split
  · refine preserves_bind (h.setBatch _) fun _ => ?_
    unfold sendQueue
    split
    · exact preserves_pure _
    · exact preserves_bind (preserves_read _) fun _ =>
        preserves_bind (h.sendBatch _) fun _ => preserves_lift _
  · exact preserves_fail _

theorem recordTick (reply : String) : Preserves P (Session.recordTick reply) := by
  unfold Session.recordTick
  split
  · split
    · exact h.updateClock fun _ => rfl
    · exact preserves_pure _
  · exact preserves_pure _

theorem invoke (hconfirmed : ∀ {c : Console σ} (confirmed : List Nat), P c → P { c with confirmed }) (ctx : Context)
    (args : List Value) : Preserves P (ctx.invoke args) := by
  refine preserves_bind (h.queueIfOpen _) fun queued => ?_
  split
  · exact preserves_pure _
  · exact preserves_bind (h.ensureRegistered hconfirmed ctx) fun _ => h.run _ _

end Steady

end Console

/-! ## Calls -/

namespace Tool

/-- What a call leaves of a console: it invokes nothing, or once, or twice with a wait between. -/
inductive Leaves (ctx : Context) (c : Console σ) : Console σ → Prop
  | nothing : Leaves ctx c c
  | once (args : List Value) : Leaves ctx c (ctx.invoke args c).2
  | twice (d : Duration) : Leaves ctx c (ctx.invoke [] (Console.wait d (ctx.invoke [] c).2).2).2

theorem callChecked_leaves (check : String → List Value → Except ControlError (List Value)) (ctx : Context)
    (args : List Value) (c : Console σ) : Leaves ctx c (callChecked check ctx args c).2 := by
  unfold callChecked
  cases check ctx.capability args with
  | error e => exact .nothing
  | ok actuals => exact .once actuals

theorem callInspect_leaves (ctx : Context) (args : List Value) (c : Console σ) :
    Leaves ctx c (callInspect ctx args c).2 := by
  unfold callInspect
  cases noArgs ctx.capability args with
  | error e => exact .nothing
  | ok actuals =>
    rw [lift_ok_bind, bind_still]
    · exact .once actuals
    · intro v c
      split
      · rfl
      · rfl

theorem callSleep_leaves (ctx : Context) (args : List Value) (c : Console σ) :
    Leaves ctx c (callSleep ctx args c).2 := by
  rw [callSleep_eq]
  cases ticksArg ctx.capability args with
  | error e => exact .nothing
  | ok ticks =>
    rw [lift_ok_bind]
    have honce : Leaves ctx c (ctx.invoke [] c).2 := .once []
    have htwice (d : Duration) : Leaves ctx c (ctx.invoke [] (Console.wait d (ctx.invoke [] c).2).2).2 := .twice d
    cases hinvoke : ctx.invoke [] c with
    | mk outcome c' =>
      rw [hinvoke] at honce htwice
      cases outcome with
      | error e => rw [bind_error hinvoke]; exact honce
      | crash k => rw [bind_crash hinvoke]; exact honce
      | ok start =>
        rw [bind_ok hinvoke, sleepFrom]
        split
        · exact honce
        split
        · rw [ticksSince_snd]
          exact htwice _
        · exact honce

theorem call_leaves (tool : Tool) (ctx : Context) (args : List Value) (c : Console σ) :
    Leaves ctx c (tool.call ctx args c).2 := by
  cases tool with
  | moveTo | placeEntity | placeNextTo | pickUpEntity | clearEntities | setInventory =>
    exact callChecked_leaves _ ctx args c
  | inspectInventory => exact callInspect_leaves ctx args c
  | sleep => exact callSleep_leaves ctx args c

theorem Leaves.preserved {ctx : Context} {c d : Console σ} (h : Leaves ctx c d)
    (hinvoke : ∀ args, Preserves P (ctx.invoke args)) (hwait : ∀ d, Preserves P (Console.wait d)) (hc : P c) : P d := by
  have hstart := hinvoke [] c hc
  cases h with
  | nothing => exact hc
  | once args => exact hinvoke args c hc
  | twice d => exact hinvoke [] _ (hwait d _ hstart)

end Tool

/-! ## Loading -/

namespace Session

/-- What holds of a session follows from what holds of its console, whatever its namespaces are. -/
structure Follows (P : Console σ → Prop) (Q : Session σ → Prop) : Prop where
  onConsole : ∀ {α : Type} {x : Action (Console σ) α}, Preserves P x → Preserves Q (onConsole x)
  namespaces : ∀ {s : Session σ} (namespaces : List (Namespace ToolInstance)), Q s → Q { s with namespaces }

namespace Follows

variable {Q : Session σ → Prop} (h : Follows P Q) (hframed : Console.Framed P)
  (hcontexts : ∀ {c : Console σ} (contexts : Nat), P c → P { c with contexts })
include h hframed hcontexts

theorem loadDirectory (d : CapabilityDirectory) : Preserves Q (loadDirectory d) := by
  unfold Session.loadDirectory
  split
  · exact preserves_fail _
  refine preserves_bind (h.onConsole (hframed.installTools _)) fun _ => ?_
  refine preserves_bind (preserves_read _) fun old => preserves_bind (preserves_mapM (fun ns => ?_) _) fun namespaces => ?_
  · exact preserves_bind (h.onConsole fun c hc => hcontexts _ hc) fun _ => preserves_pure _
  · exact preserves_modify fun _ hs => h.namespaces _ hs

theorem load : Preserves Q load :=
  preserves_bind (preserves_read _) fun _ =>
    preserves_bind (preserves_forM (h.loadDirectory hframed hcontexts) _) fun _ => preserves_pure _

theorem reload : Preserves Q reload :=
  preserves_bind (h.onConsole hframed.invalidate) fun _ =>
    preserves_bind (preserves_modify fun _ hs => h.namespaces _ hs) fun _ =>
      preserves_bind (h.load hframed hcontexts) fun _ => preserves_pure _

end Follows

end Session

end RemoteConsole
