import RemoteConsole.Proofs.Action
import RemoteConsole.Session.Console

/-!
# What installing leaves alone

Everything that is installed goes over the wire and through the registry, as commands that are not
measured, and no error that this can end with refuses arguments. A property on which neither the
wire nor the registry bears survives every installation, however it ends; in particular the batch,
the clock and what is known of the contexts stay as they are.
-/

namespace RemoteConsole.Console

open RemoteConsole.Action

variable {σ : Type}

/-! ## Sending -/

theorem send_poisoned {c : Console σ} (h : c.wire.poisoned = true) (command : String) :
    send command c = (.error Wire.lockPoisoned, c) := by
  rw [send, onWire, Action.zoom, Wire.send, if_pos h]

theorem send_clean {c : Console σ} (h : c.wire.poisoned = false) (command : String) :
    send command c = ((c.wire.link.send command c.wire.state).1,
      { c with wire := (Wire.ask command (c.wire.link.send command) c.wire).2 }) := by
  rw [send, onWire, Action.zoom, Wire.send, h, if_neg (by decide)]
  rfl

theorem send_cases {α : Type} (command : String) (next : LinkReply → Action (Console σ) α) (c : Console σ) :
    (∃ outcome, (send command >>= next) c = (outcome, c) ∧ outcome.isOk = false) ∨
    ∃ wire reply, wire.exchanges = c.wire.exchanges ++ [⟨.command command, reply⟩] ∧
      ((reply = none ∧ ∃ outcome, (send command >>= next) c = (outcome, { c with wire }) ∧ outcome.isOk = false) ∨
        ∃ r, reply = some r.text ∧ (send command >>= next) c = next r { c with wire }) := by
  cases hpoisoned : c.wire.poisoned with
  | true => exact .inl ⟨_, Action.bind_error (send_poisoned hpoisoned command), rfl⟩
  | false =>
    have hsend := send_clean hpoisoned command
    refine .inr ⟨(Wire.ask command (c.wire.link.send command) c.wire).2, _, rfl, ?_⟩
    cases hlink : (c.wire.link.send command c.wire.state).1 with
    | ok r => rw [hlink] at hsend; exact .inr ⟨r, rfl, Action.bind_ok hsend⟩
    | error e => rw [hlink] at hsend; exact .inl ⟨rfl, _, Action.bind_error hsend, rfl⟩
    | crash k => rw [hlink] at hsend; exact .inl ⟨rfl, _, Action.bind_crash hsend, rfl⟩

/-! ## Upkeep -/

/-- Probes, uploads and what is done about fingerprints: none of them is measured. -/
def IsUpkeep (text : String) : Prop := "/sc ".toList <+: text.toList

theorem isUpkeep_append (text : String) : IsUpkeep ("/sc " ++ text) := by
  unfold IsUpkeep
  rw [String.toList_append]
  exact List.prefix_append _ _

theorem isUpkeep_fetchCommand : IsUpkeep fetchCommand :=
  isUpkeep_append "rcon.print(game.table_to_json(global.fingerprints or \x7b\x7d))"

theorem isUpkeep_clearCommand : IsUpkeep clearCommand := isUpkeep_append "global.fingerprints = \x7b\x7d"

theorem isUpkeep_recordCommand (entries : List (String × String)) : IsUpkeep (recordCommand entries) := by
  have hopening : IsUpkeep "/sc global.fingerprints = global.fingerprints or \x7b\x7d; " :=
    isUpkeep_append "global.fingerprints = global.fingerprints or \x7b\x7d; "
  unfold recordCommand IsUpkeep
  rw [String.toList_append]
  exact hopening.trans (List.prefix_append _ _)

/-! ## Finding scripts -/

theorem checked_scriptsAt (path : String) (kind : Script.Kind) (nameOf : String → String) (files : FileTree) :
    Checked (· = .unreadable) (fun _ => True) (scriptsAt path kind nameOf files) := by
  refine Checked.mapM (fun (name, bytes) => ?_) _
  dsimp only
  split
  · trivial
  · rfl

theorem checked_ownerScripts (path owner : String) (files : FileTree) :
    Checked (· = .unreadable) (fun _ => True) (ownerScripts path owner files) := by
  apply Checked.map
  · apply Checked.mapM
    intro directory
    exact checked_scriptsAt _ _ _ files
  · intro _ _
    trivial

theorem checked_discover (libraryDir toolsDir : String) (caching : Bool) (files : FileTree) :
    Checked (· = .unreadable) (fun _ => True) (Registry.discover libraryDir toolsDir caching files) := by
  apply (checked_scriptsAt libraryDir .library id files).bind
  intro libraries _
  apply Checked.bind
  · apply Checked.mapM
    intro directory
    exact checked_ownerScripts _ _ files
  · intro _ _
    trivial

/-! ## Installing -/

section
variable {P : Console σ → Prop} {E : ControlError → Prop} {C : Console σ → Prop}

theorem confined_decode (herror : ∀ e, E (.remote e)) (reply : String) : Confined P E C (decode reply) := by
  unfold decode
  split
  · exact confined_pure _
  · exact confined_fail (herror _)

theorem preserves_decode (reply : String) : Preserves P (decode reply) :=
  (confined_decode (E := fun _ => True) (C := fun _ => True) (fun _ => trivial) reply).preserves

/-- Upkeep is sent as is allowed, the registry does not bear on the property, and every error may
occur that does not refuse arguments. -/
structure Upheld (P : Console σ → Prop) (E : ControlError → Prop) (C : Console σ → Prop) : Prop where
  send : ∀ {text}, IsUpkeep text → Confined P E C (send text)
  registry : ∀ {c : Console σ} (registry : Registry), P c → P { c with registry }
  error : ∀ {e : ControlError}, ¬ e.IsRefusal → E e

namespace Upheld

variable (h : Upheld P E C)
include h

theorem fail {α : Type} {e : ControlError} (he : ¬ e.IsRefusal) : Confined P E C (fail e : Action (Console σ) α) :=
  confined_fail (h.error he)

theorem decode (reply : String) : Confined P E C (decode reply) := confined_decode (fun _ => h.error id) reply

theorem updateRegistry (f : Registry → Registry) : Confined P E C (updateRegistry f) :=
  confined_modify fun _ hc => h.registry _ hc

theorem fetch : Confined P E C fetch := by
  refine confined_bind (h.send isUpkeep_fetchCommand) fun reply => ?_
  split
  · exact h.updateRegistry _
  · exact h.fail id

theorem sync : Confined P E C sync := by
  refine confined_bind (confined_read _) fun caching => ?_
  split
  · exact h.fetch
  · exact confined_bind (h.send isUpkeep_clearCommand) fun _ => h.updateRegistry _

theorem record (entries : List (String × String)) : Confined P E C (record entries) := by
  unfold Console.record
  split
  · exact confined_pure _
  · exact confined_bind (h.send (isUpkeep_recordCommand _)) fun _ => h.updateRegistry _

theorem upload (pending : List (String × String)) (name : String) : Confined P E C (upload pending name) := by
  refine confined_bind (confined_read _) fun registry => ?_
  split
  · exact h.fail id
  split
  · exact confined_pure _
  split
  · exact h.fail id
  refine confined_bind (h.send (isUpkeep_append _)) fun reply => ?_
  exact confined_bind (h.decode _) fun _ => confined_pure _

theorem install (names : List String) : Confined P E C (install names) :=
  confined_bind (confined_foldlM h.upload names []) fun _ =>
    confined_bind (h.record _) fun _ => confined_pure _

theorem installLibraries (names : List String) : Confined P E C (installLibraries names) := by
  refine confined_bind (confined_read _) fun registry => ?_
  simp only
  split
  · exact h.fail id
  · exact h.install names

theorem installTools (path : String) : Confined P E C (installTools path) :=
  confined_bind (confined_read _) fun _ =>
    confined_bind (h.install _) fun _ => confined_pure _

theorem bootstrap : Confined P E C bootstrap :=
  confined_bind h.sync fun _ => confined_bind (confined_read _) fun _ =>
    confined_bind (h.installLibraries _) fun _ => confined_pure _

theorem invalidate : Confined P E C invalidate := by
  refine confined_bind confined_get fun c => confined_bind (confined_lift (Q := fun _ => True) ?_) fun fresh => ?_
  · have hfound := checked_discover c.config.scripts.libraryDir c.config.scripts.toolsDir false c.files
    cases hdiscover : Registry.discover c.config.scripts.libraryDir c.config.scripts.toolsDir false c.files with
    | ok fresh => trivial
    | error e => cases hfound.error hdiscover; exact h.error id
  refine confined_bind (h.updateRegistry _) fun _ => confined_bind h.bootstrap fun _ => ?_
  exact confined_forM (fun d => confined_bind (h.installTools _) fun _ => confined_pure _) _

theorem run (hclock : ∀ elapsed, Preserves P (updateClock (·.advance elapsed))) {text : String} (hsend : Confined P E C (Console.send text))
    (measured : Bool) : Confined P E C (run text measured) := by
  refine confined_bind hsend fun reply => confined_bind (h.decode _) fun value => ?_
  split
  · exact confined_bind (confined_modify (hclock _)) fun _ => confined_pure _
  · exact confined_pure _

end Upheld

end

/-! ## What is preserved whatever is sent -/

/-- Sending commands keeps the property, and the registry does not bear on it. -/
structure Framed (P : Console σ → Prop) : Prop where
  send : ∀ command, Preserves P (send command)
  registry : ∀ {c : Console σ} (registry : Registry), P c → P { c with registry }

theorem preserves_send {P : Console σ → Prop} (h : ∀ {c : Console σ} (wire : Wire σ), P c → P { c with wire })
    (command : String) : Preserves P (send command) := preserves_zoom _ fun _ _ hc => h _ hc

theorem decode_ok {reply : String} {v : Value} (h : Reply.decode reply = .ok v) (c : Console σ) :
    decode reply c = (.ok v, c) := by
  rw [decode, h]
  rfl

theorem decode_error {reply : String} {e : RemoteError} (h : Reply.decode reply = .error e)
    (c : Console σ) : decode reply c = (.error (.remote e), c) := by
  rw [decode, h]
  rfl

namespace Framed

variable {P : Console σ → Prop} (h : Framed P)
include h

theorem upheld : Upheld P (fun _ => True) (fun _ => True) where
  send _ := (h.send _).confined
  registry := h.registry
  error _ := trivial

theorem installTools (path : String) : Preserves P (installTools path) := (h.upheld.installTools path).preserves

theorem bootstrap : Preserves P bootstrap := h.upheld.bootstrap.preserves

theorem invalidate : Preserves P invalidate := h.upheld.invalidate.preserves

theorem run (hclock : ∀ elapsed, Preserves P (updateClock (·.advance elapsed))) (text : String) (measured : Bool) :
    Preserves P (run text measured) := (h.upheld.run hclock (h.send text).confined measured).preserves

end Framed

/-! ## What installing changes -/

/-- The consoles that differ from one in the wire and the registry at most. -/
def SameRest (c c' : Console σ) : Prop := c' = { c with wire := c'.wire, registry := c'.registry }

theorem framed_sameRest (c : Console σ) : Framed (SameRest c) where
  send := preserves_send fun _ h => by
    rw [SameRest] at h ⊢
    rw [h]
  registry := fun _ h => by
    rw [SameRest] at h ⊢
    rw [h]

theorem invalidate_sameRest (c : Console σ) : SameRest c (invalidate c).2 :=
  (framed_sameRest c).invalidate c rfl

def Continues (c c' : Console σ) : Prop :=
  ∃ later, c'.wire.exchanges = c.wire.exchanges ++ later

theorem Continues.refl (c : Console σ) : Continues c c := ⟨[], by rw [List.append_nil]⟩

theorem preserves_continues_send (c : Console σ) (command : String) :
    Preserves (Continues c) (send command) := by
  rintro d ⟨later, hlater⟩
  cases hpoisoned : d.wire.poisoned with
  | true =>
    rw [send_poisoned hpoisoned]
    exact ⟨later, hlater⟩
  | false =>
    have hlog : ∃ reply, (Wire.ask command (d.wire.link.send command) d.wire).2.exchanges =
        d.wire.exchanges ++ [⟨.command command, reply⟩] := ⟨_, rfl⟩
    obtain ⟨reply, hlog⟩ := hlog
    rw [send_clean hpoisoned]
    exact ⟨later ++ [⟨.command command, reply⟩], by rw [hlog, hlater, List.append_assoc]⟩

theorem invalidate_continues (c : Console σ) : Continues c (invalidate c).2 :=
  Framed.invalidate ⟨preserves_continues_send c, fun _ h => h⟩ c (.refl c)

end RemoteConsole.Console
