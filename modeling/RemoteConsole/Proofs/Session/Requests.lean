import Mathlib.Data.List.Induction
import RemoteConsole.Proofs.Session.Steady

/-!
# What a session is asked for

A session is asked for one thing after the other. What every request preserves, any sequence of them
preserves; and a property of the console that commands and batches leave alone is preserved by all of
them, as long as the speeds that may be set and the closing of the link do not bear on it.
-/

namespace RemoteConsole

open RemoteConsole.Action

variable {σ : Type}

namespace Session

def contextAt? (agent : Nat) (name : String) (s : Session σ) : Option Context :=
  (s.namespaces[agent]?.bind (Namespace.get? name)).map fun b => b.instance'.context

end Session

/-- What a session is asked for. A call is made of hooks, invocations and waits. -/
inductive Request where
  | comeUp
  | hooks (change : Hooks → Hooks)
  | invoke (agent : Nat) (name : String) (args : List Value)
  | wait (d : Duration)
  | execute (target : String) (params : List Value) (measured : Bool)
  | executeText (text : String)
  | queue (command : Command)
  | beginTransaction
  | commit (measured : Bool)
  | rollback
  | installTools (path : String)
  | invalidate
  | edit (files : FileTree)
  | reload
  | reset
  | advance (elapsed : Duration)
  | setGameSpeed (speed : Double)
  | setAdminVisible (agent : Nat) (visible : Bool)
  | beat
  | stall
  | close

namespace Request

def next (s : Session σ) : Request → Session σ
  | comeUp => (Session.comeUp s).2
  | hooks change => { s with hooks := change s.hooks }
  | invoke agent name args =>
    match s.contextAt? agent name with
    | some ctx => (Session.onConsole (ctx.invoke args) s).2
    | none => s
  | wait d => (Session.onConsole (Console.wait d) s).2
  | execute target params measured => (Session.execute target params measured s).2
  | executeText text => (Session.executeText text s).2
  | queue command => (Session.onConsole (Console.queueIfOpen command) s).2
  | beginTransaction => (Session.beginTransaction s).2
  | commit measured => (Session.onConsole (Console.commit measured) s).2
  | rollback => (Session.rollback s).2
  | installTools path => (Session.onConsole (Console.installTools path) s).2
  | invalidate => (Session.onConsole Console.invalidate s).2
  | edit files => { s with console := { s.console with files } }
  | reload => (Session.reload s).2
  | reset => (Session.reset s).2
  | advance elapsed => (Session.onConsole (Console.updateClock (·.advance elapsed)) s).2
  | setGameSpeed speed => (Session.setGameSpeed speed s).2
  | setAdminVisible agent visible => (Session.setAdminVisible agent visible s).2
  | beat => (Session.beat s).2
  | stall => (Session.stall s).2
  | close => (Session.close s).2

def isInvoke : Request → Bool
  | invoke .. => true
  | _ => false

/-- The parts of a call of a capability by an agent. -/
def IsPartOf (agent : Nat) (name : String) : Request → Prop
  | hooks _ => True
  | invoke agent' name' _ => agent' = agent ∧ name' = name
  | wait _ => True
  | _ => False

def IsOwn : Request → Prop
  | comeUp => True
  | hooks _ => True
  | beat => True
  | stall => True
  | close => True
  | _ => False

end Request

namespace Session

def after (s : Session σ) (requests : List Request) : Session σ := requests.foldl Request.next s

theorem after_invoke {s : Session σ} {agent : Nat} {name : String} {ctx : Context}
    (hat : s.contextAt? agent name = some ctx) (args : List Value) :
    (Request.invoke agent name args).next s = (onConsole (ctx.invoke args) s).2 := by
  rw [Request.next, hat]

theorem after_append (s : Session σ) (requests more : List Request) :
    s.after (requests ++ more) = (s.after requests).after more := List.foldl_append

theorem after_snoc (s : Session σ) (requests : List Request) (r : Request) :
    s.after (requests ++ [r]) = r.next (s.after requests) := after_append s requests [r]

end Session

/-! ## What requests leave alone -/

/-- Neither the speeds that may be set nor what is counted, known, waited or on disk bears on the property. -/
structure Console.Lasting (P : Console σ → Prop) : Prop extends Steady P where
  speed : ∀ {c : Console σ} {speed : Double}, Config.isSpeed speed = true → P c →
    P { c with clock := { c.clock with gameSpeed := speed } }
  rest : ∀ {c : Console σ} (contexts : Nat) (confirmed : List Nat) (waited : Duration) (files : FileTree), P c →
    P { c with contexts, confirmed, waited, files }

namespace Session

theorem preserves_namespace? {P : Session σ → Prop} (agent : Nat) : Preserves P (namespace? agent) := by
  refine preserves_bind (preserves_read _) fun namespaces => ?_
  split
  · exact preserves_pure _
  · exact preserves_fail _

section
variable {P : Console σ → Prop} {Q : Session σ → Prop} (h : Follows P Q) (hlasting : Console.Lasting P)
include h hlasting

theorem Follows.setGameSpeed (speed : Double) : Preserves Q (setGameSpeed speed) := by
  unfold Session.setGameSpeed
  split
  · exact fun _ hs => hs
  next hspeed =>
    refine preserves_bind (preserves_read _) fun known => ?_
    split
    · exact fun _ hs => hs
    refine preserves_bind (h.onConsole (hlasting.perform _ _)) fun _ => ?_
    exact h.onConsole (preserves_modify fun _ hc => hlasting.speed (by simpa using hspeed) hc)

theorem Follows.next {r : Request} (hr : ¬ r.IsOwn) {s : Session σ} (hs : Q s) : Q (r.next s) := by
  have hcontexts {c : Console σ} (contexts : Nat) (hc : P c) : P { c with contexts } := hlasting.rest contexts _ _ _ hc
  have hconfirmed {c : Console σ} (confirmed : List Nat) (hc : P c) : P { c with confirmed } :=
    hlasting.rest _ confirmed _ _ hc
  have hconsole {α : Type} {x : Action (Console σ) α} (hx : Preserves P x) : Q (Session.onConsole x s).2 := h.onConsole hx s hs
  cases r with
  | comeUp | hooks | beat | stall | close => exact absurd trivial hr
  | invoke agent name args =>
    cases hat : s.contextAt? agent name with
    | none => rw [Request.next, hat]; exact hs
    | some ctx =>
      rw [after_invoke hat]
      exact hconsole (hlasting.invoke hconfirmed ctx args)
  | wait d => exact hconsole (preserves_modify fun _ hc => hlasting.rest _ _ _ _ hc)
  | execute target params measured => exact hconsole (hlasting.perform _ _)
  | executeText text => exact hconsole (hlasting.perform _ _)
  | queue command => exact hconsole (hlasting.queueIfOpen _)
  | beginTransaction => exact hconsole (hlasting.setBatch _)
  | commit measured => exact hconsole (hlasting.commit _)
  | rollback => exact hconsole (hlasting.setBatch _)
  | installTools path => exact hconsole (hlasting.installTools _)
  | invalidate => exact hconsole hlasting.invalidate
  | edit files => exact hconsole (preserves_modify fun _ hc => hlasting.rest _ _ _ files hc)
  | reload => exact h.reload hlasting.toFramed hcontexts s hs
  | reset =>
    exact preserves_bind (h.onConsole (hlasting.setBatch .idle))
      (fun _ => h.onConsole (hlasting.updateClock (f := Clock.reset) fun _ => rfl)) s hs
  | advance elapsed => exact hconsole (hlasting.updateClock fun _ => rfl)
  | setGameSpeed speed => exact h.setGameSpeed hlasting speed s hs
  | setAdminVisible agent visible =>
    exact preserves_bind (preserves_namespace? agent)
      (fun _ => preserves_modify fun _ hs => h.namespaces _ hs) s hs

end

theorem follows_console (P : Console σ → Prop) : Follows P fun s => P s.console where
  onConsole hx s h := hx s.console h
  namespaces _ h := h

end Session

namespace Console.Lasting

variable {P : Console σ → Prop} (h : Lasting P)
include h

theorem comeUp : Preserves (fun s : Session σ => P s.console) Session.comeUp := by
  have hfollows := Session.follows_console P
  refine preserves_bind (hfollows.onConsole h.bootstrap) fun _ => ?_
  refine preserves_bind (hfollows.load h.toFramed fun contexts hc => h.rest contexts _ _ _ hc) fun _ => ?_
  exact preserves_modify fun _ hs => hs

theorem beat : Preserves (fun s : Session σ => P s.console) Session.beat := by
  have hfollows := Session.follows_console P
  refine preserves_bind (preserves_read _) fun heartbeat => ?_
  split
  · exact preserves_pure _
  refine preserves_bind (preserves_attempt (hfollows.onConsole (h.send _))) fun ending => ?_
  split
  · exact hfollows.onConsole (h.recordTick _)
  · exact preserves_pure _
  · exact preserves_modify fun _ hs => hs

variable (hclose : Preserves P (onWire Wire.close))
include hclose

theorem next (r : Request) {s : Session σ} (hs : P s.console) : P (r.next s).console := by
  cases r with
  | comeUp => exact h.comeUp s hs
  | hooks change => exact hs
  | beat => exact h.beat s hs
  | stall => exact hs
  | close =>
    show P (Session.close s).2.console
    unfold Session.close
    split
    · exact hs
    simp only
    split
    · exact hs
    · exact hclose s.console hs
  | _ =>
    refine (Session.follows_console P).next h ?_ hs
    exact id

/-- **Whatever a session is asked for**, its console keeps what lasts. -/
theorem after {s : Session σ} (hs : P s.console) (requests : List Request) : P (s.after requests).console := by
  induction requests using List.reverseRecOn with
  | nil => exact hs
  | append_singleton requests r ih =>
    rw [Session.after_snoc]
    exact h.next hclose r ih

end Console.Lasting

end RemoteConsole
