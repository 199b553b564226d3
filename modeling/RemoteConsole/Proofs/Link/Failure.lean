import RemoteConsole.Link.Rcon
import RemoteConsole.Link.Scripted
import RemoteConsole.Proofs.Action

/-!
# How links fail

Whatever goes wrong on a link is a failure of the transport. This is what a link promises, and both
links that come with the project keep it. A crash is no answer at all: RCON has none, and a scripted
remote side has those of its rules.
-/

namespace RemoteConsole

open RemoteConsole.Action

variable {σ τ α : Type}

/-- No error but that of the transport comes out of the action; the state and crashes are free. -/
abbrev Action.InTransport (x : Action σ α) : Prop :=
  Confined (fun _ => True) (fun e => ∃ text, e = .transport text) (fun _ => True) x

def Link.FailsInTransport (l : Link σ) : Prop := ∀ command, InTransport (l.send command)

/-- As long as the state has the property, no command crashes the link. -/
def Link.Returns (l : Link σ) (I : σ → Prop) : Prop :=
  ∀ command, Confined I (fun _ => True) (fun _ => False) (l.send command)

abbrev Action.InTransportUnless (C : σ → Prop) (x : Action σ α) : Prop :=
  Confined (fun _ => True) (fun e => ∃ text, e = .transport text) C x

theorem inTransport_fail {C : σ → Prop} (text : String) : InTransportUnless C (fail (.transport text) : Action σ α) :=
  confined_fail ⟨text, rfl⟩

theorem inTransport_crash (c : Crash) : InTransport (crash c : Action σ α) := fun _ _ => .crashed trivial trivial

/-! ## Scripted remote sides -/

namespace Scripted

theorem inTransport_respond (command : String) : InTransport (respond command) := by
  have hlookup : InTransport (lookup command) := fun _ _ => .ok trivial
  refine confined_bind hlookup fun effect => ?_
  cases effect with
  | reply text => exact confined_pure _
  | fail text => exact inTransport_fail text
  | crash text => exact inTransport_crash _
  | drop => exact confined_pure _

theorem failsInTransport (interruptible : Bool) : (link interruptible).FailsInTransport := by
  intro command
  refine confined_bind (inTransport_respond command) fun answer => ?_
  cases answer with
  | some text => exact confined_pure _
  | none => exact inTransport_fail _

theorem effect_lookupRule (command : String) (rules : List Rule) :
    (lookupRule command rules).1 = .reply "" ∨ (lookupRule command rules).1 ∈ rules.map Rule.effect := by
  induction rules with
  | nil => exact .inl rfl
  | cons rule rest ih =>
    unfold lookupRule
    split
    · exact .inr List.mem_cons_self
    · exact ih.imp id (List.mem_cons_of_mem _)

theorem effects_lookupRule (command : String) (rules : List Rule) :
    (lookupRule command rules).2.map Rule.effect = rules.map Rule.effect := by
  induction rules with
  | nil => rfl
  | cons rule rest ih =>
    unfold lookupRule
    split
    · rfl
    · exact congrArg (rule.effect :: ·) ih

def Harmless (rules : List Rule) : Prop := ∀ effect ∈ rules.map Rule.effect, ∀ text, effect ≠ .crash text

theorem returns (interruptible : Bool) : (link interruptible).Returns Harmless := by
  intro command
  refine confined_bind (fun rules h => ?_) fun answer => ?_
  · have hrest : Harmless (lookupRule command rules).2 := by
      unfold Harmless
      rw [effects_lookupRule]
      exact h
    have hnone (text : String) : (lookupRule command rules).1 ≠ .crash text := by
      rcases effect_lookupRule command rules with hreply | hmem
      · rw [hreply]
        exact nofun
      · exact h _ hmem text
    have hlookup : lookup command rules = (.ok (lookupRule command rules).1, (lookupRule command rules).2) := rfl
    unfold respond
    rw [bind_ok hlookup]
    cases heffect : (lookupRule command rules).1 with
    | reply text => exact .ok hrest
    | fail text => exact .fail hrest trivial
    | crash text => exact absurd heffect (hnone text)
    | drop => exact .ok hrest
  · cases answer with
    | some text => exact confined_pure _
    | none => exact confined_fail trivial

end Scripted

/-! ## RCON -/

namespace Rcon

-- nothing crashes, so the property is any
variable {C : Rcon τ → Prop}

theorem inTransport_allocate : ∀ tags : List String, InTransportUnless C (allocate tags : Action (Rcon τ) _)
  | [] => confined_pure []
  | tag :: tags => by
    have hid : InTransportUnless C (allocateId : Action (Rcon τ) Int32) := fun _ _ => .ok trivial
    unfold allocate
    rw [List.mapM_cons]
    refine confined_bind (confined_bind hid fun _ => confined_pure _) fun _ => ?_
    exact confined_bind (inTransport_allocate tags) fun _ => confined_pure _

theorem inTransport_requireOpen : InTransportUnless C (requireOpen : Action (Rcon τ) Unit) := by
  refine confined_bind (confined_read _) fun opened => ?_
  split
  · exact inTransport_fail _
  · exact confined_pure ()

theorem inTransport_write (peer : Peer τ) (bytes : List UInt8) : InTransportUnless C (write peer bytes) := by
  intro c _
  unfold write
  split
  · exact .ok trivial
  split
  · exact .fail trivial ⟨_, rfl⟩
  · exact .ok trivial

theorem inTransport_finishRead (answer : Except PacketFault α) (rest : List UInt8) :
    InTransportUnless C (finishRead answer rest : Action (Rcon τ) α) := by
  intro c _
  cases answer with
  | ok a => exact .ok trivial
  | error fault => exact .fail trivial ⟨_, rfl⟩

theorem inTransport_exchange (peer : Peer τ) (commands : List (String × String)) :
    InTransportUnless C (exchange peer commands) := by
  refine confined_bind (inTransport_allocate _) fun tagged => confined_bind inTransport_requireOpen fun _ => ?_
  refine confined_bind (inTransport_write peer _) fun elapsed => confined_bind (confined_read _) fun incoming => ?_
  exact confined_bind (inTransport_finishRead _ _) fun bodies => confined_pure _

theorem inTransport_send (peer : Peer τ) (command : String) : InTransportUnless C (send peer command) := by
  refine confined_bind (inTransport_exchange peer _) fun (replies, elapsed) => ?_
  cases replies with
  | nil => exact inTransport_fail _
  | cons reply _ => exact confined_pure _

theorem failsInTransport (peer : Peer τ) : (link peer).FailsInTransport := inTransport_send peer

theorem returns (peer : Peer τ) : (link peer).Returns fun _ => True := by
  intro command c h
  have hsend := inTransport_send (C := fun _ => False) peer command c h
  exact ⟨hsend.keeps, fun _ => trivial, hsend.crash⟩

end Rcon

end RemoteConsole
