import RemoteConsole.Proofs.Capability.Contract
import RemoteConsole.Proofs.Link.Failure
import RemoteConsole.Proofs.Session.Commands
import RemoteConsole.Proofs.Session.Direct

/-!
# Arguments come first

A tool looks at its arguments before it does anything else. If they are refused, nothing was sent
or queued; if they are not, the one call that is sent or queued is a call that the contract allows.
-/

namespace RemoteConsole

open RemoteConsole.Action

variable {σ α : Type}

theorem Context.not_isUpkeep_invokeCommand (ctx : Context) (args : List Value) :
    ¬ Console.IsUpkeep (ctx.invokeCommand args) := by
  intro h
  unfold Console.IsUpkeep at h
  rw [toList_invokeCommand] at h
  have hfront : "/command local a, b = pcall".toList = '/' :: 'c' :: "ommand local a, b = pcall".toList := rfl
  have hupkeep : "/sc ".toList = ['/', 's', 'c', ' '] := rfl
  rw [hfront, hupkeep, List.cons_append, List.cons_append, List.prefix_cons_inj, List.cons_prefix_cons] at h
  exact absurd h.1 (by decide)

/-! ## What a call may do -/

namespace Console

/-- Since the one console nothing was sent but upkeep and one call, and nothing was queued. -/
structure Since (call : String) (c d : Console σ) : Prop where
  link : d.wire.link = c.wire.link
  batch : d.batch = c.batch
  log : ∃ later, d.wire.exchanges = c.wire.exchanges ++ later ∧
    ∀ x ∈ later, ∃ text, x.item = .command text ∧ (IsUpkeep text ∨ text = call)

def Grown (c d : Console σ) : Prop := c.wire.exchanges.length < d.wire.exchanges.length

structure Allows (E : ControlError → Prop) (c : Console σ) : Prop where
  link : ∀ {command state e}, (c.wire.link.send command state).1 = .error e → E e
  error : ∀ {e : ControlError}, ¬ e.IsRefusal → E e

theorem allows_any (c : Console σ) : c.Allows fun _ => True := ⟨fun _ => trivial, fun _ => trivial⟩

theorem allows_of_failsInTransport {c : Console σ} (h : c.wire.link.FailsInTransport) : c.Allows (¬ ·.IsRefusal) where
  link {command state e} he := by
    obtain ⟨reason, rfl⟩ := (h command state trivial).error he
    exact fun h => h
  error he := he

/-- The action keeps to what may happen, ends only with errors that are allowed, and crashes only
after something was sent. -/
abbrev Careful (E : ControlError → Prop) (call : String) (c : Console σ) (x : Action (Console σ) α) : Prop :=
  Confined (Since call c) E (Grown c) x

section
variable {call : String} {c : Console σ}

theorem Since.refl : Since call c c := ⟨rfl, rfl, [], by rw [List.append_nil], List.forall_mem_nil _⟩

theorem Since.length_le {d : Console σ} (h : Since call c d) : c.wire.exchanges.length ≤ d.wire.exchanges.length := by
  obtain ⟨later, hlog, -⟩ := h.log
  rw [hlog, List.length_append]
  exact Nat.le_add_right _ _

theorem Since.sent {d : Console σ} (h : Since call c d) {text : String} (ht : IsUpkeep text ∨ text = call)
    {wire : Wire σ} (hlink : wire.link = d.wire.link) {reply : Option String}
    (hwire : wire.exchanges = d.wire.exchanges ++ [⟨.command text, reply⟩]) : Since call c { d with wire } := by
  obtain ⟨later, hlog, hlater⟩ := h.log
  refine ⟨hlink.trans h.link, h.batch, later ++ [⟨.command text, reply⟩], ?_, ?_⟩
  · rw [← List.append_assoc, ← hlog, hwire]
  · intro x hx
    rcases List.mem_append.mp hx with hx | hx
    · exact hlater x hx
    · rw [List.mem_singleton.mp hx]
      exact ⟨text, rfl, ht⟩

variable {E : ControlError → Prop} (hallows : c.Allows E)
include hallows

theorem careful_send {text : String} (ht : IsUpkeep text ∨ text = call) : Careful E call c (send text) := by
  intro d h
  cases hpoisoned : d.wire.poisoned with
  | true =>
    rw [send_poisoned hpoisoned]
    exact .fail h (hallows.error fun h => h)
  | false =>
    rw [send_clean hpoisoned]
    refine ⟨h.sent ht rfl rfl, ?_, fun _ => ?_⟩
    · intro e he
      rw [h.link] at he
      exact hallows.link he
    · show c.wire.exchanges.length < (d.wire.exchanges ++ [_]).length
      rw [List.length_append, List.length_singleton]
      exact Nat.lt_succ_of_le h.length_le

theorem upheld_since : Upheld (Since call c) E (Grown c) where
  send ht := careful_send hallows (.inl ht)
  registry _ h := ⟨h.link, h.batch, h.log⟩
  error he := hallows.error he

theorem careful_ensureRegistered (ctx : Context) : Careful E call c ctx.ensureRegistered :=
  (upheld_since hallows).ensureRegistered (fun _ h => ⟨h.link, h.batch, h.log⟩) ctx

theorem careful_run (text : String) (measured : Bool) : Careful E text c (run text measured) :=
  (upheld_since hallows).run (fun _ _ h => ⟨h.link, h.batch, h.log⟩) (careful_send hallows (.inr rfl)) measured

end

end Console

theorem Console.Says.length_le {text : String} {n : Nat} {c d : Console σ} (h : Says text n c d) :
    c.wire.exchanges.length + n ≤ d.wire.exchanges.length := by
  induction h with
  | quiet h => rw [h]; exact Nat.le_refl _
  | said h => rw [h, List.length_append]; exact Nat.le_refl _
  | asked _ h => rw [h, List.length_append]; exact Nat.le_add_right _ _
  | trans _ _ ih ih' => omega

/-! ## Outside a batch -/

section
variable {c : Console σ} {E : ControlError → Prop} (hallows : c.Allows E) (hclosed : c.batch.isOpen = false)
include hallows hclosed

open Console

theorem Context.careful_invoke (ctx : Context) (args : List Value) :
    Careful E (ctx.invokeCommand args) c (ctx.invoke args) := by
  intro d h
  rw [ctx.invoke_idle args (by rw [h.batch, hclosed])]
  exact confined_bind (careful_ensureRegistered hallows ctx) (fun _ => careful_run hallows _ true) d h

theorem Context.grown_invoke (ctx : Context) {args : List Value} {d d' : Console σ} {v : Value}
    (h : Since (ctx.invokeCommand args) c d) (hok : ctx.invoke args d = (.ok v, d')) : Grown c d' := by
  rw [ctx.invoke_idle args (by rw [h.batch, hclosed])] at hok
  obtain ⟨u, middle, hensure, hrun⟩ := exists_of_bind_ok hok
  have hmiddle := (careful_ensureRegistered hallows ctx d h).keeps
  obtain ⟨n, hsays, hpos⟩ := tells_run (ctx.invokeCommand args) true middle
  rw [hensure] at hmiddle
  rw [hrun] at hsays hpos
  calc c.wire.exchanges.length ≤ middle.wire.exchanges.length := hmiddle.length_le
    _ < middle.wire.exchanges.length + n := Nat.lt_add_of_pos_right (hpos rfl)
    _ ≤ d'.wire.exchanges.length := hsays.length_le

namespace Tool

variable {ctx : Context} {args actuals : List Value}

theorem careful_callChecked {check : String → List Value → Except ControlError (List Value)}
    (hcheck : check ctx.capability args = .ok actuals) :
    Careful E (ctx.invokeCommand actuals) c (callChecked check ctx args) := by
  unfold callChecked
  rw [hcheck]
  exact ctx.careful_invoke hallows hclosed actuals

theorem careful_callInspect (hcheck : noArgs ctx.capability args = .ok actuals) :
    Careful E (ctx.invokeCommand actuals) c (callInspect ctx args) := by
  intro d h
  unfold callInspect
  rw [hcheck, lift_ok_bind]
  apply (ctx.careful_invoke hallows hclosed actuals d h).bind
  intro v d' _ h'
  split
  · exact .ok h'
  · exact .ok h'

theorem careful_ticksSince (ticks : Int64) (start : Value) :
    Careful E (ctx.invokeCommand []) c (ticksSince ctx ticks start) := by
  intro d h
  apply (ctx.careful_invoke hallows hclosed [] d h).bind
  intro stop d' hstop h'
  -- a difference that does not fit crashes, but both readings were sent by then
  have hgrown := ctx.grown_invoke hallows hclosed h hstop
  cases start.asInt? with
  | none => exact .ok h'
  | some a =>
    cases stop.asInt? with
    | none => exact .ok h'
    | some b => exact ⟨h', fun he => absurd he (difference_ne_error b a _), fun _ => hgrown⟩

theorem careful_callSleep (hcheck : sleep.actuals ctx.capability args = .ok actuals) :
    Careful E (ctx.invokeCommand actuals) c (callSleep ctx args) := by
  obtain ⟨ticks, hticks, rfl⟩ := ticksArg_ok hcheck
  intro d h
  rw [callSleep_eq, hticks, lift_ok_bind]
  apply (ctx.careful_invoke hallows hclosed [] d h).bind
  intro start d' hstart h'
  -- a wait that is too long crashes, but the first reading was sent by then
  have hgrown := ctx.grown_invoke hallows hclosed h hstart
  unfold sleepFrom
  split
  · exact .ok h'
  split
  · exact careful_ticksSince hallows hclosed ticks start _ ⟨h'.link, h'.batch, h'.log⟩
  · exact .crashed h' hgrown

theorem careful_call {tool : Tool} (hcheck : tool.actuals ctx.capability args = .ok actuals) :
    Careful E (ctx.invokeCommand actuals) c (tool.call ctx args) := by
  cases tool with
  | moveTo | placeEntity | placeNextTo | pickUpEntity | clearEntities | setInventory =>
    exact careful_callChecked hallows hclosed hcheck
  | inspectInventory => exact careful_callInspect hallows hclosed hcheck
  | sleep => exact careful_callSleep hallows hclosed hcheck

end Tool

end

/-! ## What is delivered -/

def Sent.IsCall (item : Sent) : Prop := ∃ (ctx : Context) (args : List Value), item = .command (ctx.invokeCommand args)

/-- The values reached the remote side or the batch: in an open batch one command is queued and
nothing else changes, and otherwise no call is sent but that with these values. -/
inductive Context.Delivered (ctx : Context) (actuals : List Value) (c : Console σ) : Console σ → Prop
  | queued : c.batch.isOpen = true → Delivered ctx actuals c { c with batch := c.batch.add (ctx.command actuals) }
  | sent {d : Console σ} {later : List Exchange} : c.batch.isOpen = false → d.batch = c.batch →
    d.wire.exchanges = c.wire.exchanges ++ later →
    (∀ x ∈ later, x.item.IsCall → x.item = .command (ctx.invokeCommand actuals)) → Delivered ctx actuals c d

theorem Context.delivered_of_since {ctx : Context} {actuals : List Value} {c d : Console σ}
    (hclosed : c.batch.isOpen = false) (h : Console.Since (ctx.invokeCommand actuals) c d) :
    ctx.Delivered actuals c d := by
  obtain ⟨later, hlog, hlater⟩ := h.log
  refine .sent hclosed h.batch hlog ?_
  intro x hx hcall
  obtain ⟨text, htext, hupkeep | rfl⟩ := hlater x hx
  · obtain ⟨ctx', args', hitem⟩ := hcall
    rw [htext] at hitem
    cases hitem
    exact absurd hupkeep (ctx'.not_isUpkeep_invokeCommand args')
  · exact htext

/-- **Arguments are checked before anything is done.** Only a call that has sent something crashes, and
a call that changes the console delivers what the contract of its tool allows. Over a link whose
failures are failures of the transport, a call that ends with an invalid argument leaves the console as it is. -/
theorem Tool.call_validates (tool : Tool) (ctx : Context) (args : List Value) (c : Console σ) :
    (c.wire.link.FailsInTransport → ∀ name message,
      (tool.call ctx args c).1 = .error (.invalidArgument name message) → (tool.call ctx args c).2 = c) ∧
    ((tool.call ctx args c).1.isCrash = true →
      c.wire.exchanges.length < (tool.call ctx args c).2.wire.exchanges.length) ∧
    ((tool.call ctx args c).2 = c ∨
      ∃ actuals, tool.Contract actuals ∧ ctx.Delivered actuals c (tool.call ctx args c).2) := by
  have hchecked := tool.checks_actuals ctx.capability args
  cases hcheck : tool.actuals ctx.capability args with
  | error e =>
    rw [Tool.call_refused hcheck]
    exact ⟨fun _ _ _ _ => rfl, nofun, .inl rfl⟩
  | ok actuals =>
    rw [hcheck] at hchecked
    cases hopen : c.batch.isOpen with
    | true =>
      have hcommand : ToolInstance.command ⟨tool, ctx⟩ args = .ok (ctx.command actuals) := by
        unfold ToolInstance.command
        rw [hcheck]
        rfl
      rw [tool.call_open ctx args hopen, hcommand]
      exact ⟨fun _ => nofun, nofun, .inr ⟨actuals, hchecked, .queued hopen⟩⟩
    | false =>
      have h := careful_call c.allows_any hopen hcheck c .refl
      refine ⟨fun hlink name message he => ?_, h.crash,
        .inr ⟨actuals, hchecked, Context.delivered_of_since hopen h.keeps⟩⟩
      -- with its arguments accepted, no step of an idle console refuses anything
      have h := careful_call (Console.allows_of_failsInTransport hlink) hopen hcheck c .refl
      exact absurd trivial (h.error he)

def Console.agreeing : Console (List Rule) :=
  .new Config.default .empty (.empty true) (.connect (Scripted.link false) [⟨.always, none, .reply "true"⟩])

theorem Tool.call_validates_direction :
    let ctx : Context := ⟨"place_entity_next_to", 0, 0⟩
    let placed (direction : String) :=
      placeNextTo.call ctx [.string "inserter", .integer 1, .integer 2, .string direction] Console.agreeing
    (placed "North-East").2 = Console.agreeing ∧
      ∃ actuals, placeNextTo.Contract actuals ∧ ctx.Delivered actuals Console.agreeing (placed "East").2 := by
  intro ctx placed
  have h (direction : String) := placeNextTo.call_validates ctx
    [.string "inserter", .integer 1, .integer 2, .string direction] Console.agreeing
  have hrefused : (placed "North-East").1.error? =
      some (.invalidArgument "place_entity_next_to" "direction must be north, east, south or west") := by decide +kernel
  refine ⟨(h "North-East").1 (Scripted.failsInTransport false) _ _ (Outcome.error?_eq_some.mp hrefused), ?_⟩
  rcases (h "East").2.2 with hsame | hdelivered
  · have hlength : (placed "East").2.wire.exchanges.length = 2 := by decide +kernel
    have hplaced : (placed "East").2 = Console.agreeing := hsame
    rw [hplaced] at hlength
    cases hlength
  · exact hdelivered

end RemoteConsole
