import RemoteConsole.Proofs.Session.Body

/-!
# One invocation

Outside a batch an invocation asks the remote side for its capability unless that is known,
installs everything once if the capability is denied, asks again, and only then sends the call
itself. What each of these parts adds to the log is kept apart here.
-/

namespace RemoteConsole

variable {σ : Type}

namespace Context

def probed (ctx : Context) (reply : Option String) : Exchange := ⟨.command ctx.probeCommand, reply⟩

/-- A probe made in this console is answered with the boolean true. -/
def Affirmed (ctx : Context) (c : Console σ) : Prop :=
  ∃ text, (ctx.probe c).2.wire.exchanges = c.wire.exchanges ++ [ctx.probed (some text)] ∧
    Reply.decode text = .ok (.boolean true)

/-- What was sent is a probe, and its reply decodes to anything but the boolean true. -/
def Denied (ctx : Context) (asked : List Exchange) : Prop :=
  ∃ text v, asked = [ctx.probed (some text)] ∧ Reply.decode text = .ok v ∧ v ≠ .boolean true

/-- The link itself ends a probe with a mismatch. -/
def Misled (ctx : Context) (c : Console σ) : Prop :=
  ∃ name, (c.wire.link.send ctx.probeCommand c.wire.state).1 = .error (.cacheMismatch name)

def Unanswered (ctx : Context) (asked : List Exchange) : Prop :=
  asked = [] ∨ ∃ reply, asked = [ctx.probed reply] ∧
    ∀ text, reply = some text → ∃ e, Reply.decode text = .error e

end Context

def Outcome.IsMismatch {α : Type} (outcome : Outcome α) : Prop := ∃ name, outcome = .error (.cacheMismatch name)

theorem Outcome.IsMismatch.ne_ok {α : Type} {outcome : Outcome α} (h : outcome.IsMismatch) (a : α) :
    outcome ≠ .ok a := by
  obtain ⟨name, rfl⟩ := h
  exact nofun

namespace Context

inductive Probed (ctx : Context) (c : Console σ) (asked : List Exchange) (wire : Wire σ) : Prop
  | failed {outcome : Outcome Unit} :
    ctx.Unanswered asked → outcome.isOk = false → (outcome.IsMismatch → ctx.Misled c) →
    ctx.probe c = (outcome, { c with wire }) → Probed ctx c asked wire
  | denied : ctx.Denied asked → ctx.probe c = (.error (.cacheMismatch ctx.capability), { c with wire }) →
    Probed ctx c asked wire
  | affirmed {text : String} :
    asked = [ctx.probed (some text)] → Reply.decode text = .ok (.boolean true) →
    ctx.probe c = (.ok (), { c with wire, confirmed := ctx.id :: c.confirmed }) →
    Probed ctx c asked wire

theorem probe_eq (ctx : Context) (c : Console σ) :
    ctx.probe c = (Console.send ctx.probeCommand >>= fun reply => do
      match (← Console.decode reply.text) with
      | .boolean true => Action.modify fun c => { c with confirmed := ctx.id :: c.confirmed }
      | _ => Action.fail (.cacheMismatch ctx.capability)) c := rfl

theorem probed_answered {ctx : Context} {c : Console σ} {wire : Wire σ} {r : LinkReply}
    (hsend : Console.send ctx.probeCommand c = (.ok r, { c with wire })) :
    Probed ctx c [ctx.probed (some r.text)] wire := by
  have hprobe := (ctx.probe_eq c).trans (Action.bind_ok hsend)
  cases hdecode : Reply.decode r.text with
  | error e =>
    rw [Action.bind_error (Console.decode_error hdecode _)] at hprobe
    refine .failed (.inr ⟨_, rfl, fun text htext => ?_⟩) rfl (fun ⟨_, h⟩ => nomatch h) hprobe
    cases htext
    exact ⟨e, hdecode⟩
  | ok v =>
    rw [Action.bind_ok (Console.decode_ok hdecode _)] at hprobe
    by_cases hv : v = .boolean true
    · subst hv
      exact .affirmed rfl hdecode hprobe
    · refine .denied ⟨_, v, rfl, hdecode, hv⟩ (hprobe.trans ?_)
      split
      · exact absurd rfl hv
      · rfl

theorem probe_cases (ctx : Context) (c : Console σ) :
    ∃ asked wire, wire.exchanges = c.wire.exchanges ++ asked ∧ Probed ctx c asked wire := by
  have hprobe := ctx.probe_eq c
  cases hpoisoned : c.wire.poisoned with
  | true =>
    have hsend := Console.send_poisoned hpoisoned ctx.probeCommand
    refine ⟨[], c.wire, by rw [List.append_nil], ?_⟩
    exact .failed (.inl rfl) rfl (fun ⟨_, h⟩ => nomatch h) (hprobe.trans (Action.bind_error hsend))
  | false =>
    have hsend := Console.send_clean hpoisoned ctx.probeCommand
    refine ⟨_, (Wire.ask ctx.probeCommand (c.wire.link.send ctx.probeCommand) c.wire).2, rfl, ?_⟩
    cases hlink : (c.wire.link.send ctx.probeCommand c.wire.state).1 with
    | ok r =>
      rw [hlink] at hsend
      exact probed_answered hsend
    | error e =>
      rw [hlink] at hsend
      refine .failed (.inr ⟨none, rfl, nofun⟩) rfl ?_ (hprobe.trans (Action.bind_error hsend))
      rintro ⟨name, hname⟩
      exact ⟨name, by rw [hlink, Outcome.error.inj hname]⟩
    | crash k =>
      rw [hlink] at hsend
      refine .failed (.inr ⟨none, rfl, nofun⟩) rfl ?_ (hprobe.trans (Action.bind_crash hsend))
      exact fun ⟨_, h⟩ => nomatch h

section
variable {ctx : Context} {c : Console σ} {asked : List Exchange} {wire : Wire σ} (h : Probed ctx c asked wire)
include h

theorem Probed.asked_cases : asked = [] ∨ ∃ reply, asked = [ctx.probed reply] := by
  cases h with
  | failed hasked =>
    rcases hasked with h | ⟨reply, h, -⟩
    · exact .inl h
    · exact .inr ⟨reply, h⟩
  | denied hdenied =>
    obtain ⟨text, -, h, -⟩ := hdenied
    exact .inr ⟨some text, h⟩
  | affirmed h => exact .inr ⟨_, h⟩

theorem Probed.console_eq : (ctx.probe c).2 = { c with wire, confirmed := (ctx.probe c).2.confirmed } := by
  cases h with
  | failed _ _ _ h => rw [h]
  | denied _ h => rw [h]
  | affirmed _ _ h => rw [h]

theorem Probed.confirmed (id : Nat) :
    id ∈ (ctx.probe c).2.confirmed ↔ id ∈ c.confirmed ∨ id = ctx.id ∧ (ctx.probe c).1 = .ok () := by
  cases h with
  | failed _ hfail _ h => simp [h, Action.ne_ok_of_isOk hfail ()]
  | denied _ h => simp [h]
  | affirmed _ _ h => simp [h, or_comm]

theorem Probed.of_mismatch (hmismatch : (ctx.probe c).1.IsMismatch) : ctx.Denied asked ∨ ctx.Misled c := by
  cases h with
  | failed _ _ hlink h =>
    rw [h] at hmismatch
    exact .inr (hlink hmismatch)
  | denied hdenied => exact .inl hdenied
  | affirmed _ _ h =>
    rw [h] at hmismatch
    obtain ⟨name, hname⟩ := hmismatch
    cases hname

end

theorem affirmed_iff (ctx : Context) (c : Console σ) :
    ctx.Affirmed c ↔ (ctx.probe c).1 = .ok () := by
  obtain ⟨asked, wire, hlog, h⟩ := ctx.probe_cases c
  have hwire : (ctx.probe c).2.wire = wire := congrArg Console.wire h.console_eq
  constructor
  · rintro ⟨text, hlog', hdecode⟩
    rw [hwire, hlog] at hlog'
    have hasked : asked = [ctx.probed (some text)] := List.append_cancel_left hlog'
    cases h with
    | failed hnone =>
      rcases hnone with hnil | ⟨reply, hreply, herror⟩
      · rw [hnil] at hasked
        cases hasked
      · rw [hreply] at hasked
        obtain ⟨e, he⟩ := herror text (by simpa [probed] using hasked)
        rw [hdecode] at he
        cases he
    | denied hdenied =>
      obtain ⟨text', v, hother, hdecode', hne⟩ := hdenied
      rw [hother] at hasked
      cases hasked
      rw [hdecode] at hdecode'
      cases hdecode'
      exact absurd rfl hne
    | affirmed _ _ hprobe => rw [hprobe]
  · intro hok
    cases h with
    | @failed outcome _ hfail _ hprobe =>
      rw [hprobe] at hok
      exact absurd hok (Action.ne_ok_of_isOk hfail ())
    | denied _ hprobe =>
      rw [hprobe] at hok
      cases hok
    | @affirmed text hasked hdecode hprobe =>
      refine ⟨text, ?_, hdecode⟩
      rw [hwire, ← hasked]
      exact hlog

end Context

/-! ## The call itself -/

inductive Console.Ran (text : String) (c : Console σ) (calls : List Exchange) : Prop
  | failed {wire : Wire σ} :
    wire.exchanges = c.wire.exchanges ++ calls →
    (calls = [] ∨ ∃ reply, calls = [⟨.command text, reply⟩]) →
    (Console.run text true c).2 = { c with wire } → Ran text c calls
  | done {reply : String} {v : Value} {wire : Wire σ} {clock : Clock} :
    wire.exchanges = c.wire.exchanges ++ calls → calls = [⟨.command text, some reply⟩] →
    Reply.decode reply = .ok v → (Console.run text true c).2 = { c with wire, clock } →
    Ran text c calls

theorem Console.run_measured (text : String) (c : Console σ) :
    Console.run text true c = (Console.send text >>= fun reply => do
      let value ← Console.decode reply.text
      if true then Console.updateClock (·.advance reply.elapsed)
      return value) c := rfl

theorem Console.run_cases (text : String) (c : Console σ) : ∃ calls, Console.Ran text c calls := by
  have hrun := Console.run_measured text c
  rcases Console.send_cases text _ c with
    ⟨outcome, h, -⟩ | ⟨wire, reply, hlog, ⟨-, outcome, h, -⟩ | ⟨r, rfl, h⟩⟩
  · exact ⟨[], .failed (by rw [List.append_nil]) (.inl rfl) (by rw [hrun, h])⟩
  · exact ⟨_, .failed hlog (.inr ⟨reply, rfl⟩) (by rw [hrun, h])⟩
  rw [h] at hrun
  cases hdecode : Reply.decode r.text with
  | error e =>
    rw [Action.bind_error (Console.decode_error hdecode _)] at hrun
    exact ⟨_, .failed hlog (.inr ⟨_, rfl⟩) (by rw [hrun])⟩
  | ok v =>
    rw [Action.bind_ok (Console.decode_ok hdecode _)] at hrun
    exact ⟨_, .done hlog rfl hdecode (by rw [hrun]; rfl)⟩

theorem Console.run_wire (text : String) (c : Console σ) :
    (Console.run text true c).2.wire = (Wire.send text c.wire).2 := by
  have hrun := Console.run_measured text c
  have hwire : (Console.send text c).2.wire = (Wire.send text c.wire).2 := rfl
  cases hsend : Console.send text c with
  | mk outcome d =>
    rw [hsend] at hwire
    cases outcome with
    | error e => rw [hrun, Action.bind_error hsend, hwire]
    | crash k => rw [hrun, Action.bind_crash hsend, hwire]
    | ok r =>
      rw [hrun, Action.bind_ok hsend]
      cases hdecode : Reply.decode r.text with
      | error e => rw [Action.bind_error (Console.decode_error hdecode _), hwire]
      | ok v =>
        rw [Action.bind_ok (Console.decode_ok hdecode _), ← hwire]
        rfl

/-! ## The whole invocation -/

namespace Context

inductive ProbesIn (ctx : Context) (c : Console σ) : Console σ → Prop
  | first : c.batch.isOpen = false → ctx.id ∉ c.confirmed → ProbesIn ctx c c
  | again : c.batch.isOpen = false → ctx.id ∉ c.confirmed → (ctx.probe c).1.IsMismatch →
    (Console.invalidate (ctx.probe c).2).1 = .ok () →
    ProbesIn ctx c (Console.invalidate (ctx.probe c).2).2

/-- A probe of an invocation from this console is answered with the boolean true. -/
def Seen (ctx : Context) (c : Console σ) : Prop := ∃ d, ctx.ProbesIn c d ∧ ctx.Affirmed d

/-- What is sent on the way to another console before the call: a probe, and if it is denied or the
link mistakes it, all of one installation and maybe another probe. Otherwise the registry is untouched. -/
structure Asked (ctx : Context) (c c' : Console σ) (first reinstall again : List Exchange) : Prop where
  first_cases : first = [] ∨ ∃ reply, first = [ctx.probed reply]
  again_cases : again = [] ∨ ∃ reply, again = [ctx.probed reply]
  reinstall_cases : (reinstall = [] ∧ again = [] ∧ c'.registry = c.registry) ∨
    (ctx.Denied first ∨ ctx.Misled c) ∧
    (Console.invalidate (ctx.probe c).2).2.wire.exchanges = (ctx.probe c).2.wire.exchanges ++ reinstall ∧
    c'.registry = (Console.invalidate (ctx.probe c).2).2.registry

theorem Asked.of_registry {ctx : Context} {c d d' : Console σ} {first reinstall again : List Exchange}
    (h : Asked ctx c d first reinstall again) (hregistry : d'.registry = d.registry) :
    Asked ctx c d' first reinstall again :=
  ⟨h.first_cases, h.again_cases, by rw [hregistry]; exact h.reinstall_cases⟩

/-- How a context comes to be known, or not, before the call. -/
structure Ensured (ctx : Context) (c : Console σ) (r : Outcome Unit × Console σ)
    (first reinstall again : List Exchange) : Prop where
  asked : Asked ctx c r.2 first reinstall again
  log : r.2.wire.exchanges = c.wire.exchanges ++ (first ++ reinstall ++ again)
  clock : r.2.clock = c.clock
  contexts : r.2.contexts = c.contexts
  confirmed : ∀ id, id ∈ r.2.confirmed ↔ id ∈ c.confirmed ∨ id = ctx.id ∧ ctx.Seen c
  known : r.1.isOk = true → ctx.id ∈ r.2.confirmed

theorem ensureRegistered_known {ctx : Context} {c : Console σ} (h : ctx.id ∈ c.confirmed) :
    ctx.ensureRegistered c = (.ok (), c) := by
  unfold ensureRegistered
  rw [Action.read_bind, if_pos (by simpa using h)]
  rfl

theorem ensureRegistered_mismatch {ctx : Context} {c : Console σ} (h : ctx.id ∉ c.confirmed)
    (hmismatch : (ctx.probe c).1.IsMismatch) :
    ctx.ensureRegistered c = (Console.invalidate >>= fun _ => ctx.probe) (ctx.probe c).2 := by
  obtain ⟨name, hname⟩ := hmismatch
  unfold ensureRegistered
  rw [Action.read_bind, if_neg (by simpa using h), Action.attempt_bind, hname]

theorem ensureRegistered_probed {ctx : Context} {c : Console σ} (h : ctx.id ∉ c.confirmed)
    (hother : ¬ (ctx.probe c).1.IsMismatch) : ctx.ensureRegistered c = ctx.probe c := by
  unfold ensureRegistered
  rw [Action.read_bind, if_neg (by simpa using h), Action.attempt_bind]
  cases hprobe : ctx.probe c with
  | mk outcome d =>
    rw [hprobe] at hother
    dsimp only
    split
    next name => exact absurd ⟨name, rfl⟩ hother
    next => rfl

theorem seen_iff {ctx : Context} {c : Console σ} (hidle : c.batch.isOpen = false)
    (h : ctx.id ∉ c.confirmed) :
    ctx.Seen c ↔ (ctx.probe c).1 = .ok () ∨ (ctx.probe c).1.IsMismatch ∧
      (Console.invalidate (ctx.probe c).2).1 = .ok () ∧
      (ctx.probe (Console.invalidate (ctx.probe c).2).2).1 = .ok () := by
  constructor
  · rintro ⟨d, hd, haffirmed⟩
    cases hd with
    | first => exact .inl ((ctx.affirmed_iff c).mp haffirmed)
    | again _ _ hdenied hok => exact .inr ⟨hdenied, hok, (ctx.affirmed_iff _).mp haffirmed⟩
  · rintro (htrue | ⟨hdenied, hok, htrue⟩)
    · exact ⟨c, .first hidle h, (ctx.affirmed_iff c).mpr htrue⟩
    · exact ⟨_, .again hidle h hdenied hok, (ctx.affirmed_iff _).mpr htrue⟩

theorem not_seen_of_known {ctx : Context} {c : Console σ} (h : ctx.id ∈ c.confirmed) :
    ¬ ctx.Seen c := by
  rintro ⟨d, hd, -⟩
  cases hd with
  | first _ hunknown => exact hunknown h
  | again _ hunknown => exact hunknown h

/-- The console after the installation that a mismatch brought about. -/
structure Reinstalled (ctx : Context) (c d : Console σ) (first reinstall : List Exchange) : Prop where
  asked {c' : Console σ} {again : List Exchange} : (again = [] ∨ ∃ reply, again = [ctx.probed reply]) →
    c'.registry = d.registry → Asked ctx c c' first reinstall again
  log : d.wire.exchanges = c.wire.exchanges ++ (first ++ reinstall)
  clock : d.clock = c.clock
  contexts : d.contexts = c.contexts
  confirmed : ∀ id, id ∈ d.confirmed ↔ id ∈ c.confirmed

theorem reinstalled {ctx : Context} {c : Console σ} {first : List Exchange} {wire : Wire σ}
    (hlog : wire.exchanges = c.wire.exchanges ++ first) (h : Probed ctx c first wire)
    (hmismatch : (ctx.probe c).1.IsMismatch) :
    ∃ reinstall, Reinstalled ctx c (Console.invalidate (ctx.probe c).2).2 first reinstall := by
  have hprobed := h.console_eq
  have hrest := Console.invalidate_sameRest (ctx.probe c).2
  obtain ⟨reinstall, hreinstall⟩ := Console.invalidate_continues (ctx.probe c).2
  rw [Console.SameRest] at hrest
  refine ⟨reinstall, fun hagain hregistry => ?_, ?_, ?_, ?_, fun id => ?_⟩
  · exact ⟨h.asked_cases, hagain, .inr ⟨h.of_mismatch hmismatch, hreinstall, hregistry⟩⟩
  · rw [hreinstall, hprobed, hlog, List.append_assoc]
  · rw [hrest, hprobed]
  · rw [hrest, hprobed]
  · rw [hrest, h.confirmed]
    exact or_iff_left fun hfound => hmismatch.ne_ok () hfound.2

section
variable {ctx : Context} {c : Console σ} (hidle : c.batch.isOpen = false) (hunknown : ctx.id ∉ c.confirmed)
  {first : List Exchange} {wire : Wire σ} (hlog : wire.exchanges = c.wire.exchanges ++ first)
  (h : Probed ctx c first wire)
include hidle hunknown hlog h

theorem ensured_probed (hother : ¬ (ctx.probe c).1.IsMismatch) :
    Ensured ctx c (ctx.ensureRegistered c) first [] [] := by
  have hseen : ctx.Seen c ↔ (ctx.probe c).1 = .ok () := by
    rw [seen_iff hidle hunknown]
    exact or_iff_left fun h => hother h.1
  have hconfirmed (id : Nat) :
      id ∈ (ctx.probe c).2.confirmed ↔ id ∈ c.confirmed ∨ id = ctx.id ∧ ctx.Seen c := by
    rw [hseen]
    exact h.confirmed id
  have hc := h.console_eq
  rw [ensureRegistered_probed hunknown hother]
  refine ⟨⟨h.asked_cases, .inl rfl, .inl ⟨rfl, rfl, ?_⟩⟩, ?_, ?_, ?_, hconfirmed, fun hok => ?_⟩
  · rw [hc]
  · rw [hc, List.append_nil, List.append_nil]
    exact hlog
  · rw [hc]
  · rw [hc]
  · exact (h.confirmed ctx.id).mpr (.inr ⟨rfl, Action.eq_ok_of_isOk hok⟩)

/-- After a mismatch everything is installed once, and if that succeeds there is one more probe. -/
theorem ensured_again (hmismatch : (ctx.probe c).1.IsMismatch) :
    ∃ reinstall again, Ensured ctx c (ctx.ensureRegistered c) first reinstall again := by
  have hseen := seen_iff hidle hunknown
  have hnotOk := hmismatch.ne_ok ()
  obtain ⟨reinstall, hinstalled⟩ := reinstalled hlog h hmismatch
  rw [ensureRegistered_mismatch hunknown hmismatch]
  cases hinvalidate : Console.invalidate (ctx.probe c).2 with
  | mk outcome d =>
    rw [hinvalidate] at hseen hinstalled
    cases hok : outcome.isOk with
    | true =>
      obtain rfl := Action.eq_ok_of_isOk hok
      obtain ⟨again, wire', hlog', h'⟩ := ctx.probe_cases d
      have hd := h'.console_eq
      have hseen' : ctx.Seen c ↔ (ctx.probe d).1 = .ok () := by
        rw [hseen]
        simp [hnotOk, hmismatch]
      rw [Action.bind_ok hinvalidate]
      refine ⟨reinstall, again, hinstalled.asked h'.asked_cases (by rw [hd]), ?_, ?_, ?_, fun id => ?_,
        fun hfound => ?_⟩
      · rw [hd, hlog', hinstalled.log, List.append_assoc]
      · rw [hd, ← hinstalled.clock]
      · rw [hd, ← hinstalled.contexts]
      · rw [h'.confirmed, hinstalled.confirmed, hseen']
      · exact (h'.confirmed ctx.id).mpr (.inr ⟨rfl, Action.eq_ok_of_isOk hfound⟩)
    | false =>
      obtain ⟨failure, hbind, hfailure⟩ := Action.bind_failed hinvalidate hok fun _ => ctx.probe
      have hnot : ¬ ctx.Seen c := by
        rw [hseen]
        rintro (h | ⟨-, h, -⟩)
        · exact hnotOk h
        · exact Action.ne_ok_of_isOk hok () h
      rw [hbind]
      refine ⟨reinstall, [], hinstalled.asked (.inl rfl) rfl, ?_, hinstalled.clock, hinstalled.contexts,
        fun id => ?_, fun h => ?_⟩
      · rw [List.append_nil]
        exact hinstalled.log
      · rw [hinstalled.confirmed]
        exact (or_iff_left fun h => hnot h.2).symm
      · rw [hfailure] at h
        cases h

end

theorem ensured (ctx : Context) {c : Console σ} (hidle : c.batch.isOpen = false) :
    ∃ first reinstall again, Ensured ctx c (ctx.ensureRegistered c) first reinstall again := by
  by_cases hknown : ctx.id ∈ c.confirmed
  · have hnot := not_seen_of_known hknown
    rw [ensureRegistered_known hknown]
    exact ⟨[], [], [], ⟨.inl rfl, .inl rfl, .inl ⟨rfl, rfl, rfl⟩⟩, by simp, rfl, rfl, fun id => by simp [hnot],
      fun _ => hknown⟩
  obtain ⟨first, wire, hlog, hprobed⟩ := ctx.probe_cases c
  by_cases hmismatch : (ctx.probe c).1.IsMismatch
  · exact ⟨first, ensured_again hidle hknown hlog hprobed hmismatch⟩
  · exact ⟨first, [], [], ensured_probed hidle hknown hlog hprobed hmismatch⟩

theorem invoke_idle (ctx : Context) (args : List Value) {c : Console σ}
    (hidle : c.batch.isOpen = false) : ctx.invoke args c =
      (ctx.ensureRegistered >>= fun _ => Console.run (ctx.invokeCommand args) true) c := by
  have hqueue (command : Command) : Console.queueIfOpen command c = (.ok none, c) := by
    rw [Console.queueIfOpen, if_neg (by rw [hidle]; decide)]
  unfold invoke
  rw [Action.bind_ok (hqueue _)]

/-- What an invocation outside a batch sends, and what comes of it; `earlier` says that the context
was seen before. -/
structure Invoked (ctx : Context) (args : List Value) (c : Console σ) (earlier : Prop)
    (first reinstall again calls : List Exchange) : Prop where
  asked : Asked ctx c (ctx.invoke args c).2 first reinstall again
  log : (ctx.invoke args c).2.wire.exchanges =
    c.wire.exchanges ++ (first ++ reinstall ++ again ++ calls)
  calls_cases : calls = [] ∨ ∃ reply, calls = [⟨.command (ctx.invokeCommand args), reply⟩]
  known : calls ≠ [] → earlier ∨ ctx.Seen c
  clock : (ctx.invoke args c).2.clock ≠ c.clock → ∃ text v,
    calls = [⟨.command (ctx.invokeCommand args), some text⟩] ∧ Reply.decode text = .ok v

theorem Ensured.invoked {ctx : Context} {args : List Value} {c : Console σ} {r : Outcome Unit × Console σ}
    {first reinstall again calls : List Exchange} {wire : Wire σ} {clock : Clock}
    (h : Ensured ctx c r first reinstall again) (hd : (ctx.invoke args c).2 = { r.2 with wire, clock })
    (hlog : wire.exchanges = r.2.wire.exchanges ++ calls)
    (hcalls : calls = [] ∨ ∃ reply, calls = [⟨.command (ctx.invokeCommand args), reply⟩])
    (hknown : calls ≠ [] → ctx.id ∈ c.confirmed ∨ ctx.Seen c)
    (hclock : clock ≠ r.2.clock → ∃ text v,
      calls = [⟨.command (ctx.invokeCommand args), some text⟩] ∧ Reply.decode text = .ok v) :
    (∃ first reinstall again calls,
      Invoked ctx args c (ctx.id ∈ c.confirmed) first reinstall again calls) ∧
    (ctx.invoke args c).2.contexts = c.contexts ∧
    ∀ id, id ∈ (ctx.invoke args c).2.confirmed ↔ id ∈ c.confirmed ∨ id = ctx.id ∧ ctx.Seen c := by
  rw [hd]
  refine ⟨⟨first, reinstall, again, calls, ?_, ?_, hcalls, hknown, fun hmoved => ?_⟩, h.contexts, h.confirmed⟩
  · rw [hd]
    exact h.asked.of_registry rfl
  · rw [hd, ← List.append_assoc, ← h.log]
    exact hlog
  · rw [hd, ← h.clock] at hmoved
    exact hclock hmoved

/-- **One invocation.** At most one call is sent, after at most two probes and one installation. -/
theorem invoked (ctx : Context) (args : List Value) {c : Console σ} (hidle : c.batch.isOpen = false) :
    (∃ first reinstall again calls,
      Invoked ctx args c (ctx.id ∈ c.confirmed) first reinstall again calls) ∧
    (ctx.invoke args c).2.contexts = c.contexts ∧
    ∀ id, id ∈ (ctx.invoke args c).2.confirmed ↔ id ∈ c.confirmed ∨ id = ctx.id ∧ ctx.Seen c := by
  obtain ⟨first, reinstall, again, h⟩ := ctx.ensured hidle
  have hinvoke := ctx.invoke_idle args hidle
  cases hensure : ctx.ensureRegistered c with
  | mk outcome d =>
  rw [hensure] at h
  cases hok : outcome.isOk with
  | true =>
    obtain rfl := Action.eq_ok_of_isOk hok
    rw [Action.bind_ok hensure] at hinvoke
    have hknown : ctx.id ∈ c.confirmed ∨ ctx.Seen c := by
      rcases (h.confirmed ctx.id).mp (h.known rfl) with hold | ⟨-, hseen⟩
      · exact .inl hold
      · exact .inr hseen
    obtain ⟨calls, hran⟩ := Console.run_cases (ctx.invokeCommand args) d
    cases hran with
    | failed hlog hcalls hrun =>
      exact h.invoked (by rw [hinvoke, hrun]) hlog hcalls (fun _ => hknown) fun hmoved => absurd rfl hmoved
    | done hlog hcalls hdecode hrun =>
      exact h.invoked (by rw [hinvoke, hrun]) hlog (.inr ⟨_, hcalls⟩) (fun _ => hknown) fun _ => ⟨_, _, hcalls, hdecode⟩
  | false =>
    obtain ⟨failure, hbind, -⟩ := Action.bind_failed hensure hok fun _ =>
      Console.run (ctx.invokeCommand args) true
    rw [hbind] at hinvoke
    exact h.invoked (by rw [hinvoke]) (List.append_nil _).symm (.inl rfl) (fun hne => absurd rfl hne)
      fun hmoved => absurd rfl hmoved

/-- Once a context is known, its invocations send the call and nothing else. -/
theorem invoke_known {ctx : Context} {c : Console σ} (hidle : c.batch.isOpen = false)
    (hknown : ctx.id ∈ c.confirmed) (args : List Value) :
    (ctx.invoke args c).2.wire = (Wire.send (ctx.invokeCommand args) c.wire).2 := by
  rw [invoke_idle ctx args hidle, Action.bind_ok (ensureRegistered_known hknown), Console.run_wire]

end Context

end RemoteConsole
