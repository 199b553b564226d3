import RemoteConsole.Proofs.Capability.Integer
import RemoteConsole.Proofs.Link.Failure
import RemoteConsole.Proofs.Session.Invoke
import RemoteConsole.Proofs.Session.Speed
import RemoteConsole.Proofs.Wait

/-!
# What sleeping returns

A sleep reads the tick, waits and reads the tick again. Where the link does not
crash, neither reading does, so a crash can only come from a wait that is too
long, or from two readings whose difference does not fit into 64 bits. Otherwise
the difference is what is returned.
-/

namespace RemoteConsole

open RemoteConsole.Action

variable {σ : Type} {I : σ → Prop}

/-! ## Where nothing crashes -/

namespace Console

/-- No batch is open, and the link does not crash. -/
structure Answers (I : σ → Prop) (c : Console σ) : Prop where
  link : c.wire.link.Returns I
  state : I c.wire.state
  idle : c.batch.isOpen = false

/-- The property is kept, and there are no crashes. -/
abbrev Calm {α : Type} (I : σ → Prop) (x : Action (Console σ) α) : Prop :=
  Confined (Answers I) (fun _ => True) (fun _ => False) x

theorem calm_send (text : String) : Calm I (send text) := by
  intro c h
  cases hpoisoned : c.wire.poisoned with
  | true =>
    rw [send_poisoned hpoisoned]
    exact .fail h trivial
  | false =>
    have hlink := h.link text c.wire.state h.state
    rw [send_clean hpoisoned]
    exact ⟨⟨h.link, hlink.keeps, h.idle⟩, hlink.error, hlink.crash⟩

theorem upheld_answers : Upheld (Answers (σ := σ) I) (fun _ => True) (fun _ => False) where
  send {text} _ := calm_send text
  registry _ h := ⟨h.link, h.state, h.idle⟩
  error _ := trivial

theorem calm_invoke (ctx : Context) (args : List Value) : Calm I (ctx.invoke args) := by
  intro c h
  rw [ctx.invoke_idle args h.idle]
  refine confined_bind ?_ (fun _ => ?_) c h
  · exact upheld_answers.ensureRegistered (fun _ h => ⟨h.link, h.state, h.idle⟩) ctx
  · exact upheld_answers.run (fun _ _ h => ⟨h.link, h.state, h.idle⟩) (calm_send _) true

end Console

/-! ## Readings -/

/-- The integer that an invocation without arguments returns. -/
def Context.reading? (ctx : Context) (c : Console σ) : Option Int64 :=
  match (ctx.invoke [] c).1 with
  | .ok v => v.asInt?
  | _ => none

theorem Context.reading?_eq_some {ctx : Context} {c : Console σ} {n : Int64} :
    ctx.reading? c = some n ↔ ∃ v, (ctx.invoke [] c).1 = .ok v ∧ v.asInt? = some n := by
  unfold reading?
  cases (ctx.invoke [] c).1 with
  | ok v => simp
  | error e => simp
  | crash k => simp

/-- The integers read before and after waiting for some ticks. -/
def Context.Readings (ctx : Context) (ticks : Int64) (c : Console σ) (start stop : Int64) : Prop :=
  ∃ span, span? ticks c.clock.gameSpeed = some span ∧ ctx.reading? c = some start ∧
    ctx.reading? (Console.wait span (ctx.invoke [] c).2).2 = some stop

theorem Context.Readings.unique {ctx : Context} {ticks : Int64} {c : Console σ} {start stop start' stop' : Int64}
    (h : ctx.Readings ticks c start stop) (h' : ctx.Readings ticks c start' stop') : start = start' ∧ stop = stop' := by
  obtain ⟨span, hspan, hstart, hstop⟩ := h
  obtain ⟨span', hspan', hstart', hstop'⟩ := h'
  rw [hstart] at hstart'
  rw [hspan] at hspan'
  cases hspan'
  rw [hstop] at hstop'
  exact ⟨Option.some.inj hstart', Option.some.inj hstop'⟩

namespace Tool

theorem difference_of_fits {a b : Int64} (h : Reply.Fits (a.toInt - b.toInt)) :
    ∃ n : Int64, n.toInt = a.toInt - b.toInt ∧ difference a b = .ok (.integer n) := by
  refine ⟨Int64.ofInt (a.toInt - b.toInt), Reply.toInt_ofInt_of_fits h, if_pos ?_⟩
  unfold Reply.Fits at h
  omega

theorem difference_of_not_fits {a b : Int64} (h : ¬ Reply.Fits (a.toInt - b.toInt)) :
    difference a b = .crash (.text "attempt to subtract with overflow") := by
  refine if_neg ?_
  unfold Reply.Fits at h
  omega

theorem isCrash_difference {a b : Int64} : (difference a b).isCrash = true ↔ ¬ Reply.Fits (a.toInt - b.toInt) := by
  by_cases h : Reply.Fits (a.toInt - b.toInt)
  · obtain ⟨n, -, hn⟩ := difference_of_fits h
    rw [hn]
    exact iff_of_false nofun fun hnot => hnot h
  · rw [difference_of_not_fits h]
    exact iff_of_true rfl h

end Tool

/-! ## A remote side that counts -/

def Console.counting (speed : Double) (replies : List String) : Console (List Rule) :=
  .new { Config.default with session := { Config.default.session with gameSpeed := speed } } .empty (.empty true)
    (.connect (Scripted.link false)
      (⟨.contains "~= nil)", none, .reply "true"⟩ :: replies.map fun text => ⟨.contains "pcall(", some 1, .reply text⟩))

theorem Console.answers_counting (speed : Double) (replies : List String) :
    (counting speed replies).Answers Scripted.Harmless where
  link := Scripted.returns false
  state effect h text := by
    rintro rfl
    obtain ⟨rule, hrule, heffect⟩ := List.mem_map.mp h
    rcases List.mem_cons.mp hrule with rfl | hreply
    · cases heffect
    · obtain ⟨reply, -, rfl⟩ := List.mem_map.mp hreply
      cases heffect
  idle := rfl

/-! ## Sleeping -/

namespace Tool

open Console (counting)

section
variable {ctx : Context} {args : List Value} {ticks : Int64}

theorem isCrash_ticksSince {ctx : Context} {start : Value} {c : Console σ} (hc : c.Answers I) :
    (ticksSince ctx ticks start c).1.isCrash = true ↔ ∃ a b, start.asInt? = some a ∧ ctx.reading? c = some b ∧
      ¬ Reply.Fits (b.toInt - a.toInt) := by
  have hcalm := Console.calm_invoke ctx [] c hc
  unfold ticksSince
  cases hstop : ctx.invoke [] c with
  | mk outcome d =>
    rw [hstop] at hcalm
    cases outcome with
    | error e =>
      have hnone : ctx.reading? c = none := by rw [Context.reading?, hstop]
      rw [bind_error hstop, hnone]
      exact iff_of_false nofun fun ⟨_, _, _, h, _⟩ => nomatch h
    | crash k => exact (hcalm.crash rfl).elim
    | ok stop =>
      have hreading : ctx.reading? c = stop.asInt? := by rw [Context.reading?, hstop]
      rw [bind_ok hstop, hreading]
      cases start.asInt? with
      | none => exact iff_of_false nofun fun ⟨_, _, h, _⟩ => nomatch h
      | some a =>
        cases stop.asInt? with
        | none => exact iff_of_false nofun fun ⟨_, _, _, h, _⟩ => nomatch h
        | some b =>
          have hcrash : (resume (difference b a) d).1.isCrash = true ↔ ¬ Reply.Fits (b.toInt - a.toInt) :=
            isCrash_difference
          simpa using hcrash

variable {c : Console σ} (hc : c.Answers I) (harity : Args.arity ctx.capability args 1 1 = .ok ())
  (hcount : Args.count ctx.capability args 0 "ticks" = .ok ticks)
include hc harity hcount

theorem callSleep_started {start : Value} {d : Console σ} (hstart : ctx.invoke [] c = (.ok start, d)) :
    callSleep ctx args c = sleepFrom ctx ticks start d ∧ d.batch.isOpen = false ∧
      d.clock.gameSpeed = c.clock.gameSpeed := by
  have hkept := (Console.calm_invoke ctx [] c hc).keeps
  have hspeed := Console.steady_paced.invoke (P := Console.Paced (· = c.clock.gameSpeed)) (fun _ h => h) ctx [] c rfl
  rw [hstart] at hkept hspeed
  rw [callSleep_accepted harity hcount, bind_ok hstart]
  exact ⟨rfl, hkept.idle, hspeed⟩

theorem callSleep_failed (h : (ctx.invoke [] c).1.isOk = false) : (callSleep ctx args c).1.isCrash = false := by
  have hcalm := Console.calm_invoke ctx [] c hc
  rw [callSleep_accepted harity hcount]
  cases hstart : ctx.invoke [] c with
  | mk outcome d =>
    rw [hstart] at h hcalm
    cases outcome with
    | ok start => cases h
    | error e => rw [bind_error hstart]; rfl
    | crash k => exact (hcalm.crash rfl).elim

theorem callSleep_tooLong {start : Value} {d : Console σ} (hstart : ctx.invoke [] c = (.ok start, d))
    (h : span? ticks c.clock.gameSpeed = none) : callSleep ctx args c = (.crash tooLong, d) := by
  obtain ⟨hcall, hidle, hspeed⟩ := callSleep_started hc harity hcount hstart
  rw [hcall, sleepFrom_tooLong hidle (by rw [hspeed, h])]

theorem callSleep_waited {start : Value} {d : Console σ} (hstart : ctx.invoke [] c = (.ok start, d))
    {span : Duration} (h : span? ticks c.clock.gameSpeed = some span) :
    callSleep ctx args c = ticksSince ctx ticks start (Console.wait span d).2 := by
  obtain ⟨hcall, hidle, hspeed⟩ := callSleep_started hc harity hcount hstart
  rw [hcall, sleepFrom_waited hidle (by rw [hspeed, h])]

theorem isCrash_callSleep {start : Value} {d : Console σ} (hstart : ctx.invoke [] c = (.ok start, d))
    {span : Duration} (h : span? ticks c.clock.gameSpeed = some span) : (callSleep ctx args c).1.isCrash = true ↔
      ∃ a b, ctx.Readings ticks c a b ∧ ¬ Reply.Fits (b.toInt - a.toInt) := by
  have hkept := (Console.calm_invoke ctx [] c hc).keeps
  have hfirst : ctx.reading? c = start.asInt? := by rw [Context.reading?, hstart]
  rw [hstart] at hkept
  have hwaited : (Console.wait span d).2.Answers I := ⟨hkept.link, hkept.state, hkept.idle⟩
  rw [callSleep_waited hc harity hcount hstart h, isCrash_ticksSince hwaited]
  simp [Context.Readings, h, hfirst, hstart, and_assoc]

theorem callSleep_readings {a b : Int64} (h : ctx.Readings ticks c a b) : (callSleep ctx args c).1 = difference b a := by
  obtain ⟨span, hspan, hfirst, hsecond⟩ := h
  obtain ⟨start, hstart, ha⟩ := Context.reading?_eq_some.mp hfirst
  obtain ⟨stop, hstop, hb⟩ := Context.reading?_eq_some.mp hsecond
  have hinvoke : ctx.invoke [] c = (.ok start, (ctx.invoke [] c).2) := Prod.ext hstart rfl
  rw [callSleep_waited hc harity hcount hinvoke hspan, ticksSince, bind_ok (Prod.ext hstop rfl), ha, hb]
  rfl

end

/-- **When a sleep is safe.** With its arguments accepted and outside a batch, at any speed that may be set, a sleep
crashes if and only if the tick can be read and the wait is too long, or the tick is read before and after the wait
and the difference does not fit into 64 bits. A difference that fits is returned, and it is exact. -/
theorem sleep_exact_iff {ctx : Context} {args : List Value} {ticks : Int64} {c : Console σ} (hc : c.Answers I)
    (hspeed : Config.isSpeed c.clock.gameSpeed = true) (harity : Args.arity ctx.capability args 1 1 = .ok ())
    (hcount : Args.count ctx.capability args 0 "ticks" = .ok ticks) :
    ((sleep.call ctx args c).1.isCrash = true ↔
      (ctx.invoke [] c).1.isOk = true ∧ TooLong ticks c.clock.gameSpeed ∨
      ∃ start stop, ctx.Readings ticks c start stop ∧ ¬ Reply.Fits (stop.toInt - start.toInt)) ∧
    ∀ start stop, ctx.Readings ticks c start stop →
      (Reply.Fits (stop.toInt - start.toInt) →
        ∃ n : Int64, n.toInt = stop.toInt - start.toInt ∧ (sleep.call ctx args c).1 = .ok (.integer n)) ∧
      (¬ Reply.Fits (stop.toInt - start.toInt) →
        (sleep.call ctx args c).1 = .crash (.text "attempt to subtract with overflow")) := by
  have hticks : 0 ≤ ticks.toInt := by
    have hchecked : Args.Checks ctx.capability (0 ≤ ·.toInt) (Args.count ctx.capability args 0 "ticks") :=
      Args.checks_count args 0 "ticks"
    rw [hcount] at hchecked
    exact hchecked
  have hcall : sleep.call ctx args c = callSleep ctx args c := rfl
  rw [← span?_eq_none hticks hspeed, hcall]
  constructor
  -- without a first reading nothing is waited for and nothing subtracted
  · cases hok : (ctx.invoke [] c).1.isOk with
    | false =>
      rw [callSleep_failed hc harity hcount hok]
      refine iff_of_false nofun ?_
      rintro (⟨h, -⟩ | ⟨a, b, ⟨span, -, hstart, -⟩, -⟩)
      · cases h
      · obtain ⟨v, hv, -⟩ := Context.reading?_eq_some.mp hstart
        rw [hv] at hok
        cases hok
    | true =>
      obtain ⟨start, hstart⟩ := exists_of_isOk hok
      cases hspan : span? ticks c.clock.gameSpeed with
      | none =>
        rw [callSleep_tooLong hc harity hcount hstart hspan]
        exact iff_of_true rfl (.inl ⟨rfl, rfl⟩)
      | some span =>
        rw [isCrash_callSleep hc harity hcount hstart hspan]
        exact (or_iff_right fun h => nomatch h.2).symm
  · intro start stop h
    rw [callSleep_readings hc harity hcount h]
    exact ⟨difference_of_fits, difference_of_not_fits⟩

/-- A second of sleep, told by the counts. -/
theorem sleep_exact_second :
    let ctx : Context := ⟨"sleep", 0, 0⟩
    let c := counting (Double.ofInt 1) ["{a = true, b = 100}", "{a = true, b = 160}"]
    (sleep.call ctx [.integer 60] c).1.isCrash = false ∧ (sleep.call ctx [.integer 60] c).1 = .ok (.integer 60) := by
  intro ctx c
  have hvalid : c.config.validate = .ok () := by decide +kernel
  have hspeed : Config.isSpeed c.clock.gameSpeed = true :=
    Session.isSpeed_after hvalid .empty (.empty true) c.wire .empty []
  have harity : Args.arity ctx.capability [.integer 60] 1 1 = .ok () := rfl
  have hcount : Args.count ctx.capability [.integer 60] 0 "ticks" = .ok 60 := rfl
  have hnormal : c.clock.gameSpeed.rational? = some ((1 : Int) : ℚ) := Double.whole_iff.mp (by decide +kernel)
  have hreadings : ctx.Readings 60 c 100 160 :=
    ⟨⟨1000000000⟩, by decide +kernel, by decide +kernel, by decide +kernel⟩
  obtain ⟨hcrash, hexact⟩ := sleep_exact_iff (Console.answers_counting _ _ : c.Answers _) hspeed harity hcount
  constructor
  · refine Bool.eq_false_iff.mpr fun h => ?_
    rcases hcrash.mp h with ⟨-, htooLong⟩ | ⟨start, stop, h, hfits⟩
    · exact not_tooLong (by decide) hspeed hnormal (by norm_num) htooLong
    · obtain ⟨rfl, rfl⟩ := hreadings.unique h
      exact hfits (by decide)
  · obtain ⟨n, hn, hvalue⟩ := (hexact 100 160 hreadings).1 (by decide)
    obtain rfl : n = 60 := Int64.toInt_inj.mp hn
    exact hvalue

/-- At the least speed that is accepted, a sleep of one tick crashes; and so does any sleep with the greatest reading
behind a negative one. -/
theorem sleep_overflows :
    let ctx : Context := ⟨"sleep", 0, 0⟩
    let slow := counting (.finite false ⟨1, by decide⟩) ["{a = true, b = 0}"]
    let far := counting (Double.ofInt 1) ["{a = true, b = -1}", "{a = true, b = 9223372036854775807}"]
    slow.config.validate = .ok () ∧ (sleep.call ctx [.integer 1] slow).1.isCrash = true ∧
      far.config.validate = .ok () ∧ ctx.Readings 0 far (-1) 9223372036854775807 ∧
      (sleep.call ctx [.integer 0] far).1 = .crash (.text "attempt to subtract with overflow") := by
  intro ctx slow far
  have hcount : Args.count ctx.capability [.integer 0] 0 "ticks" = .ok 0 := rfl
  have hreadings : ctx.Readings 0 far (-1) 9223372036854775807 :=
    ⟨⟨0⟩, by decide +kernel, by decide +kernel, by decide +kernel⟩
  refine ⟨by decide +kernel, by decide +kernel, by decide +kernel, hreadings, ?_⟩
  have hsleep := callSleep_readings (Console.answers_counting _ _ : far.Answers _) rfl hcount hreadings
  exact hsleep.trans (difference_of_not_fits (by decide))

end Tool

end RemoteConsole
