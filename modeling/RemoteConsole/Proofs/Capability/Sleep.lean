import RemoteConsole.Capability.Tool
import RemoteConsole.Proofs.Action
import RemoteConsole.Proofs.Wait

/-!
# A sleep, part by part

A sleep takes a number of ticks and reads the tick. Inside a batch it ends there, because
the reading is only queued. Outside it waits, and then the tick is read once more.
-/

namespace RemoteConsole

open RemoteConsole.Action

namespace Tool

variable {σ : Type}

def ticksArg (name : String) (args : List Value) : Except ControlError Int64 := do
  Args.arity name args 1 1
  Args.count name args 0 "ticks"

theorem ticksArg_eq {name : String} {args : List Value} (harity : Args.arity name args 1 1 = .ok ()) :
    ticksArg name args = Args.count name args 0 "ticks" := by
  rw [ticksArg, harity]
  rfl

theorem difference_ne_error (a b : Int64) (e : ControlError) : difference a b ≠ .error e := by
  unfold difference
  dsimp only
  split
  · exact nofun
  · exact nofun

def ticksSince (ctx : Context) (ticks : Int64) (start : Value) : Action (Console σ) Value := do
  let stop ← ctx.invoke []
  match start.asInt?, stop.asInt? with
  | some a, some b => resume (difference b a)
  | _, _ => return .integer ticks

theorem ticksSince_snd (ctx : Context) (ticks : Int64) (start : Value) (c : Console σ) :
    (ticksSince ctx ticks start c).2 = (ctx.invoke [] c).2 := by
  refine bind_still (fun stop d => ?_) c
  cases start.asInt? with
  | none => rfl
  | some a =>
    cases stop.asInt? with
    | none => rfl
    | some b => rfl

def sleepFrom (ctx : Context) (ticks : Int64) (start : Value) : Action (Console σ) Value := fun c =>
  if c.batch.isOpen then (.ok start, c)
  else
    match span? ticks c.clock.gameSpeed with
    | some span => ticksSince ctx ticks start (Console.wait span c).2
    | none => (.crash tooLong, c)

theorem sleepFrom_tooLong {ctx : Context} {ticks : Int64} {c : Console σ} (hidle : c.batch.isOpen = false)
    (h : span? ticks c.clock.gameSpeed = none) (start : Value) : sleepFrom ctx ticks start c = (.crash tooLong, c) := by
  rw [sleepFrom, if_neg (Bool.eq_false_iff.mp hidle), h]

theorem sleepFrom_waited {ctx : Context} {ticks : Int64} {c : Console σ} {span : Duration}
    (hidle : c.batch.isOpen = false) (h : span? ticks c.clock.gameSpeed = some span) (start : Value) :
    sleepFrom ctx ticks start c = ticksSince ctx ticks start (Console.wait span c).2 := by
  rw [sleepFrom, if_neg (Bool.eq_false_iff.mp hidle), h]

theorem callSleep_eq (ctx : Context) (args : List Value) : callSleep (σ := σ) ctx args =
    (lift (ticksArg ctx.capability args) >>= fun ticks => ctx.invoke [] >>= sleepFrom ctx ticks) := by
  funext c
  unfold callSleep
  cases harity : Args.arity ctx.capability args 1 1 with
  | error e =>
    rw [ticksArg, harity]
    rfl
  | ok _ =>
    rw [lift_ok_bind, ticksArg_eq harity]
    refine congrFun (bind_congr fun ticks => bind_congr fun start => ?_) c
    funext d
    rw [get_bind, sleepFrom, ← span?]
    generalize span? ticks d.clock.gameSpeed = span
    split
    · rfl
    cases span with
    | none => rfl
    | some span => rfl

theorem callSleep_accepted {ctx : Context} {args : List Value} {ticks : Int64}
    (harity : Args.arity ctx.capability args 1 1 = .ok ()) (hcount : Args.count ctx.capability args 0 "ticks" = .ok ticks) :
    callSleep (σ := σ) ctx args = (ctx.invoke [] >>= sleepFrom ctx ticks) := by
  rw [callSleep_eq, ticksArg_eq harity, hcount]
  rfl

end Tool

end RemoteConsole
