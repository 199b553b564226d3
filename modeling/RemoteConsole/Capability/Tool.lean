import RemoteConsole.Capability.Args
import RemoteConsole.Capability.Context
import RemoteConsole.Capability.Direction

/-!
# Tools

The capabilities that the control plane knows how to call. Each checks its arguments before it
sends or queues anything.
-/

namespace RemoteConsole

inductive Tool where
  | moveTo
  | inspectInventory
  | placeEntity
  | placeNextTo
  | pickUpEntity
  | sleep
  | clearEntities
  | setInventory
deriving DecidableEq, Repr

namespace Tool

def all : List Tool :=
  [moveTo, inspectInventory, placeEntity, placeNextTo, pickUpEntity, sleep, clearEntities, setInventory]

def identifier : Tool → String
  | moveTo => "MoveTo"
  | inspectInventory => "InspectInventory"
  | placeEntity => "PlaceEntity"
  | placeNextTo => "PlaceNextTo"
  | pickUpEntity => "PickUpEntity"
  | sleep => "Sleep"
  | clearEntities => "ClearEntities"
  | setInventory => "SetInventory"

def ofIdentifier? (name : String) : Option Tool := all.find? (·.identifier == name)

/-! ## Arguments

Each function checks the arguments of a call and returns those that the remote side is given. -/

def noArgs (name : String) (args : List Value) : Except ControlError (List Value) := do
  Args.arity name args 0 0
  return []

def moveToArgs (name : String) (args : List Value) : Except ControlError (List Value) := do
  Args.arity name args 2 2
  let x ← Args.number name args 0 "x"
  let y ← Args.number name args 1 "y"
  return [.number x, .number y]

def pickUpArgs (name : String) (args : List Value) : Except ControlError (List Value) := do
  Args.arity name args 3 3
  let entity ← Args.text name args 0 "entity name"
  let x ← Args.number name args 1 "x"
  let y ← Args.number name args 2 "y"
  return [.string entity, .number x, .number y]

def directionArg (name : String) (v : Value) : Except ControlError Direction :=
  (Direction.ofValue v).mapError (.invalidArgument name)

def isOmitted (args : List Value) (index : Nat) : Bool :=
  match args[index]? with
  | none | some .nil => true
  | _ => false

def placeEntityArgs (name : String) (args : List Value) : Except ControlError (List Value) := do
  Args.arity name args 3 4
  let entity ← Args.text name args 0 "entity name"
  let x ← Args.number name args 1 "x"
  let y ← Args.number name args 2 "y"
  let direction ← if isOmitted args 3 then pure Direction.north else directionArg name (args[3]?.getD .nil)
  return [.string entity, .number x, .number y, .ofNat direction.toNat]

def placeNextToArgs (name : String) (args : List Value) : Except ControlError (List Value) :=
  match harity : Args.arity name args 4 5 with
  | .error e => .error e
  | .ok () => do
    let entity ← Args.text name args 0 "entity name"
    let x ← Args.number name args 1 "reference x"
    let y ← Args.number name args 2 "reference y"
    let direction ← directionArg name (args.get ⟨3, (Args.length_of_arity harity).1⟩)
    let spacing ← if isOmitted args 4 then pure 0 else Args.count name args 4 "spacing"
    if direction.isAxial then
      return [.string entity, .number x, .number y, .ofNat direction.toNat, .integer spacing]
    else Args.refuse name "direction must be north, east, south or west"

def badCount? (items : List (String × Value)) : Option String :=
  (items.find? fun (_, count) => !((count.asInt?.map fun n => decide (0 ≤ n.toInt)).getD false)).map Prod.fst

def setInventoryArgs (name : String) (args : List Value) : Except ControlError (List Value) :=
  match args with
  | [.map items] =>
    match badCount? items with
    | some item => Args.refuse name s!"count for `{item}` must be a non-negative integer"
    | none => .ok args
  | [.list []] => .ok [.list []]
  | _ => Args.refuse name "expected one `\x7bitem = count\x7d` map"

/-! ## Calls -/

variable {σ : Type}

def tooLong : Crash :=
  .text "cannot convert float seconds to Duration: value is either too big or NaN"

/-- The difference of two integers that must fit into 64 bits itself. -/
def difference (a b : Int64) : Outcome Value :=
  let d := a.toInt - b.toInt
  if -2 ^ 63 ≤ d ∧ d < 2 ^ 63 then .ok (.integer (Int64.ofInt d))
  else .crash (.text "attempt to subtract with overflow")

/-- Waits for some ticks between two readings of the tick; returns how many passed. Inside a
batch there is nothing to wait for. -/
def callSleep (ctx : Context) (args : List Value) : Action (Console σ) Value := do
  Action.lift (Args.arity ctx.capability args 1 1)
  let ticks ← Action.lift (Args.count ctx.capability args 0 "ticks")
  let start ← ctx.invoke []
  let c ← Action.get
  if c.batch.isOpen then return start
  match Duration.ofSeconds? ((Double.ofInt ticks.toInt).div (ticksPerSecond.mul c.clock.gameSpeed)) with
  | some span => Console.wait span
  | none => Action.crash tooLong
  let stop ← ctx.invoke []
  match start.asInt?, stop.asInt? with
  | some a, some b => Action.resume (difference b a)
  | _, _ => return .integer ticks

/-- An inventory without items comes back as an empty list. -/
def callInspect (ctx : Context) (args : List Value) : Action (Console σ) Value := do
  match (← ctx.invoke (← Action.lift (noArgs ctx.capability args))) with
  | .list [] => return .map []
  | v => return v

def callChecked (check : String → List Value → Except ControlError (List Value)) (ctx : Context)
    (args : List Value) : Action (Console σ) Value := do
  ctx.invoke (← Action.lift (check ctx.capability args))

def call : Tool → Context → List Value → Action (Console σ) Value
  | moveTo => callChecked moveToArgs
  | inspectInventory => callInspect
  | placeEntity => callChecked placeEntityArgs
  | placeNextTo => callChecked placeNextToArgs
  | pickUpEntity => callChecked pickUpArgs
  | sleep => callSleep
  | clearEntities => callChecked noArgs
  | setInventory => callChecked setInventoryArgs

end Tool

end RemoteConsole
