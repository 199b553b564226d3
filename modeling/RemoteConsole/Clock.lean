import RemoteConsole.Link.Basic

/-!
# The session clock

Measured calls advance the clock by the game ticks that pass in their time, sixty a second at
normal speed.
-/

namespace RemoteConsole

def Duration.seconds (d : Duration) : Double :=
  (Double.ofInt (d.nanoseconds / 10 ^ 9 : Nat)).add
    ((Double.ofInt (d.nanoseconds % 10 ^ 9 : Nat)).div (Double.ofInt (10 ^ 9)))

/-- The span nearest to a number of seconds, if that is one: seconds are not negative and fit
into 64 bits. -/
def Duration.ofSeconds? (seconds : Double) : Option Duration :=
  if seconds.lt (Double.zero false) || !seconds.lt (Double.ofInt (2 ^ 64)) then none
  else seconds.units?.map fun units => ⟨roundHalfEven (units.natAbs * 10 ^ 9) (2 ^ Double.unitExponent)⟩

def ticksPerSecond : Double := Double.ofInt 60

structure Clock where
  gameSpeed : Double
  /-- The ticks spent in measured calls since the last reset. -/
  elapsedTicks : Double
  serverTick : Option Int64
deriving DecidableEq, Repr

namespace Clock

def new (gameSpeed : Double) : Clock := ⟨gameSpeed, Double.zero false, none⟩

def advance (elapsed : Duration) (c : Clock) : Clock :=
  { c with elapsedTicks := c.elapsedTicks.add ((elapsed.seconds.mul ticksPerSecond).mul c.gameSpeed) }

def reset (c : Clock) : Clock := { c with elapsedTicks := Double.zero false, serverTick := none }

end Clock

end RemoteConsole
