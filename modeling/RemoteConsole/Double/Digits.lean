import RemoteConsole.Double.Basic

/-!
# The shortest decimal of a double

A finite double is a whole number of units, so it has an exact decimal expansion. Cutting that
expansion after its first, second, … digit gives two neighbours on each decimal grid. The
shortest decimal is the first of them that reads back to the double.
-/

namespace RemoteConsole

/-- The number `digits * 10 ^ exponent`. -/
structure Decimal where
  digits : Nat
  exponent : Int
deriving DecidableEq, Repr

/-- Which of two equally close neighbours is taken. -/
inductive Tie where
  | up
  | even
deriving DecidableEq, Repr

namespace Decimal

def toDouble (d : Decimal) : Double := Double.ofDecimal false d.digits d.exponent

/-- Moves the zeros at the end of the digits into the exponent, at most `fuel` of them. -/
def stripZeros : (fuel : Nat) → Decimal → Decimal
  | 0, d => d
  | fuel + 1, d =>
    if d.digits ≠ 0 ∧ d.digits % 10 = 0 then stripZeros fuel ⟨d.digits / 10, d.exponent + 1⟩ else d

def digitChars (d : Decimal) : List Char := Nat.toDigits 10 d.digits

def leading (d : Decimal) : Int := d.exponent + (d.digitChars.length : Int) - 1

/-- Takes the closer of the two neighbours of `exact` after its last `dropped` digits are cut
off, if it reads back to `target`; else the other one, if that does. -/
def cut? (tie : Tie) (target : Double) (exact : Decimal) (dropped : Nat) : Option Decimal :=
  let grid := 10 ^ dropped
  let low : Decimal := ⟨exact.digits / grid, exact.exponent + dropped⟩
  let high : Decimal := ⟨low.digits + 1, low.exponent⟩
  let lowFirst : Bool := match compare (2 * (exact.digits % grid)) grid with
    | .lt => true
    | .gt => false
    | .eq => tie == .even && low.digits % 2 == 0
  let candidates := cond lowFirst [low, high] [high, low]
  candidates.find? (·.toDouble == target)

end Decimal

namespace Double

def exactDecimal (place : Fin (2047 * 2 ^ 52)) : Decimal :=
  ⟨units place * 5 ^ unitExponent, -(unitExponent : Int)⟩

/-- The fewest digits that read back to the double at a place, and of those the closest. -/
def shortest (tie : Tie) (place : Fin (2047 * 2 ^ 52)) : Decimal :=
  let exact := exactDecimal place
  let length := exact.digitChars.length
  let cuts := (List.range length).map fun n => length - 1 - n
  let found := cuts.findSome? (exact.cut? tie (finite false place))
  ((found.getD exact).stripZeros length)

end Double

end RemoteConsole
