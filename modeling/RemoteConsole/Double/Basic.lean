/-!
# Binary floating point

A finite double is a sign and a place in the increasing sequence of non-negative doubles. Every
place stands for a whole number of units, the unit being the least subnormal, so that all
arithmetic is exact arithmetic on whole numbers followed by one rounding.
-/

namespace RemoteConsole

-- powers are the built-in ones, whatever algebra is in scope
attribute [instance(high), default_instance(high + 1)] instPowNat

inductive Double where
  | nan
  | infinite (negative : Bool)
  /-- Place 0 is zero, place 1 is one unit, and the largest place is the largest finite double. -/
  | finite (negative : Bool) (place : Fin (2047 * 2 ^ 52))
deriving DecidableEq, Repr

/-! ## Places and units

`p` is the precision: 53 bits for a double, 24 for a single. -/

def placeUnits (p place : Nat) : Nat :=
  if place < 2 ^ p then place
  else (2 ^ (p - 1) + place % 2 ^ (p - 1)) * 2 ^ (place / 2 ^ (p - 1) - 1)

def roundHalfEven (num den : Nat) : Nat :=
  let q := num / den
  match compare (2 * (num % den)) den with
  | .lt => q
  | .gt => q + 1
  | .eq => q + q % 2

/-- The place nearest to `num / den` units. The mantissa has `p` bits, unless the value is so
small that the unit itself is coarser; a mantissa that rounds up to the next power of two is
the first of the next binade. -/
def nearestPlace (p num den : Nat) : Nat :=
  let shift := (num / den).log2 - (p - 1)
  shift * 2 ^ (p - 1) + roundHalfEven num (den * 2 ^ shift)

namespace Double

/-- The binary exponent of the unit, negated. -/
def unitExponent : Nat := 1074

def ofPlace (negative : Bool) (place : Nat) : Double :=
  if h : place < 2047 * 2 ^ 52 then finite negative ⟨place, h⟩ else infinite negative

def ofUnits (negative : Bool) (num den : Nat) : Double :=
  ofPlace negative (nearestPlace 53 num den)

def zero (negative : Bool) : Double := ofPlace negative 0

def ofRatio (negative : Bool) (num den : Nat) : Double :=
  ofUnits negative (num * 2 ^ unitExponent) den

def ofInt (i : Int) : Double := ofRatio (decide (i < 0)) i.natAbs 1

/-- The double nearest to `m * 10 ^ e`, where `ofRatio` rounds. Exponents that put any whole
number beyond the largest or below the least double are not multiplied out. -/
def roundDecimal (ofRatio : Bool → Nat → Nat → Double) (negative : Bool) (m : Nat) (e : Int) : Double :=
  if m = 0 then zero negative
  else if e > 400 then infinite negative
  else if e < -400 - (m.log2 : Int) then zero negative
  else ofRatio negative (m * 10 ^ e.toNat) (10 ^ (-e).toNat)

def ofDecimal : Bool → Nat → Int → Double := roundDecimal ofRatio

/-- The single nearest to `num / den`, as a double. A single has 24 bits; its unit is `2 ^ -149`,
and its largest place comes before `255 * 2 ^ 23`. -/
def singleOfRatio (negative : Bool) (num den : Nat) : Double :=
  let place := nearestPlace 24 (num * 2 ^ 149) den
  if place < 255 * 2 ^ 23 then ofRatio negative (placeUnits 24 place) (2 ^ 149)
  else infinite negative

def singleOfDecimal : Bool → Nat → Int → Double := roundDecimal singleOfRatio

def units (place : Fin (2047 * 2 ^ 52)) : Nat := placeUnits 53 place.val

def isFinite : Double → Bool
  | finite _ _ => true
  | _ => false

def isNegative : Double → Bool
  | nan => false
  | infinite n => n
  | finite n _ => n

def units? : Double → Option Int
  | finite n p => some (if n then -(units p : Int) else units p)
  | _ => none

def isWhole : Double → Bool
  | finite _ p => units p % 2 ^ unitExponent == 0
  | _ => false

/-- The whole number nearest to zero's side: the fraction is dropped. -/
def truncate? (d : Double) : Option Int :=
  d.units?.map (Int.tdiv · (2 ^ unitExponent))

def neg : Double → Double
  | nan => nan
  | infinite n => infinite (!n)
  | finite n p => finite (!n) p

def abs : Double → Double
  | nan => nan
  | infinite _ => infinite false
  | finite _ p => finite false p

/-! ## Arithmetic -/

def add : Double → Double → Double
  | nan, _ => nan
  | _, nan => nan
  | infinite n, infinite m => if n = m then infinite n else nan
  | infinite n, finite _ _ => infinite n
  | finite _ _, infinite m => infinite m
  | finite n p, finite m q =>
    let sum : Int := (if n then -(units p : Int) else units p) + (if m then -(units q : Int) else units q)
    if sum = 0 then zero (n && m) else ofUnits (decide (sum < 0)) sum.natAbs 1

def mul : Double → Double → Double
  | nan, _ => nan
  | _, nan => nan
  | infinite n, infinite m => infinite (n != m)
  | infinite n, finite m q => if units q = 0 then nan else infinite (n != m)
  | finite n p, infinite m => if units p = 0 then nan else infinite (n != m)
  | finite n p, finite m q => ofUnits (n != m) (units p * units q) (2 ^ unitExponent)

def div : Double → Double → Double
  | nan, _ => nan
  | _, nan => nan
  | infinite _, infinite _ => nan
  | infinite n, finite m _ => infinite (n != m)
  | finite n _, infinite m => zero (n != m)
  | finite n p, finite m q =>
    if units q = 0 then (if units p = 0 then nan else infinite (n != m))
    else ofUnits (n != m) (units p * 2 ^ unitExponent) (units q)

/-! ## Comparison -/

/-- The order of two doubles, which a NaN has with none; the two zeros are equal. -/
def compare? : Double → Double → Option Ordering
  | nan, _ => none
  | _, nan => none
  | infinite n, infinite m => some (compare m.toNat n.toNat)
  | infinite n, finite _ _ => some (if n then .lt else .gt)
  | finite _ _, infinite m => some (if m then .gt else .lt)
  | finite n p, finite m q =>
    some (compare (if n then -(units p : Int) else units p) (if m then -(units q : Int) else units q))

def lt (a b : Double) : Bool := a.compare? b == some .lt

end Double

end RemoteConsole
