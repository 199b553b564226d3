import RemoteConsole.Assoc
import RemoteConsole.Double.Text

/-!
# JSON values and their numbers

Integers are kept apart from doubles: one is exact while 64 bits hold it. Any other number is
read by its leading digits, as many as 64 bits hold, and one multiplication or division by a power
of ten, each rounded. The members of an object are held in the order of their names, and a name
that is written twice keeps its last value.
-/

namespace RemoteConsole

inductive Json where
  | null
  | boolean (b : Bool)
  | integer (i : Int)
  | double (d : Double)
  | string (s : String)
  | array (items : List Json)
  | object (members : List (String × Json))
deriving Inhabited

/-! ## Numbers -/

namespace Json

def maxSignificand : Nat := 2 ^ 64 - 1

/-- Appends the digits before the point; from the first one that does not fit on, each counts as
a power of ten. -/
def appendWhole (significand : Nat) : List Char → Nat × Nat
  | [] => (significand, 0)
  | c :: cs =>
    let next := significand * 10 + Text.digitsValue [c]
    if next > maxSignificand then (significand, cs.length + 1) else appendWhole next cs

/-- Appends the digits after the point; from the first one that does not fit on, they are
dropped. Returns how many were appended. -/
def appendFraction (significand : Nat) : List Char → Nat × Nat
  | [] => (significand, 0)
  | c :: cs =>
    let next := significand * 10 + Text.digitsValue [c]
    if next > maxSignificand then (significand, 0)
    else let (s, n) := appendFraction next cs; (s, n + 1)

def powerOfTen (n : Nat) : Double := Double.ofDecimal false 1 n

def scaleDown (d : Double) (n : Nat) : Double :=
  if n ≤ 308 then d.div (powerOfTen n)
  else if d = Double.zero false then d
  else scaleDown (d.div (powerOfTen 308)) (n - 308)
termination_by n

/-- `significand * 10 ^ exponent`, unless it is too large. -/
def scale? (significand : Nat) (exponent : Int) : Option Double :=
  let d := Double.ofInt significand
  if exponent < 0 then some (scaleDown d (-exponent).toNat)
  else if significand = 0 then some d
  else if exponent > 308 then none
  else
    let product := d.mul (powerOfTen exponent.toNat)
    if product.isFinite then some product else none

def signed (negative : Bool) (d : Double) : Double := if negative then d.neg else d

def numberOf? (negative : Bool) (whole : List Char) (fraction : Option (List Char))
    (exponent : Option Int) : Option Json :=
  let (significand, dropped) := appendWhole 0 whole
  match fraction, exponent with
  | none, none =>
    if dropped = 0 then
      if !negative then some (integer significand)
      else if significand = 0 ∨ significand > 2 ^ 63 then
        some (double (Double.ofInt significand).neg)
      else some (integer (-(significand : Int)))
    else (scale? significand dropped).map fun d => double (signed negative d)
  | _, _ =>
    let (significand, appended) := appendFraction significand (fraction.getD [])
    (scale? significand (dropped - appended + exponent.getD 0)).map fun d => double (signed negative d)

def number? (s : List Char) : Option (Json × List Char) :=
  let (negative, s) := match s with
    | '-' :: rest => (true, rest)
    | rest => (false, rest)
  let whole := s.takeWhile Char.isDigit
  let s := s.dropWhile Char.isDigit
  if whole.isEmpty || (whole.head? == some '0' && whole.length > 1) then none
  else
    let (fraction, s) := match s with
      | '.' :: rest => (some (rest.takeWhile Char.isDigit), rest.dropWhile Char.isDigit)
      | rest => (none, rest)
    if fraction == some [] then none
    else
      match s with
      | c :: rest =>
        if c = 'e' ∨ c = 'E' then
          let (down, rest) := match rest with
            | '+' :: ds => (false, ds)
            | '-' :: ds => (true, ds)
            | ds => (false, ds)
          let digits := rest.takeWhile Char.isDigit
          if digits.isEmpty then none
          else
            let n : Int := Text.digitsValue digits
            (numberOf? negative whole fraction (some (if down then -n else n))).map
              (·, rest.dropWhile Char.isDigit)
        else (numberOf? negative whole fraction none).map (·, s)
      | [] => (numberOf? negative whole fraction none).map (·, s)

end Json

end RemoteConsole
