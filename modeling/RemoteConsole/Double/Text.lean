import RemoteConsole.Double.Digits
import RemoteConsole.Text.Numeral

/-!
# Doubles as text

A style holds the decisions of one output format; the digits are always the shortest ones. The
reader takes any decimal with an optional fraction and exponent and the names of the values that
have no digits.
-/

namespace RemoteConsole

structure NumberStyle where
  tie : Tie
  /-- Exponents of the first digit for which the number is written without an exponent. -/
  positional : Int → Bool
  pointZero : Bool
  plusSign : Bool

namespace NumberStyle

/-- The digits with a point at its place, for a first digit of exponent `e`. -/
def plain (style : NumberStyle) (digits : List Char) (e : Int) : List Char :=
  if e < 0 then
    '0' :: '.' :: (List.replicate ((-e).toNat - 1) '0' ++ digits)
  else
    let whole := e.toNat + 1
    let front := digits.take whole ++ List.replicate (whole - digits.length) '0'
    let fraction := digits.drop whole
    if fraction.isEmpty then (if style.pointZero then front ++ ['.', '0'] else front)
    else front ++ '.' :: fraction

def scientific (style : NumberStyle) (digits : List Char) (e : Int) : List Char :=
  let mantissa := match digits with
    | [] => []
    | [d] => [d]
    | d :: ds => d :: '.' :: ds
  let sign := if e < 0 then ['-'] else if style.plusSign then ['+'] else []
  mantissa ++ 'e' :: (sign ++ Text.natText e.natAbs)

def magnitude (style : NumberStyle) (place : Fin (2047 * 2 ^ 52)) : List Char :=
  if place.val = 0 then style.plain ['0'] 0
  else
    let decimal := Double.shortest style.tie place
    if style.positional decimal.leading then style.plain decimal.digitChars decimal.leading
    else style.scientific decimal.digitChars decimal.leading

def render (style : NumberStyle) : Double → List Char
  | .nan => "NaN".toList
  | .infinite negative => if negative then "-inf".toList else "inf".toList
  | .finite negative place =>
    if negative then '-' :: style.magnitude place else style.magnitude place

/-- Literals keep a point or an exponent; an exponent is written from 10^16 on and below 10^-4,
and a tie goes up. -/
def literal : NumberStyle := ⟨.up, fun e => decide (-4 ≤ e ∧ e < 16), true, false⟩

/-- Messages never write an exponent and show whole numbers without a point. -/
def message : NumberStyle := ⟨.up, fun _ => true, false, false⟩

/-- JSON writes an exponent with its sign, from 10^16 on and below 10^-5, and a tie goes to the
even digit. -/
def json : NumberStyle := ⟨.even, fun e => decide (-5 ≤ e ∧ e < 16), true, true⟩

end NumberStyle

namespace Double

/-- Reads `e+5`, `E-3` or nothing. -/
def exponentOf? : List Char → Option Int
  | [] => some 0
  | c :: rest =>
    if c = 'e' ∨ c = 'E' then
      let (negative, digits) := match rest with
        | '-' :: ds => (true, ds)
        | '+' :: ds => (false, ds)
        | ds => (false, ds)
      if digits.isEmpty || !digits.all Char.isDigit then none
      else some (if negative then -(Text.digitsValue digits : Int) else Text.digitsValue digits)
    else none

/-- Reads digits, a fraction and an exponent; a point may stand at either end of the digits. The
result is a whole number and a power of ten. -/
def decimalOf? (s : List Char) : Option (Nat × Int) :=
  let whole := s.takeWhile Char.isDigit
  let (fraction, tail) := match s.dropWhile Char.isDigit with
    | '.' :: rest => (rest.takeWhile Char.isDigit, rest.dropWhile Char.isDigit)
    | rest => ([], rest)
  if whole.isEmpty && fraction.isEmpty then none
  else (exponentOf? tail).map fun e => (Text.digitsValue (whole ++ fraction), e - fraction.length)

/-- Reads an optional sign, and digits or the name of an infinity or of the value that is no
number, in any case of letters. `round` makes the double of a sign and a decimal. -/
def readWith? (round : Bool → Nat → Int → Double) (s : List Char) : Option Double :=
  let (negative, rest) := match s with
    | '-' :: rest => (true, rest)
    | '+' :: rest => (false, rest)
    | rest => (false, rest)
  let name := rest.map Char.toLower
  if name = "inf".toList ∨ name = "infinity".toList then some (infinite negative)
  else if name = "nan".toList then some nan
  else (decimalOf? rest).map fun (m, e) => round negative m e

def ofText? (s : List Char) : Option Double := readWith? ofDecimal s

def ofSingleText? (s : List Char) : Option Double := readWith? singleOfDecimal s

end Double

end RemoteConsole
