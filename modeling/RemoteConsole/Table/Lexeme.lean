import RemoteConsole.Text.Numeral
import RemoteConsole.Text.Search
import RemoteConsole.Double.Basic

/-!
# Lexemes of a reply

Layout is white space and comments; between the tokens of a reply it may stand anywhere. Each
reader below takes one token from the front of a text and returns it with what follows.
-/

namespace RemoteConsole.Table

def isLayout (c : Char) : Bool := c == ' ' || c == '\t' || c == '\r' || c == '\n'

def isLineBreak (c : Char) : Bool := c == '\r' || c == '\n'

/-- Skips layout; a comment starts with two minus signs and runs to the next line break. -/
def skipFrom : (inComment : Bool) → List Char → List Char
  | _, [] => []
  | true, c :: s => skipFrom (!isLineBreak c) s
  | false, c :: s =>
    if isLayout c then skipFrom false s
    else match c, s with
      | '-', '-' :: s' => skipFrom true s'
      | _, _ => c :: s

def skip (s : List Char) : List Char := skipFrom false s

def isNameChar (c : Char) : Bool := c.isAlphanum || c == '_'

def isNameStart (c : Char) : Bool := c.isAlpha || c == '_'

def atWordEnd : List Char → Bool
  | [] => true
  | c :: _ => !isNameChar c

def word? (word s : List Char) : Option (List Char) :=
  (after? word s).filter atWordEnd
where after? := Text.after?

def keywords : List (List Char) := ["true".toList, "false".toList, "nil".toList]

/-- A name is a run of name characters that starts with no digit and is no keyword. -/
def name? (s : List Char) : Option (List Char × List Char) :=
  let name := s.takeWhile isNameChar
  match name with
  | [] => none
  | c :: _ => if isNameStart c && !keywords.contains name then some (name, s.dropWhile isNameChar) else none

def boolean? (s : List Char) : Option (Bool × List Char) :=
  match word? "true".toList s with
  | some rest => some (true, rest)
  | none => (word? "false".toList s).map fun rest => (false, rest)

def nil? (s : List Char) : Option (List Char) := word? "nil".toList s

def sign (s : List Char) : Bool × List Char :=
  match s with
  | '-' :: rest => (true, rest)
  | rest => (false, rest)

/-- The numbers without digits of their own: an infinity or the value that is no number, as an
expression or as it is printed. -/
def special? (s : List Char) : Option (Double × List Char) :=
  let (negative, s) := sign s
  let infinity := (Text.after? "math.huge".toList s).or (word? "inf".toList s)
  let undefined := ((Text.after? "(0/0)".toList s).or (Text.after? "0/0".toList s)).or (word? "nan".toList s)
  (infinity.map fun rest => (.infinite negative, rest)).or (undefined.map fun rest => (.nan, rest))

def exponentPart (s : List Char) : List Char :=
  match s with
  | c :: rest =>
    if c = 'e' ∨ c = 'E' then
      let (signs, digits) := match rest with
        | '+' :: ds => (['+'], ds)
        | '-' :: ds => (['-'], ds)
        | ds => ([], ds)
      let run := digits.takeWhile Char.isDigit
      if run.isEmpty then [] else c :: (signs ++ run)
    else []
  | [] => []

def mantissaPart? (s : List Char) : Option (List Char) :=
  let whole := s.takeWhile Char.isDigit
  match s.dropWhile Char.isDigit with
  | '.' :: rest =>
    let fraction := rest.takeWhile Char.isDigit
    if whole.isEmpty && fraction.isEmpty then none else some (whole ++ '.' :: fraction)
  | _ => if whole.isEmpty then none else some whole

def decimal? (s : List Char) : Option (List Char) :=
  (mantissaPart? s).map fun mantissa => mantissa ++ exponentPart (s.drop mantissa.length)

def hexadecimal? (s : List Char) : Option (List Char) :=
  match s with
  | '0' :: x :: rest =>
    let digits := rest.takeWhile Text.isHexDigit
    if (x = 'x' ∨ x = 'X') ∧ digits ≠ [] then some ('0' :: x :: digits) else none
  | _ => none

def number? (s : List Char) : Option (List Char × List Char) :=
  let (negative, t) := sign s
  ((hexadecimal? t).or (decimal? t)).map fun lexeme =>
    (if negative then '-' :: lexeme else lexeme, t.drop lexeme.length)

/-- The body of a string up to its closing quote; a backslash protects the character after it. -/
def stringBody? (quote : Char) : List Char → Option (List Char × List Char)
  | [] => none
  | ['\\'] => none
  | '\\' :: c :: s => (stringBody? quote s).map fun (body, rest) => ('\\' :: c :: body, rest)
  | c :: s =>
    if c = quote then some ([], s)
    else (stringBody? quote s).map fun (body, rest) => (c :: body, rest)

def string? (s : List Char) : Option (List Char × List Char) :=
  match s with
  | '"' :: rest => stringBody? '"' rest
  | '\'' :: rest => stringBody? '\'' rest
  | _ => none

end RemoteConsole.Table
