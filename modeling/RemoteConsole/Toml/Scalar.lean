import RemoteConsole.Double.Text
import RemoteConsole.Text.Search
import RemoteConsole.Toml.Basic

/-!
# Scalars of TOML

Strings stand in double quotes with escapes or in single quotes without, and in three quotes they
may span lines. Every other scalar is a run of characters without blanks: a boolean, an integer, a
float, a date or a time.
-/

namespace RemoteConsole.Toml

/-- True of the characters that strings and comments may hold: no controls but the tab. -/
def isTextChar (c : Char) : Bool := c == '\t' || (decide (0x20 ≤ c.toNat) && c.toNat != 0x7F)

def isBlank (c : Char) : Bool := c == ' ' || c == '\t'

def afterBreak? : List Char → Option (List Char)
  | '\n' :: s => some s
  | '\r' :: '\n' :: s => some s
  | _ => none

/-! ## Strings -/

def codeChar? (n : Nat) (s : List Char) : Option (Char × List Char) :=
  let digits := s.take n
  let code := Text.hexDigitsValue digits
  if digits.length = n ∧ digits.all Text.isHexDigit ∧ code.isValidChar then
    some (Char.ofNat code, s.drop n)
  else none

def escape? : List Char → Option (Char × List Char)
  | 'b' :: s => some ('\x08', s)
  | 't' :: s => some ('\t', s)
  | 'n' :: s => some ('\n', s)
  | 'f' :: s => some ('\x0c', s)
  | 'r' :: s => some ('\r', s)
  | '"' :: s => some ('"', s)
  | '\\' :: s => some ('\\', s)
  | 'u' :: s => codeChar? 4 s
  | 'U' :: s => codeChar? 8 s
  | _ => none

theorem codeChar?_length {n : Nat} {s rest : List Char} {c : Char} (h : codeChar? n s = some (c, rest)) :
    rest.length ≤ s.length := by
  simp only [codeChar?] at h
  split at h
  · simp only [Option.some.injEq, Prod.mk.injEq] at h
    rw [← h.2, List.length_drop]
    omega
  · simp at h

theorem escape?_length {s rest : List Char} {c : Char} (h : escape? s = some (c, rest)) :
    rest.length < s.length := by
  unfold escape? at h
  split at h
  all_goals first
    | (simp only [Option.some.injEq, Prod.mk.injEq] at h; simp [← h.2])
    | (have shorter := codeChar?_length h; simp only [List.length_cons]; omega)
    | simp at h

def push (c : Char) (r : List Char × List Char) : List Char × List Char := (c :: r.1, r.2)

def quotedRest? (s : List Char) : Option (List Char × List Char) :=
  match s with
  | [] => none
  | '"' :: rest => some ([], rest)
  | '\\' :: rest =>
    match h : escape? rest with
    | some (c, rest) =>
      have := escape?_length h
      (quotedRest? rest).map (push c)
    | none => none
  | c :: rest => if isTextChar c then (quotedRest? rest).map (push c) else none
termination_by s.length

def literalRest? : List Char → Option (List Char × List Char)
  | [] => none
  | c :: rest =>
    if c = '\'' then some ([], rest)
    else if isTextChar c then (literalRest? rest).map (push c)
    else none

/-- How a run of quotes ends a text in three quotes: up to two quotes more belong to the text. -/
def closing? (quote : Char) (s : List Char) : Option (Option (List Char × List Char)) :=
  let n := (s.takeWhile (· == quote)).length
  if n < 3 then none
  else if n ≤ 5 then some (some (List.replicate (n - 3) quote, s.drop n))
  else some none

def dropSpace (s : List Char) : List Char :=
  match s with
  | [] => []
  | ' ' :: rest | '\t' :: rest | '\n' :: rest | '\r' :: '\n' :: rest => dropSpace rest
  | c :: rest => c :: rest

theorem dropSpace_length (s : List Char) : (dropSpace s).length ≤ s.length := by
  fun_induction dropSpace s <;> simp_all <;> omega

/-- What follows a line break that is escaped, after the backslash, and all space after it. -/
def afterEscapedBreak? (s : List Char) : Option (List Char) :=
  (afterBreak? (s.dropWhile isBlank)).map dropSpace

theorem afterBreak?_length {s rest : List Char} (h : afterBreak? s = some rest) :
    rest.length < s.length := by
  unfold afterBreak? at h
  split at h
  · cases h
    simp only [List.length_cons]
    omega
  · cases h
    simp only [List.length_cons]
    omega
  · cases h

theorem afterEscapedBreak?_length {s rest : List Char} (h : afterEscapedBreak? s = some rest) :
    rest.length < s.length := by
  obtain ⟨t, ht, rfl⟩ := Option.map_eq_some_iff.1 h
  have := afterBreak?_length ht
  have := dropSpace_length t
  have := (List.dropWhile_sublist (l := s) isBlank).length_le
  omega

def longQuotedRest? (s : List Char) : Option (List Char × List Char) :=
  match closing? '"' s with
  | some ending => ending
  | none =>
    match s with
    | [] => none
    | '\\' :: rest =>
      match h : afterEscapedBreak? rest with
      | some rest =>
        have := afterEscapedBreak?_length h
        longQuotedRest? rest
      | none =>
        match h : escape? rest with
        | some (c, rest) =>
          have := escape?_length h
          (longQuotedRest? rest).map (push c)
        | none => none
    | '\n' :: rest => (longQuotedRest? rest).map (push '\n')
    | '\r' :: '\n' :: rest => (longQuotedRest? rest).map (push '\n')
    | c :: rest => if isTextChar c then (longQuotedRest? rest).map (push c) else none
termination_by s.length

def longLiteralRest? (s : List Char) : Option (List Char × List Char) :=
  match closing? '\'' s with
  | some ending => ending
  | none =>
    match s with
    | [] => none
    | '\n' :: rest => (longLiteralRest? rest).map (push '\n')
    | '\r' :: '\n' :: rest => (longLiteralRest? rest).map (push '\n')
    | c :: rest => if isTextChar c then (longLiteralRest? rest).map (push c) else none

def shortString? : List Char → Option (List Char × List Char)
  | '"' :: s => quotedRest? s
  | '\'' :: s => literalRest? s
  | _ => none

/-- A string and the rest. A line break right after three quotes is not part of the text. -/
def string? : List Char → Option (List Char × List Char)
  | '"' :: '"' :: '"' :: s => longQuotedRest? ((afterBreak? s).getD s)
  | '\'' :: '\'' :: '\'' :: s => longLiteralRest? ((afterBreak? s).getD s)
  | s => shortString? s

/-! ## Numbers -/

/-- Digits with single underscores between them, without the underscores. -/
def digits? (isDigit : Char → Bool) (s : List Char) : Option (List Char) :=
  let groups := Text.splitAt (· == '_') s
  if groups.all fun g => !g.isEmpty && g.all isDigit then some groups.flatten else none

def wholeDigits? (s : List Char) : Option (List Char) :=
  match digits? Char.isDigit s with
  | some ('0' :: _ :: _) => none
  | digits => digits

def signed : List Char → List Char × List Char
  | '-' :: s => (['-'], s)
  | '+' :: s => (['+'], s)
  | s => ([], s)

/-- An integer in hexadecimal, octal or binary digits, which takes no sign. -/
def radixInteger? (base : Nat) (isDigit : Char → Bool) (s : List Char) : Option Int64 := do
  let digits ← digits? isDigit s
  let n := digits.foldl (fun n c => n * base + (Text.hexValue? c).getD 0) 0
  if n < 2 ^ 63 then return Int64.ofNat n else none

def integer? : List Char → Option Int64
  | '0' :: 'x' :: s => radixInteger? 16 Text.isHexDigit s
  | '0' :: 'o' :: s => radixInteger? 8 (fun c => '0' ≤ c && c ≤ '7') s
  | '0' :: 'b' :: s => radixInteger? 2 (fun c => c == '0' || c == '1') s
  | s => do
    let (sign, s) := signed s
    Text.readInt64? (sign ++ (← wholeDigits? s))

/-- The part of a float after its whole digits: a fraction, an exponent or both. -/
def floatTail? (s : List Char) : Option (List Char) :=
  let exponent? (s : List Char) : Option (List Char) :=
    match s with
    | [] => some []
    | c :: s =>
      if c = 'e' ∨ c = 'E' then do
        let (sign, s) := signed s
        return 'e' :: (sign ++ (← digits? Char.isDigit s))
      else none
  match s with
  | [] => none
  | '.' :: s => do
    let inDigits (c : Char) : Bool := c.isDigit || c == '_'
    let fraction ← digits? Char.isDigit (s.takeWhile inDigits)
    return '.' :: (fraction ++ (← exponent? (s.dropWhile inDigits)))
  | s => exponent? s

/-- A float. Digits may denote no infinity, except the negative one. -/
def float? (s : List Char) : Option Double := do
  let (sign, rest) := signed s
  if rest = "inf".toList ∨ rest = "nan".toList then Double.ofText? s
  else
    let inDigits (c : Char) : Bool := c.isDigit || c == '_'
    let whole ← wholeDigits? (rest.takeWhile inDigits)
    let d ← Double.ofText? (sign ++ whole ++ (← floatTail? (rest.dropWhile inDigits)))
    if d = .infinite false then none else return d

/-! ## Dates -/

def isBelow (bound : Nat) (s : List Char) : Bool :=
  s.length == 2 && s.all Char.isDigit && decide (Text.digitsValue s < bound)

def daysIn (year month : Nat) : Nat :=
  if month = 2 then
    if year % 4 = 0 ∧ (year % 100 ≠ 0 ∨ year % 400 = 0) then 29 else 28
  else if month = 4 ∨ month = 6 ∨ month = 9 ∨ month = 11 then 30
  else 31

def isDay (s : List Char) : Bool :=
  match s with
  | [a, b, c, d, '-', e, f, '-', g, h] =>
    let month := Text.digitsValue [e, f]
    let day := Text.digitsValue [g, h]
    [a, b, c, d, e, f, g, h].all Char.isDigit && decide (1 ≤ month ∧ month ≤ 12) &&
      decide (1 ≤ day ∧ day ≤ daysIn (Text.digitsValue [a, b, c, d]) month)
  | _ => false

/-- `hh:mm:ss`, with a fraction or not. -/
def isTime (s : List Char) : Bool :=
  let fraction := s.drop 8
  match s.take 8 with
  | [a, b, ':', c, d, ':', e, f] =>
    isBelow 24 [a, b] && isBelow 60 [c, d] && isBelow 61 [e, f] &&
      (fraction.isEmpty || match fraction with
        | '.' :: ds => !ds.isEmpty && ds.all Char.isDigit
        | _ => false)
  | _ => false

def isOffset : List Char → Bool
  | ['Z'] | ['z'] => true
  | [sign, a, b, ':', c, d] => (sign == '+' || sign == '-') && isBelow 24 [a, b] && isBelow 60 [c, d]
  | _ => false

def isZonedTime (s : List Char) : Bool :=
  let inTime (c : Char) : Bool := c.isDigit || c == ':' || c == '.'
  isTime s || (isTime (s.takeWhile inTime) && isOffset (s.dropWhile inTime))

def isDate (s : List Char) : Bool :=
  isTime s || isDay s ||
    (isDay (s.take 10) && ['T', 't', ' '].any (s[10]? == some ·) && isZonedTime (s.drop 11))

/-! ## Scalars -/

def scalarOf? (token : List Char) : Option Toml :=
  if token = "true".toList then some (.boolean true)
  else if token = "false".toList then some (.boolean false)
  else if isDate token then some .date
  else (integer? token).map .integer <|> (float? token).map .float

def isTokenChar (c : Char) : Bool := c.isAlphanum || ['+', '-', '_', '.', ':'].contains c

/-- A scalar that is no string, and the rest. A blank may stand between a day and a time. -/
def token? (s : List Char) : Option (Toml × List Char) :=
  let token := s.takeWhile isTokenChar
  let rest := s.dropWhile isTokenChar
  match rest with
  | ' ' :: more =>
    let dated := token ++ ' ' :: more.takeWhile isTokenChar
    if isDate dated then some (.date, more.dropWhile isTokenChar)
    else (scalarOf? token).map (·, rest)
  | rest => (scalarOf? token).map (·, rest)

end RemoteConsole.Toml
