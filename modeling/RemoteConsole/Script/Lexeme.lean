import RemoteConsole.Text.Search

/-!
# Lexemes of a script

A script is cut into lexemes: comments, strings, words, runs that start with a digit, and single
characters. Only words and brackets matter to its structure. The lexemes of a script joined give
the script again.
-/

namespace RemoteConsole.Script

inductive Bracket where
  | round | square | curly
deriving DecidableEq, Repr

def Bracket.opener : Bracket → Char
  | round => '('
  | square => '['
  | curly => '{'

def Bracket.closer : Bracket → Char
  | round => ')'
  | square => ']'
  | curly => '}'

inductive Token where
  | word (letters : List Char)
  | opening (b : Bracket)
  | closing (b : Bracket)
  /-- A comment, a string, a number, a blank or any other character. -/
  | other
deriving DecidableEq, Repr

inductive Unfinished where
  | string | longString | longComment
deriving DecidableEq, Repr

def isWordStart (c : Char) : Bool := c.isAlpha || c == '_'

def isWordChar (c : Char) : Bool := c.isAlphanum || c == '_'

/-- Numbers may contain letters, for hexadecimal digits and exponents. -/
def isNumberChar (c : Char) : Bool := c.isAlphanum || c == '.' || c == '_'

/-- The level of a long bracket, from the text after its first character: equals signs up to a
second opening bracket. -/
def longLevel? : List Char → Option Nat
  | '[' :: _ => some 0
  | '=' :: s => (longLevel? s).map (· + 1)
  | _ => none

/-- What follows the first character of a closing long bracket. -/
def longCloser (level : Nat) : List Char := List.replicate level '=' ++ [']']

def longBody? (level : Nat) : List Char → Option (List Char × List Char)
  | [] => none
  | c :: s =>
    match if c = ']' then Text.after? (longCloser level) s else none with
    | some rest => some (c :: longCloser level, rest)
    | none => (longBody? level s).map fun (body, rest) => (c :: body, rest)

/-- A text up to and with the closing quote. A backslash protects the character after it; no
unprotected line feed may stand before the quote. -/
def quotedBody? (quote : Char) : List Char → Option (List Char × List Char)
  | [] => none
  | ['\\'] => none
  | '\\' :: c :: s => (quotedBody? quote s).map fun (body, rest) => ('\\' :: c :: body, rest)
  | c :: s =>
    if c = '\n' then none
    else if c = quote then some ([c], s)
    else (quotedBody? quote s).map fun (body, rest) => (c :: body, rest)

/-- The rest of a long bracket of a level, from the text after its first character. -/
def longRest? (level : Nat) (s : List Char) : Option (List Char × List Char) :=
  (longBody? level (s.drop (level + 1))).map fun (body, rest) => (s.take (level + 1) ++ body, rest)

def commentRest (s : List Char) : Except Unfinished (List Char × List Char) :=
  match s with
  | '[' :: t =>
    match longLevel? t with
    | some level => match longRest? level t with
      | some (body, rest) => .ok ('[' :: body, rest)
      | none => .error .longComment
    | none => .ok (s.takeWhile (· ≠ '\n'), s.dropWhile (· ≠ '\n'))
  | _ => .ok (s.takeWhile (· ≠ '\n'), s.dropWhile (· ≠ '\n'))

/-- The lexeme that starts with `c`: what it is, its characters after `c`, and the rest. -/
def lexeme (c : Char) (s : List Char) : Except Unfinished (Token × List Char × List Char) :=
  if c = '-' ∧ s.head? = some '-' then
    (commentRest s.tail).map fun (body, rest) => (.other, '-' :: body, rest)
  else if c = '"' ∨ c = '\'' then
    match quotedBody? c s with
    | some (body, rest) => .ok (.other, body, rest)
    | none => .error .string
  else if c = '[' then
    match longLevel? s with
    | some level => match longRest? level s with
      | some (body, rest) => .ok (.other, body, rest)
      | none => .error .longString
    | none => .ok (.opening .square, [], s)
  else if c = '(' then .ok (.opening .round, [], s)
  else if c = '{' then .ok (.opening .curly, [], s)
  else if c = ')' then .ok (.closing .round, [], s)
  else if c = ']' then .ok (.closing .square, [], s)
  else if c = '}' then .ok (.closing .curly, [], s)
  else if isWordStart c then
    .ok (.word (c :: s.takeWhile isWordChar), s.takeWhile isWordChar, s.dropWhile isWordChar)
  else if c.isDigit then .ok (.other, s.takeWhile isNumberChar, s.dropWhile isNumberChar)
  else .ok (.other, [], s)

/-! ## Nothing is lost -/

theorem longBody?_append {level : Nat} {s body rest : List Char}
    (h : longBody? level s = some (body, rest)) : body ++ rest = s := by
  induction s generalizing body with
  | nil => simp [longBody?] at h
  | cons c s ih =>
    simp only [longBody?] at h
    split at h
    · next r hr =>
      split at hr
      · next hc =>
        simp only [Option.some.injEq, Prod.mk.injEq] at h
        obtain ⟨rfl, rfl⟩ := h
        simp [Text.eq_append_of_after? hr]
      · simp at hr
    · simp only [Option.map_eq_some_iff, Prod.mk.injEq, Prod.exists] at h
      obtain ⟨b, r, hb, rfl, rfl⟩ := h
      simp [ih hb]

theorem quotedBody?_append {q : Char} {s body rest : List Char}
    (h : quotedBody? q s = some (body, rest)) : body ++ rest = s := by
  fun_induction quotedBody? q s generalizing body with
  | case1 => simp at h
  | case2 => simp at h
  | case3 c s ih =>
    simp only [Option.map_eq_some_iff, Prod.mk.injEq, Prod.exists] at h
    obtain ⟨b, r, hb, rfl, rfl⟩ := h
    simp [ih hb]
  | case4 => simp at h
  | case5 =>
    simp only [Option.some.injEq, Prod.mk.injEq] at h
    obtain ⟨rfl, rfl⟩ := h
    simp
  | case6 c s _ _ _ _ ih =>
    simp only [Option.map_eq_some_iff, Prod.mk.injEq, Prod.exists] at h
    obtain ⟨b, r, hb, rfl, rfl⟩ := h
    simp [ih hb]

theorem longRest?_append {level : Nat} {s body rest : List Char}
    (h : longRest? level s = some (body, rest)) : body ++ rest = s := by
  simp only [longRest?, Option.map_eq_some_iff, Prod.mk.injEq, Prod.exists] at h
  obtain ⟨b, r, hb, rfl, rfl⟩ := h
  rw [List.append_assoc, longBody?_append hb, List.take_append_drop]

theorem commentRest_append {s body rest : List Char} (h : commentRest s = .ok (body, rest)) :
    body ++ rest = s := by
  unfold commentRest at h
  split at h
  · split at h
    · split at h
      · next hl =>
        simp only [Except.ok.injEq, Prod.mk.injEq] at h
        obtain ⟨rfl, rfl⟩ := h
        simp [longRest?_append hl]
      · simp at h
    · simp only [Except.ok.injEq, Prod.mk.injEq] at h
      obtain ⟨rfl, rfl⟩ := h
      exact List.takeWhile_append_dropWhile
  · simp only [Except.ok.injEq, Prod.mk.injEq] at h
    obtain ⟨rfl, rfl⟩ := h
    exact List.takeWhile_append_dropWhile

theorem lexeme_append {c : Char} {s body rest : List Char} {t : Token}
    (h : lexeme c s = .ok (t, body, rest)) : body ++ rest = s := by
  unfold lexeme at h
  split at h
  · next hc =>
    cases hr : commentRest s.tail with
    | error e => simp [hr, Except.map] at h
    | ok p =>
      simp only [hr, Except.map, Except.ok.injEq, Prod.mk.injEq] at h
      obtain ⟨_, rfl, rfl⟩ := h
      cases s with
      | nil => simp at hc
      | cons d s => simp_all [commentRest_append hr]
  · split at h
    · split at h
      · next hq =>
        simp only [Except.ok.injEq, Prod.mk.injEq] at h
        obtain ⟨_, rfl, rfl⟩ := h
        exact quotedBody?_append hq
      · simp at h
    · split at h
      · split at h
        · split at h
          · next hl =>
            simp only [Except.ok.injEq, Prod.mk.injEq] at h
            obtain ⟨_, rfl, rfl⟩ := h
            exact longRest?_append hl
          · simp at h
        · simp only [Except.ok.injEq, Prod.mk.injEq] at h
          obtain ⟨_, rfl, rfl⟩ := h
          rfl
      · repeat' split at h
        all_goals
          simp only [Except.ok.injEq, Prod.mk.injEq] at h
          obtain ⟨_, rfl, rfl⟩ := h
          simp [List.takeWhile_append_dropWhile]

theorem lexeme_length {c : Char} {s body rest : List Char} {t : Token}
    (h : lexeme c s = .ok (t, body, rest)) : rest.length < (c :: s).length := by
  have := congrArg List.length (lexeme_append h)
  simp only [List.length_append, List.length_cons] at *
  omega

end RemoteConsole.Script
