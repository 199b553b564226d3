import RemoteConsole.Toml.Scalar

/-!
# Reading TOML

A document is read as a list of statements, one a line, which then make the tables. Values nest
and keys are dotted at most 79 deep.
-/

namespace RemoteConsole.Toml

def maxDepth : Nat := 79

def lineEnd? (s : List Char) : Option (List Char) :=
  let s := s.dropWhile isBlank
  let s := match s with
    | '#' :: comment => comment.dropWhile isTextChar
    | s => s
  if s.isEmpty then some [] else afterBreak? s

def dropLines : (inComment : Bool) → List Char → List Char
  | _, [] => []
  | _, '\n' :: s => dropLines false s
  | _, '\r' :: '\n' :: s => dropLines false s
  | true, c :: s => if isTextChar c then dropLines true s else c :: s
  | false, c :: s =>
    if isBlank c then dropLines false s
    else if c = '#' then dropLines true s
    else c :: s

/-! ## Keys -/

def isKeyChar (c : Char) : Bool := c.isAlphanum || c == '_' || c == '-'

def name? (s : List Char) : Option (String × List Char) :=
  match s.takeWhile isKeyChar with
  | [] => (shortString? s).map fun (text, rest) => (String.ofList text, rest)
  | name => some (String.ofList name, s.dropWhile isKeyChar)

/-- A key of at most so many names with dots between them, blanks around each, and the rest. -/
def key? : (names : Nat) → List Char → Option (List String × List Char)
  | 0, _ => none
  | names + 1, s => do
    let (name, s) ← name? (s.dropWhile isBlank)
    match s.dropWhile isBlank with
    | '.' :: s =>
      let (path, s) ← key? names s
      return (name :: path, s)
    | s => return ([name], s)

/-! ## Values -/

mutual

def value? : (fuel depth : Nat) → List Char → Option (Toml × List Char)
  | 0, _, _ => none
  | fuel + 1, depth, s =>
    match s with
    | '[' :: s => if depth = 0 then none else (items? fuel (depth - 1) s).map fun (items, s) => (array items, s)
    | '{' :: s =>
      if depth = 0 then none
      else match s.dropWhile isBlank with
        | '}' :: s => some (inlineTable [], s)
        | s => do
          let (pairs, s) ← pairs? fuel (depth - 1) s
          return (← ofPairs? pairs, s)
    | '"' :: _ | '\'' :: _ => (string? s).map fun (text, s) => (string (String.ofList text), s)
    | s => token? s

/-- Reads the items of an array up to its closing bracket; a comma may follow the last one. -/
def items? : (fuel depth : Nat) → List Char → Option (List Toml × List Char)
  | 0, _, _ => none
  | fuel + 1, depth, s =>
    match dropLines false s with
    | ']' :: s => some ([], s)
    | s => do
      let (item, s) ← value? fuel depth s
      match dropLines false s with
      | ']' :: s => return ([item], s)
      | ',' :: s =>
        let (items, s) ← items? fuel depth s
        return (item :: items, s)
      | _ => none

/-- Reads the assignments between braces, all on one line. -/
def pairs? : (fuel depth : Nat) → List Char → Option (List (List String × Toml) × List Char)
  | 0, _, _ => none
  | fuel + 1, depth, s => do
    let (path, s) ← key? maxDepth s
    match s with
    | '=' :: s =>
      let (value, s) ← value? fuel depth (s.dropWhile isBlank)
      match s.dropWhile isBlank with
      | '}' :: s => return ([(path, value)], s)
      | ',' :: s =>
        let (pairs, s) ← pairs? fuel depth s
        return ((path, value) :: pairs, s)
      | _ => none
    | _ => none

end

/-! ## Statements -/

/-- Reads a header after its opening bracket up to the end of the line. -/
def header? (s : List Char) : Option (Statement × List Char) :=
  match s with
  | '[' :: s => do
    let (path, s) ← key? maxDepth s
    match s with
    | ']' :: ']' :: s => return (.arrayHeader path, ← lineEnd? s)
    | _ => none
  | s => do
    let (path, s) ← key? maxDepth s
    match s with
    | ']' :: s => return (.header path, ← lineEnd? s)
    | _ => none

def assignment? (s : List Char) : Option (Statement × List Char) := do
  let (path, s) ← key? maxDepth s
  match s with
  | '=' :: s =>
    let s := s.dropWhile isBlank
    let (value, s) ← value? (2 * s.length + 1) maxDepth s
    return (.assignment path value, ← lineEnd? s)
  | _ => none

def statements? : (fuel : Nat) → List Char → Option (List Statement)
  | 0, _ => none
  | fuel + 1, s =>
    match s.dropWhile isBlank with
    | [] => some []
    | '[' :: s => do
      let (statement, s) ← header? s
      return statement :: (← statements? fuel s)
    | c :: s =>
      if c = '#' ∨ c = '\n' ∨ c = '\r' then do statements? fuel (← lineEnd? (c :: s))
      else do
        let (statement, s) ← assignment? (c :: s)
        return statement :: (← statements? fuel s)

/-- Reads a document; a byte order mark may stand before it. -/
def read? (s : List Char) : Option Toml :=
  let s := (Text.after? ['\uFEFF'] s).getD s
  (statements? (s.length + 1) s).bind ofStatements?

end RemoteConsole.Toml
