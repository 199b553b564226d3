/-!
# Searching text

Cutting a text at the first or last place where another one occurs.
-/

namespace RemoteConsole.Text

/-- What follows `start` in a text that begins with it. -/
def after? : (start : List Char) → List Char → Option (List Char)
  | [], s => some s
  | _ :: _, [] => none
  | p :: ps, c :: cs => if p = c then after? ps cs else none

def cutFirst? (needle : List Char) : List Char → Option (List Char × List Char)
  | [] => if needle.isEmpty then some ([], []) else none
  | c :: cs =>
    match after? needle (c :: cs) with
    | some rest => some ([], rest)
    | none => (cutFirst? needle cs).map fun (before, rest) => (c :: before, rest)

def contains (needle s : List Char) : Bool := (cutFirst? needle s).isSome

/-- The pieces between the places where `sep` holds; there is always one more than such places. -/
def splitAt (sep : Char → Bool) : List Char → List (List Char)
  | [] => [[]]
  | c :: cs =>
    if sep c then [] :: splitAt sep cs
    else match splitAt sep cs with
      | [] => [[c]]
      | piece :: pieces => (c :: piece) :: pieces

def before? (tail s : List Char) : Option (List Char) :=
  (after? tail.reverse s.reverse).map List.reverse

/-- The lines of a text without their ends, a line feed with or without a carriage return before
it; after the last end there is a line only if there is text. -/
def lines (s : List Char) : List (List Char) :=
  let pieces := splitAt (· == '\n') s
  let ended := pieces.dropLast.map fun line => (before? ['\r'] line).getD line
  match pieces.getLast? with
  | some (c :: cs) => ended ++ [c :: cs]
  | _ => ended

theorem after?_append (p s : List Char) : after? p (p ++ s) = some s := by
  induction p with
  | nil => rfl
  | cons c p ih => simp [after?, ih]

theorem eq_append_of_after? {p s rest : List Char} (h : after? p s = some rest) : s = p ++ rest := by
  induction p generalizing s with
  | nil => simp_all [after?]
  | cons c p ih =>
    cases s with
    | nil => simp [after?] at h
    | cons d s =>
      by_cases hc : c = d
      · simp only [after?, hc, if_true] at h
        simp [hc, ih h]
      · simp [after?, hc] at h

theorem splitAt_ne_nil (sep : Char → Bool) (s : List Char) : splitAt sep s ≠ [] := by
  cases s with
  | nil => simp [splitAt]
  | cons c s =>
    simp only [splitAt]
    split
    · simp
    · split <;> simp

end RemoteConsole.Text
