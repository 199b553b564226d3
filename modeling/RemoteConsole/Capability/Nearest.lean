/-!
# Nearest names

The edit distance of two texts is the least number of characters to insert, delete or replace
that makes one the other. It is computed row by row: a row holds the distances from a beginning
of the one text to every beginning of the other.
-/

namespace RemoteConsole

/-- The rest of the row for a further character `c`: `diagonal` and `left` are the distances above
left and to the left of the first place, and `above` are those above. -/
def nextCells (c : Char) : (diagonal left : Nat) → List Char → (above : List Nat) → List Nat
  | diagonal, left, d :: ds, up :: above =>
    let cell := if c = d then diagonal else 1 + min (min diagonal up) left
    cell :: nextCells c up cell ds above
  | _, _, _, _ => []

def nextRow (c : Char) (target : List Char) : List Nat → List Nat
  | [] => []
  | first :: above => (first + 1) :: nextCells c first (first + 1) target above

def editDistance (source target : List Char) : Nat :=
  ((source.foldl (fun row c => nextRow c target row) (List.range (target.length + 1))).getLast?).getD 0

def tolerance (candidate : String) : Nat := max (candidate.utf8ByteSize / 3) 2

/-- The first of the closest candidates, among those that are close enough. -/
def nearest? (input : String) (candidates : List String) : Option String :=
  let distance (c : String) : Nat := editDistance input.toList c.toList
  let close := candidates.filter fun c => distance c ≤ tolerance c
  close.foldl (fun best c => match best with
    | some b => if distance c < distance b then some c else some b
    | none => some c) none

end RemoteConsole
