/-!
# Association lists in insertion order

A key keeps the place where it first appeared; writing it again changes its value only. Where the
order of the names counts and not the order of writing, entries are put at their place.
-/

namespace RemoteConsole.Assoc

variable {α β : Type} [DecidableEq α]

def put (key : α) (value : β) : List (α × β) → List (α × β)
  | [] => [(key, value)]
  | (k, v) :: rest => if k = key then (key, value) :: rest else (k, v) :: put key value rest

def putAll (pairs : List (α × β)) (into : List (α × β)) : List (α × β) :=
  pairs.foldl (fun acc (k, v) => put k v acc) into

def ofList (pairs : List (α × β)) : List (α × β) := putAll pairs []

def get? (key : α) : List (α × β) → Option β
  | [] => none
  | (k, v) :: rest => if k = key then some v else get? key rest

def erase (key : α) : List (α × β) → List (α × β)
  | [] => []
  | (k, v) :: rest => if k = key then rest else (k, v) :: erase key rest

def keys (entries : List (α × β)) : List α := entries.map Prod.fst

section

variable {γ : Type}

/-- Puts an entry at its place among entries in the order of their names. -/
def putOrdered (name : String) (value : γ) : List (String × γ) → List (String × γ)
  | [] => [(name, value)]
  | (n, v) :: rest =>
    if name = n then (name, value) :: rest
    else if name < n then (name, value) :: (n, v) :: rest
    else (n, v) :: putOrdered name value rest

def ordered (entries : List (String × γ)) : List (String × γ) :=
  entries.foldl (fun acc (n, v) => putOrdered n v acc) []

end

theorem get?_put_self (k : α) (v : β) (l : List (α × β)) : get? k (put k v l) = some v := by
  induction l with
  | nil => simp [put, get?]
  | cons e l ih =>
    obtain ⟨k', v'⟩ := e
    by_cases h : k' = k <;> simp [put, get?, h, ih]

theorem get?_put_ne {k k' : α} (h : k ≠ k') (v : β) (l : List (α × β)) :
    get? k (put k' v l) = get? k l := by
  induction l with
  | nil => simp [put, get?, Ne.symm h]
  | cons e l ih =>
    obtain ⟨j, u⟩ := e
    by_cases hj : j = k'
    · subst hj; simp [put, get?, Ne.symm h]
    · simp [put, get?, hj, ih]

theorem keys_put (k : α) (v : β) (l : List (α × β)) :
    keys (put k v l) = if k ∈ keys l then keys l else keys l ++ [k] := by
  induction l with
  | nil => simp [put, keys]
  | cons e l ih =>
    obtain ⟨j, u⟩ := e
    by_cases hj : j = k
    · subst hj; simp [put, keys]
    · simp only [keys] at ih
      by_cases hm : k ∈ l.map Prod.fst <;> simp [put, keys, hj, Ne.symm hj, hm, ih]

end RemoteConsole.Assoc
