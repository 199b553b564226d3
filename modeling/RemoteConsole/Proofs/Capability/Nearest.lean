import Mathlib.Data.List.Induction
import RemoteConsole.Capability.Nearest

/-!
# Nearest names are nearest

The edit distance is computed from row to row, along the beginnings of the two
texts, while its recursion takes the texts apart from the front. Both count the
fewest edits, which are the same from either end (`levenshtein_reverse`), so
every cell of a row is a distance between beginnings. Among the candidates that
are close enough the search keeps the first of the closest.
-/

namespace RemoteConsole

/-! ## Edits -/

section
variable {α : Type}

/-- That many edits make the second text out of the first. -/
inductive Edits : List α → List α → Nat → Prop
  | nil : Edits [] [] 0
  | delete (x : α) {xs ys : List α} {n : Nat} : Edits xs ys n → Edits (x :: xs) ys (n + 1)
  | insert (y : α) {xs ys : List α} {n : Nat} : Edits xs ys n → Edits xs (y :: ys) (n + 1)
  | keep (x : α) {xs ys : List α} {n : Nat} : Edits xs ys n → Edits (x :: xs) (x :: ys) n
  | replace (x y : α) {xs ys : List α} {n : Nat} : Edits xs ys n → Edits (x :: xs) (y :: ys) (n + 1)

namespace Edits

theorem nil_left : ∀ ys : List α, Edits [] ys ys.length
  | [] => .nil
  | y :: ys => .insert y (nil_left ys)

theorem nil_right : ∀ xs : List α, Edits xs [] xs.length
  | [] => .nil
  | x :: xs => .delete x (nil_right xs)

variable {xs ys us vs : List α} {n m : Nat}

protected theorem min (h : Edits xs ys n) (h' : Edits xs ys m) : Edits xs ys (min n m) := by
  rcases Nat.le_total n m with hle | hle
  · rw [Nat.min_eq_left hle]; exact h
  · rw [Nat.min_eq_right hle]; exact h'

theorem append (h : Edits xs ys n) (h' : Edits us vs m) : Edits (xs ++ us) (ys ++ vs) (n + m) := by
  induction h with
  | nil => rw [Nat.zero_add]; exact h'
  | delete x _ ih => rw [Nat.add_right_comm]; exact .delete x ih
  | insert y _ ih => rw [Nat.add_right_comm]; exact .insert y ih
  | keep x _ ih => exact .keep x ih
  | replace x y _ ih => rw [Nat.add_right_comm]; exact .replace x y ih

theorem reverse (h : Edits xs ys n) : Edits xs.reverse ys.reverse n := by
  induction h with
  | nil => exact .nil
  | delete x _ ih => simpa using ih.append (.delete x .nil)
  | insert y _ ih => simpa using ih.append (.insert y .nil)
  | keep x _ ih => simpa using ih.append (.keep x .nil)
  | replace x y _ ih => simpa using ih.append (.replace x y .nil)

end Edits

/-! ## The distance -/

variable [DecidableEq α]

/-- The distance by its recursion: the first character is deleted, another one is
put before it, or it is replaced, which is free where it stays the same. -/
def levenshtein : List α → List α → Nat
  | [], ys => ys.length
  | xs, [] => xs.length
  | x :: xs, y :: ys =>
    min (min (levenshtein xs (y :: ys) + 1) (levenshtein (x :: xs) ys + 1))
      (levenshtein xs ys + if x = y then 0 else 1)
termination_by xs ys => xs.length + ys.length

@[simp] theorem levenshtein_nil_left (ys : List α) : levenshtein [] ys = ys.length := by
  rw [levenshtein]

@[simp] theorem levenshtein_nil_right (xs : List α) : levenshtein xs [] = xs.length := by
  cases xs with
  | nil => rw [levenshtein]
  | cons x xs => rw [levenshtein]; exact nofun

theorem levenshtein_cons_cons (x y : α) (xs ys : List α) : levenshtein (x :: xs) (y :: ys) =
    min (min (levenshtein xs (y :: ys) + 1) (levenshtein (x :: xs) ys + 1))
      (levenshtein xs ys + if x = y then 0 else 1) := by
  rw [levenshtein]

theorem levenshtein_le_delete (x : α) (xs ys : List α) : levenshtein (x :: xs) ys ≤ levenshtein xs ys + 1 := by
  cases ys with
  | nil => simp
  | cons y ys => rw [levenshtein_cons_cons]; omega

theorem levenshtein_le_insert (xs : List α) (y : α) (ys : List α) : levenshtein xs (y :: ys) ≤ levenshtein xs ys + 1 := by
  cases xs with
  | nil => simp
  | cons x xs => rw [levenshtein_cons_cons]; omega

theorem edits_levenshtein (xs ys : List α) : Edits xs ys (levenshtein xs ys) := by
  induction xs, ys using levenshtein.induct with
  | case1 ys => rw [levenshtein_nil_left]; exact .nil_left ys
  | case2 xs => rw [levenshtein_nil_right]; exact .nil_right xs
  | case3 x xs y ys hdelete hinsert hreplace =>
    have hlast : Edits (x :: xs) (y :: ys) (levenshtein xs ys + if x = y then 0 else 1) := by
      split
      next h => subst h; exact .keep x hreplace
      next => exact .replace x y hreplace
    rw [levenshtein_cons_cons]
    exact ((Edits.delete x hdelete).min (.insert y hinsert)).min hlast

theorem Edits.levenshtein_le {xs ys : List α} {n : Nat} (h : Edits xs ys n) : levenshtein xs ys ≤ n := by
  induction h with
  | nil => simp
  | @delete x xs ys n _ ih => have := levenshtein_le_delete x xs ys; omega
  | @insert y xs ys n _ ih => have := levenshtein_le_insert xs y ys; omega
  | @keep x xs ys n _ ih => rw [levenshtein_cons_cons, if_pos rfl]; omega
  | @replace x y xs ys n _ ih => rw [levenshtein_cons_cons]; split <;> omega

/-! ## From the other end -/

theorem levenshtein_reverse (xs ys : List α) : levenshtein xs.reverse ys.reverse = levenshtein xs ys := by
  apply Nat.le_antisymm
  · exact (edits_levenshtein xs ys).reverse.levenshtein_le
  · simpa using (edits_levenshtein xs.reverse ys.reverse).reverse.levenshtein_le

theorem levenshtein_snoc_snoc (xs ys : List α) (x y : α) : levenshtein (xs ++ [x]) (ys ++ [y]) =
    min (min (levenshtein xs (ys ++ [y]) + 1) (levenshtein (xs ++ [x]) ys + 1))
      (levenshtein xs ys + if x = y then 0 else 1) := by
  have hsnoc (zs : List α) (z : α) : (zs ++ [z]).reverse = z :: zs.reverse := List.reverse_concat
  rw [← levenshtein_reverse (xs ++ [x]), ← levenshtein_reverse xs, ← levenshtein_reverse (xs ++ [x]) ys,
    ← levenshtein_reverse xs ys, hsnoc, hsnoc, levenshtein_cons_cons]

/-! ## Equal characters -/

theorem le_delete_levenshtein (x : α) (xs : List α) : ∀ ys, levenshtein xs ys ≤ levenshtein (x :: xs) ys + 1
  | [] => by simp; omega
  | y :: ys => by
    have ih := le_delete_levenshtein x xs ys
    have hinsert := levenshtein_le_insert xs y ys
    rw [levenshtein_cons_cons]
    omega

theorem le_insert_levenshtein (y : α) (ys : List α) : ∀ xs, levenshtein xs ys ≤ levenshtein xs (y :: ys) + 1
  | [] => by simp; omega
  | x :: xs => by
    have ih := le_insert_levenshtein y ys xs
    have hdelete := levenshtein_le_delete x xs ys
    rw [levenshtein_cons_cons]
    omega

theorem levenshtein_cons_self (x : α) (xs ys : List α) : levenshtein (x :: xs) (x :: ys) = levenshtein xs ys := by
  have hdelete := le_insert_levenshtein x ys xs
  have hinsert := le_delete_levenshtein x xs ys
  rw [levenshtein_cons_cons, if_pos rfl]
  omega

theorem levenshtein_snoc_self (xs ys : List α) (x : α) :
    levenshtein (xs ++ [x]) (ys ++ [x]) = levenshtein xs ys := by
  rw [← levenshtein_reverse, ← levenshtein_reverse xs ys]
  simpa using levenshtein_cons_self x xs.reverse ys.reverse

end

/-! ## Rows -/

/-- The distances from a text to the one that is done and to its continuations. -/
def distances (source done : List Char) : List Char → List Nat
  | [] => []
  | d :: ds => levenshtein source (done ++ [d]) :: distances source (done ++ [d]) ds

theorem nextCells_distances (c : Char) (source : List Char) : ∀ done ds : List Char,
    nextCells c (levenshtein source done) (levenshtein (source ++ [c]) done) ds (distances source done ds) =
      distances (source ++ [c]) done ds
  | _, [] => rfl
  | done, d :: ds => by
    have hcell : (if c = d then levenshtein source done else
        1 + min (min (levenshtein source done) (levenshtein source (done ++ [d]))) (levenshtein (source ++ [c]) done)) =
        levenshtein (source ++ [c]) (done ++ [d]) := by
      split
      next h => subst h; exact (levenshtein_snoc_self source done c).symm
      next h => rw [levenshtein_snoc_snoc, if_neg h]; omega
    simp only [distances, nextCells]
    rw [hcell, nextCells_distances c source (done ++ [d]) ds]

def distanceRow (source target : List Char) : List Nat := levenshtein source [] :: distances source [] target

theorem nextRow_distanceRow (c : Char) (source target : List Char) :
    nextRow c target (distanceRow source target) = distanceRow (source ++ [c]) target := by
  have hfirst : levenshtein source [] + 1 = levenshtein (source ++ [c]) [] := by simp
  simp only [distanceRow, nextRow]
  rw [hfirst, nextCells_distances]

theorem distances_nil : ∀ done ds : List Char, distances [] done ds = List.range' (done.length + 1) ds.length
  | _, [] => rfl
  | done, d :: ds => by
    rw [distances, distances_nil, List.length_cons, List.range'_succ]
    simp

theorem distanceRow_nil (target : List Char) : distanceRow [] target = List.range (target.length + 1) := by
  rw [distanceRow, distances_nil, List.range_eq_range', List.range'_succ]
  simp

theorem foldl_nextRow (target : List Char) : ∀ rest source : List Char,
    rest.foldl (fun row c => nextRow c target row) (distanceRow source target) = distanceRow (source ++ rest) target
  | [], source => by simp
  | c :: rest, source => by
    rw [List.foldl_cons, nextRow_distanceRow, foldl_nextRow target rest]
    simp

theorem getLast?_distances (source : List Char) : ∀ done ds : List Char,
    (levenshtein source done :: distances source done ds).getLast? = some (levenshtein source (done ++ ds))
  | done, [] => by simp [distances]
  | done, d :: ds => by
    rw [distances, List.getLast?_cons_cons, getLast?_distances source (done ++ [d]) ds]
    simp

theorem editDistance_eq (source target : List Char) : editDistance source target = levenshtein source target := by
  have hrows := foldl_nextRow target source []
  rw [distanceRow_nil] at hrows
  unfold editDistance
  rw [hrows, List.nil_append, distanceRow, getLast?_distances]
  rfl

/-! ## The first of the closest -/

section
variable {α : Type} {f : α → Nat}

/-- No element is less far, and none before it is as near. -/
def FirstLeast (f : α → Nat) (l : List α) (best : α) : Prop :=
  ∃ before after, l = before ++ best :: after ∧ (∀ a ∈ before, f best < f a) ∧ ∀ a ∈ after, f best ≤ f a

theorem FirstLeast.unique {l : List α} {best other : α} (h : FirstLeast f l best) (h' : FirstLeast f l other) :
    best = other := by
  obtain ⟨before, after, rfl, hbefore, hafter⟩ := h
  obtain ⟨before', after', heq, hbefore', hafter'⟩ := h'
  rcases List.append_eq_append_iff.mp heq with ⟨between, rfl, hrest⟩ | ⟨between, rfl, hrest⟩
  · cases between with
    | nil => simp at hrest; exact hrest.1
    | cons a between =>
      -- each would be nearer than the other
      obtain ⟨rfl, rfl⟩ := List.cons.inj hrest
      have h₁ := hbefore' best (by simp)
      have h₂ := hafter other (by simp)
      omega
  · cases between with
    | nil => simp at hrest; exact hrest.1.symm
    | cons a between =>
      obtain ⟨rfl, rfl⟩ := List.cons.inj hrest
      have h₁ := hbefore other (by simp)
      have h₂ := hafter' best (by simp)
      omega

theorem FirstLeast.snoc {l : List α} {best : α} (h : FirstLeast f l best) (a : α) :
    FirstLeast f (l ++ [a]) (if f a < f best then a else best) := by
  obtain ⟨before, after, rfl, hbefore, hafter⟩ := h
  split
  next hless =>
    refine ⟨before ++ best :: after, [], rfl, fun b hb => ?_, by simp⟩
    rcases List.mem_append.mp hb with hb | hb
    · exact Nat.lt_trans hless (hbefore b hb)
    rcases List.mem_cons.mp hb with rfl | hb
    · exact hless
    · exact Nat.lt_of_lt_of_le hless (hafter b hb)
  next hless =>
    refine ⟨before, after ++ [a], by simp, hbefore, fun b hb => ?_⟩
    rcases List.mem_append.mp hb with hb | hb
    · exact hafter b hb
    · rw [List.mem_singleton.mp hb]
      exact Nat.le_of_not_lt hless

def keepLess (f : α → Nat) (best : Option α) (a : α) : Option α :=
  match best with
  | some b => if f a < f b then some a else some b
  | none => some a

theorem foldl_keepLess (l : List α) :
    match l.foldl (keepLess f) none with
    | some best => FirstLeast f l best
    | none => l = [] := by
  induction l using List.reverseRecOn with
  | nil => rfl
  | append_singleton l a ih =>
    rw [List.foldl_append]
    cases hbest : l.foldl (keepLess f) none with
    | none =>
      rw [hbest] at ih
      subst ih
      exact ⟨[], [], rfl, by simp, by simp⟩
    | some best =>
      rw [hbest] at ih
      have hstep : [a].foldl (keepLess f) (some best) = some (if f a < f best then a else best) := by
        simp only [List.foldl_cons, List.foldl_nil, keepLess]
        split <;> rfl
      rw [hstep]
      exact FirstLeast.snoc ih a

theorem foldl_keepLess_eq_none {l : List α} : l.foldl (keepLess f) none = none ↔ l = [] := by
  have h := foldl_keepLess (f := f) l
  constructor
  · intro hnone
    rwa [hnone] at h
  · rintro rfl
    rfl

theorem foldl_keepLess_eq_some {l : List α} {best : α} : l.foldl (keepLess f) none = some best ↔ FirstLeast f l best := by
  have h := foldl_keepLess (f := f) l
  cases hfound : l.foldl (keepLess f) none with
  | none =>
    rw [hfound] at h
    subst h
    refine ⟨nofun, ?_⟩
    rintro ⟨before, after, hnil, -⟩
    simp at hnil
  | some found =>
    rw [hfound] at h
    constructor
    · intro hsome
      cases hsome
      exact h
    · exact fun hbest => congrArg some (FirstLeast.unique h hbest)

theorem firstLeast_filter {p : α → Bool} {l : List α} {best : α} : FirstLeast f (l.filter p) best ↔
    ∃ before after, l = before ++ best :: after ∧ p best = true ∧
      (∀ a ∈ before, p a = true → f best < f a) ∧ ∀ a ∈ after, p a = true → f best ≤ f a := by
  constructor
  · rintro ⟨near, far, hsplit, hbefore, hafter⟩
    obtain ⟨before, rest, rfl, rfl, hrest⟩ := List.filter_eq_append_iff.mp hsplit
    obtain ⟨skipped, after, rfl, hskipped, hbest, rfl⟩ := List.filter_eq_cons_iff.mp hrest
    refine ⟨before ++ skipped, after, by simp, hbest, fun a ha hp => ?_, fun a ha hp => ?_⟩
    · rcases List.mem_append.mp ha with ha | ha
      · exact hbefore a (List.mem_filter.mpr ⟨ha, hp⟩)
      · exact absurd hp (hskipped a ha)
    · exact hafter a (List.mem_filter.mpr ⟨ha, hp⟩)
  · rintro ⟨before, after, rfl, hbest, hbefore, hafter⟩
    refine ⟨before.filter p, after.filter p, ?_, fun a ha => ?_, fun a ha => ?_⟩
    · rw [List.filter_append, List.filter_cons_of_pos hbest]
    · exact hbefore a (List.mem_filter.mp ha).1 (List.mem_filter.mp ha).2
    · exact hafter a (List.mem_filter.mp ha).1 (List.mem_filter.mp ha).2

end

/-- It takes few edits, for its length in bytes, to make the candidate out of the input. -/
def CloseTo (input candidate : String) : Prop :=
  levenshtein input.toList candidate.toList ≤ max (candidate.utf8ByteSize / 3) 2

theorem nearest?_eq (input : String) (candidates : List String) : nearest? input candidates =
    (candidates.filter fun c => decide (editDistance input.toList c.toList ≤ tolerance c)).foldl
      (keepLess fun c => editDistance input.toList c.toList) none := by
  unfold nearest?
  dsimp only
  congr 1
  funext best c
  cases best with
  | none => rfl
  | some b => rfl

theorem decide_close (input candidate : String) :
    decide (editDistance input.toList candidate.toList ≤ tolerance candidate) = true ↔ CloseTo input candidate := by
  rw [decide_eq_true_iff, editDistance_eq]
  rfl

/-- **The nearest name.** The edit distance is the Levenshtein distance. The search finds nothing if and only if no
candidate is close to the input, and otherwise the first of the close candidates that are nearest. -/
theorem nearest?_exact (input : String) (candidates : List String) :
    (∀ source target : List Char, editDistance source target = levenshtein source target) ∧
    (nearest? input candidates = none ↔ ∀ c ∈ candidates, ¬ CloseTo input c) ∧
    ∀ best, nearest? input candidates = some best ↔
      ∃ before after, candidates = before ++ best :: after ∧ CloseTo input best ∧
        (∀ c ∈ before, CloseTo input c →
          levenshtein input.toList best.toList < levenshtein input.toList c.toList) ∧
        ∀ c ∈ after, CloseTo input c →
          levenshtein input.toList best.toList ≤ levenshtein input.toList c.toList := by
  refine ⟨editDistance_eq, ?_, fun best => ?_⟩
  · rw [nearest?_eq, foldl_keepLess_eq_none, List.filter_eq_nil_iff]
    simp only [decide_close]
  · rw [nearest?_eq, foldl_keepLess_eq_some, firstLeast_filter]
    simp only [decide_close]
    simp only [editDistance_eq]

example : nearest? "nroth" ["south", "worth", "north"] = some "north" := by decide +kernel

end RemoteConsole
