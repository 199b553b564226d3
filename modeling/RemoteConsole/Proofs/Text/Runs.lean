import Mathlib.Data.List.TakeWhile

/-!
# Runs of characters

The longest run of a class of characters at the front of a text, and what stops it.
-/

namespace RemoteConsole.Text

variable {p : Char → Bool} {run rest : List Char}

def Stops (p : Char → Bool) (rest : List Char) : Prop := ∀ c ∈ rest.head?, p c = false

theorem stops_dropWhile (p : Char → Bool) (s : List Char) : Stops p (s.dropWhile p) := by
  intro c hc
  have hnot := List.head?_dropWhile_not p s
  rw [Option.mem_def.mp hc] at hnot
  exact hnot

theorem takeWhile_of_stops (hb : ∀ c ∈ run, p c = true) (hr : Stops p rest) :
    (run ++ rest).takeWhile p = run := by
  rw [List.takeWhile_append_of_pos hb]
  cases rest with
  | nil => simp
  | cons c rest => simp [hr c rfl]

theorem dropWhile_of_stops (hb : ∀ c ∈ run, p c = true) (hr : Stops p rest) :
    (run ++ rest).dropWhile p = rest := by
  rw [List.dropWhile_append_of_pos hb]
  cases rest with
  | nil => simp
  | cons c rest => simp [hr c rfl]

theorem dropWhile_stops (h : Stops p rest) : rest.dropWhile p = rest :=
  dropWhile_of_stops (List.forall_mem_nil _) h

theorem stops_cons {c : Char} (s : List Char) (h : p c = false) : Stops p (c :: s) := by
  intro d hd
  cases hd
  exact h

theorem stops_append {s : List Char} (hs : Stops p s) (hrest : Stops p rest) : Stops p (s ++ rest) := by
  cases s with
  | nil => exact hrest
  | cons c s => exact fun d hd => hs d hd

/-! ## Digits -/

theorem isDigit_ne {c d : Char} (hc : c.isDigit = true) (hd : d.isDigit = false) : c ≠ d := by
  intro h; rw [h, hd] at hc; cases hc

theorem isAlpha_of_isDigit {c : Char} (h : c.isDigit = true) : c.isAlpha = false := by
  have hle : c.val ≤ '9'.val := of_decide_eq_true (Bool.and_eq_true_iff.mp h).2
  rw [Bool.eq_false_iff]
  intro halpha
  rcases Bool.or_eq_true_iff.mp halpha with hupper | hlower
  · have hge : 'A'.val ≤ c.val := (of_decide_eq_true hupper).1
    exact absurd (UInt32.le_trans hge hle) (by decide)
  · have hge : 'a'.val ≤ c.val := of_decide_eq_true (Bool.and_eq_true_iff.mp hlower).1
    exact absurd (UInt32.le_trans hge hle) (by decide)

end RemoteConsole.Text
