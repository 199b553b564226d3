import Mathlib.Data.List.Basic
import Mathlib.Data.List.Chain
import RemoteConsole.Proofs.Text.Runs
import RemoteConsole.Text.CharSet
import RemoteConsole.Text.WordChar

/-!
# Sets of characters as spans

When the boundaries of a set increase, each pair of them bounds a span, and the set is made of the
spans. So one set is part of another when every span of it lies in a span of the other.
-/

namespace RemoteConsole.Text

def spans : List Nat → List (Nat × Nat)
  | low :: high :: rest => (low, high) :: spans rest
  | _ => []

theorem countP_of_lt {l : List Nat} {n : Nat} (h : ∀ b ∈ l, n < b) : l.countP (· ≤ n) = 0 := by
  rw [List.countP_eq_zero]
  intro b hb
  simpa using h b hb

theorem inside_of_le {l : List Nat} {c : Char} (h : ∀ b ∈ l, c.toNat < b) : inside l c = false := by
  rw [inside, countP_of_lt h]
  rfl

theorem inside_cons_cons {low high : Nat} {rest : List Nat} (h : (low :: high :: rest).Pairwise (· < ·)) (c : Char) :
    inside (low :: high :: rest) c = (decide (low ≤ c.toNat ∧ c.toNat < high) || inside rest c) := by
  obtain ⟨hlow, h⟩ := List.pairwise_cons.mp h
  obtain ⟨hhigh, -⟩ := List.pairwise_cons.mp h
  have hbounds : low < high := hlow high List.mem_cons_self
  have hcount : (low :: high :: rest).countP (· ≤ c.toNat) =
      rest.countP (· ≤ c.toNat) + (if high ≤ c.toNat then 1 else 0) + if low ≤ c.toNat then 1 else 0 := by
    simp [List.countP_cons]
  by_cases hc : c.toNat < high
  · have hrest : inside rest c = false := inside_of_le fun b hb => Nat.lt_trans hc (hhigh b hb)
    have hzero : rest.countP (· ≤ c.toNat) = 0 := countP_of_lt fun b hb => Nat.lt_trans hc (hhigh b hb)
    rw [inside, hcount, hzero, hrest, if_neg (by omega)]
    by_cases hl : low ≤ c.toNat
    · simp [hl, hc]
    · simp [hl]
  · have hspan : decide (low ≤ c.toNat ∧ c.toNat < high) = false := by simp [hc]
    have heven : (rest.countP (· ≤ c.toNat) + 1 + 1) % 2 = rest.countP (· ≤ c.toNat) % 2 := by omega
    rw [inside, hcount, if_pos (by omega), if_pos (by omega), heven, hspan]
    rfl

theorem inside_iff {l : List Nat} {c : Char} (h : l.Pairwise (· < ·)) (heven : l.length % 2 = 0) :
    inside l c = true ↔ ∃ span ∈ spans l, span.1 ≤ c.toNat ∧ c.toNat < span.2 := by
  induction l using spans.induct with
  | case1 low high rest ih =>
    have hrest : rest.Pairwise (· < ·) := (List.pairwise_cons.mp (List.pairwise_cons.mp h).2).2
    have hrestEven : rest.length % 2 = 0 := by
      rw [List.length_cons, List.length_cons] at heven
      omega
    rw [inside_cons_cons h, Bool.or_eq_true, decide_eq_true_eq, ih hrest hrestEven, spans]
    simp only [List.exists_mem_cons_iff]
  | case2 l hl =>
    cases l with
    | nil => simp [inside, spans]
    | cons a l =>
      cases l with
      | nil => simp at heven
      | cons b l => exact absurd rfl (hl a b l)

def lies (outer inner : Nat × Nat) : Bool := outer.1 ≤ inner.1 && inner.2 ≤ outer.2

/-- Spans in order are all covered when each of the others, in order, takes away those that lie in it
and none is left. -/
theorem covered {outer inner : List (Nat × Nat)}
    (h : outer.foldl (fun rest span => rest.dropWhile (lies span)) inner = []) :
    ∀ span ∈ inner, ∃ cover ∈ outer, lies cover span = true := by
  induction outer generalizing inner with
  | nil =>
    intro span hspan
    rw [List.foldl_nil] at h
    simp [h] at hspan
  | cons cover outer ih =>
    intro span hspan
    rw [← List.takeWhile_append_dropWhile (p := lies cover) (l := inner)] at hspan
    rcases List.mem_append.mp hspan with hspan | hspan
    · exact ⟨cover, List.mem_cons_self, List.mem_takeWhile_imp hspan⟩
    · obtain ⟨other, hother, hlies⟩ := ih h span hspan
      exact ⟨other, List.mem_cons_of_mem _ hother, hlies⟩

/-! ## The tables -/

theorem wordBoundaries_increase : wordBoundaries.Pairwise (· < ·) :=
  List.isChain_iff_pairwise.mp (by decide +kernel)

theorem digitBoundaries_increase : digitBoundaries.Pairwise (· < ·) :=
  List.isChain_iff_pairwise.mp (by decide +kernel)

theorem blankBoundaries_increase : blankBoundaries.Pairwise (· < ·) := by decide +kernel

theorem isWordChar_of_isDecimalDigit {c : Char} (h : isDecimalDigit c = true) : isWordChar c = true := by
  unfold isWordChar
  rcases Bool.or_eq_true_iff.mp h with hascii | hother
  · simp [Char.isAlphanum, hascii]
  · obtain ⟨span, hspan, hlow, hhigh⟩ := (inside_iff digitBoundaries_increase (by decide +kernel)).mp hother
    have hcovered : (spans wordBoundaries).foldl (fun rest span => rest.dropWhile (lies span)) (spans digitBoundaries) = [] := by
      decide +kernel
    obtain ⟨word, hword, hlies⟩ := covered hcovered span hspan
    obtain ⟨hbegin, hend⟩ := Bool.and_eq_true_iff.mp hlies
    have hinside : inside wordBoundaries c = true :=
      (inside_iff wordBoundaries_increase (by decide +kernel)).mpr
        ⟨word, hword, Nat.le_trans (of_decide_eq_true hbegin) hlow, Nat.lt_of_lt_of_le hhigh (of_decide_eq_true hend)⟩
    rw [hinside, Bool.or_true]

theorem isBlank_iff {c : Char} : isBlank c = true ↔ ∃ span ∈ spans blankBoundaries, span.1 ≤ c.toNat ∧ c.toNat < span.2 :=
  inside_iff blankBoundaries_increase (by decide)

end RemoteConsole.Text
