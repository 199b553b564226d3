import Mathlib.Tactic.Ring
import RemoteConsole.Double.Text
import RemoteConsole.Proofs.Text.Runs

/-!
# Decimal numerals

A `Numeral` is digits, then a fraction and an exponent that may be left out.
Integers and doubles are both written as numerals, and the reader of doubles
takes every numeral by its value.
-/

namespace RemoteConsole

namespace Text

def Digits (s : List Char) : Prop := ∀ c ∈ s, c.isDigit = true

theorem Digits.append {s t : List Char} (hs : Digits s) (ht : Digits t) : Digits (s ++ t) := by
  intro c hc
  rcases List.mem_append.mp hc with h | h
  · exact hs c h
  · exact ht c h

theorem Digits.take {s : List Char} (hs : Digits s) (n : Nat) : Digits (s.take n) :=
  fun c hc => hs c (List.mem_of_mem_take hc)

theorem Digits.drop {s : List Char} (hs : Digits s) (n : Nat) : Digits (s.drop n) :=
  fun c hc => hs c (List.mem_of_mem_drop hc)

theorem digits_replicate_zero (n : Nat) : Digits (List.replicate n '0') := by
  intro c hc
  rw [List.eq_of_mem_replicate hc]; rfl

theorem digits_natText (n : Nat) : Digits (natText n) :=
  fun _ hc => Nat.isDigit_of_mem_toDigits (by omega) (by omega) hc

theorem natText_ne_nil (n : Nat) : natText n ≠ [] := Nat.toDigits_ne_nil

theorem digitsValue_eq (s : List Char) : digitsValue s = Nat.ofDigitChars 10 s 0 := by
  simp only [digitsValue, Nat.ofDigitChars, Nat.mul_comm 10]

theorem digitsValue_append (s t : List Char) :
    digitsValue (s ++ t) = digitsValue s * 10 ^ t.length + digitsValue t := by
  simp only [digitsValue_eq]
  rw [Nat.ofDigitChars_append, Nat.ofDigitChars_eq_ofDigitChars_zero, Nat.mul_comm]

theorem digitsValue_replicate_zero (n : Nat) : digitsValue (List.replicate n '0') = 0 := by
  rw [digitsValue_eq, Nat.ofDigitChars_replicate_zero, Nat.mul_zero]

theorem digitsValue_natText (n : Nat) : digitsValue (natText n) = n := by
  rw [digitsValue_eq]; exact Nat.ofDigitChars_ten_toDigits

theorem mem_intText {i : Int} {c : Char} (h : c ∈ intText i) : c = '-' ∨ c.isDigit = true := by
  unfold intText at h
  split at h
  · rcases List.mem_cons.mp h with h | h
    · exact .inl h
    · exact .inr (digits_natText _ c h)
  · exact .inr (digits_natText _ c h)

theorem natText_inj {m n : Nat} (h : natText m = natText n) : m = n := by
  rw [← digitsValue_natText m, h, digitsValue_natText]

theorem intText_inj {i j : Int} (h : intText i = intText j) : i = j := by
  have hdash (n : Nat) : '-' ∉ natText n := fun hm => absurd (digits_natText n _ hm) (by decide)
  by_cases hi : i < 0
  · by_cases hj : j < 0
    · simp only [intText, hi, hj, if_true, List.cons.injEq, true_and] at h
      have := natText_inj h
      omega
    · simp only [intText, hi, hj, if_true, if_false] at h
      exact absurd (h ▸ List.mem_cons_self) (hdash j.natAbs)
  · by_cases hj : j < 0
    · simp only [intText, hi, hj, if_true, if_false] at h
      exact absurd (h ▸ List.mem_cons_self) (hdash i.natAbs)
    · simp only [intText, hi, hj, if_false] at h
      have := natText_inj h
      omega

/-! ## Runs of digits -/

def NoDigit (s : List Char) : Prop := ∀ c ∈ s.head?, c.isDigit = false

theorem takeWhile_digits {s t : List Char} (hs : Digits s) (ht : NoDigit t) : (s ++ t).takeWhile Char.isDigit = s :=
  takeWhile_of_stops hs ht

theorem dropWhile_digits {s t : List Char} (hs : Digits s) (ht : NoDigit t) : (s ++ t).dropWhile Char.isDigit = t :=
  dropWhile_of_stops hs ht

theorem all_isDigit {s : List Char} (hs : Digits s) : s.all Char.isDigit = true := List.all_eq_true.mpr hs

theorem readInt64?_digits (negative : Bool) {s : List Char} (hn : s ≠ []) (hs : Digits s) :
    readInt64? (if negative then '-' :: s else s) =
      let i : Int := if negative then -(digitsValue s : Int) else digitsValue s
      if -2 ^ 63 ≤ i ∧ i < 2 ^ 63 then some (Int64.ofInt i) else none := by
  have hempty : s.isEmpty = false := List.isEmpty_eq_false_iff.mpr hn
  have hall := all_isDigit hs
  cases negative with
  | true => simp [readInt64?, hempty, hall]
  | false =>
    simp only [Bool.false_eq_true, if_false]
    unfold readInt64?
    split
    rename_i negative digits heq
    split at heq
    · exact absurd (hs '-' List.mem_cons_self) (by decide)
    · exact absurd (hs '+' List.mem_cons_self) (by decide)
    · cases heq
      simp [hempty, hall]

theorem readInt64?_intText (i : Int64) : readInt64? (intText i.toInt) = some i := by
  have hlo := i.le_toInt
  have hhi := i.toInt_lt
  have htext : intText i.toInt =
      if decide (i.toInt < 0) then '-' :: natText i.toInt.natAbs else natText i.toInt.natAbs := by
    simp only [intText, decide_eq_true_eq]
  have hvalue : (if decide (i.toInt < 0) then -(i.toInt.natAbs : Int) else i.toInt.natAbs) = i.toInt := by
    simp only [decide_eq_true_eq]
    omega
  rw [htext, readInt64?_digits _ (natText_ne_nil _) (digits_natText _), digitsValue_natText]
  simp only [hvalue]
  rw [if_pos ⟨hlo, hhi⟩, Int64.ofInt_toInt]

end Text

end RemoteConsole
