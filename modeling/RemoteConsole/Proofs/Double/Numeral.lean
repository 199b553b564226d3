import RemoteConsole.Proofs.Double.Nearest
import RemoteConsole.Proofs.Text.Numeral

/-!
# Doubles read back

A numeral is digits, then a fraction and an exponent that may be left out. The
literal of a finite double is the text of such a numeral, with a sign before it
or not, and reading it gives the double again (`ofText?_render`).
-/

namespace RemoteConsole

open Text

structure Numeral where
  whole : List Char
  fraction : List Char
  /-- Whether it is negative, and its digits. -/
  exponent : Option (Bool × List Char)
  whole_ne_nil : whole ≠ []
  whole_digits : Digits whole
  fraction_digits : Digits fraction
  exponent_digits : ∀ p ∈ exponent, p.2 ≠ [] ∧ Digits p.2

namespace Numeral

def exponentText : Option (Bool × List Char) → List Char
  | none => []
  | some (negative, digits) => 'e' :: (if negative then '-' :: digits else digits)

def fractionText : List Char → List Char
  | [] => []
  | c :: s => '.' :: c :: s

def text (n : Numeral) : List Char := n.whole ++ (fractionText n.fraction ++ exponentText n.exponent)

def digits (n : Numeral) : Nat := digitsValue (n.whole ++ n.fraction)

def scale (n : Numeral) : Int :=
  (match n.exponent with
    | none => 0
    | some (negative, digits) => if negative then -(digitsValue digits : Int) else digitsValue digits)
    - n.fraction.length

def ofDigits (s : List Char) (hn : s ≠ []) (hs : Digits s) : Numeral :=
  ⟨s, [], none, hn, hs, by simp [Digits], by simp⟩

theorem text_ofDigits {s : List Char} (hn : s ≠ []) (hs : Digits s) : (ofDigits s hn hs).text = s := by
  simp [text, ofDigits, fractionText, exponentText]

theorem text_head (n : Numeral) : ∃ c s, n.text = c :: s ∧ c.isDigit = true := by
  obtain ⟨c, s, hs⟩ := List.exists_cons_of_ne_nil n.whole_ne_nil
  refine ⟨c, s ++ (fractionText n.fraction ++ exponentText n.exponent), by rw [text, hs]; rfl, ?_⟩
  exact n.whole_digits c (by rw [hs]; simp)

theorem noDigit_exponentText (e : Option (Bool × List Char)) {s : List Char} (hs : NoDigit s) :
    NoDigit (exponentText e ++ s) := by
  cases e with
  | none => exact hs
  | some p => intro c hc; simp [exponentText] at hc; subst hc; rfl

theorem noDigit_fractionText (f : List Char) {s : List Char} (hs : NoDigit s) : NoDigit (fractionText f ++ s) := by
  cases f with
  | nil => exact hs
  | cons d f => intro c hc; simp [fractionText] at hc; subst hc; rfl

end Numeral

namespace Double

theorem exponentOf?_exponentText (n : Numeral) :
    exponentOf? (Numeral.exponentText n.exponent) = some (n.scale + n.fraction.length) := by
  have hd := n.exponent_digits
  unfold Numeral.scale
  cases he : n.exponent with
  | none => simp [Numeral.exponentText, exponentOf?]
  | some p =>
    obtain ⟨negative, ds⟩ := p
    obtain ⟨hne, hds⟩ := hd _ he
    simp only at hne hds
    have hempty : ds.isEmpty = false := List.isEmpty_eq_false_iff.mpr hne
    have hall := all_isDigit hds
    cases negative with
    | true => simp [Numeral.exponentText, exponentOf?, hne, hall]
    | false =>
      simp only [Numeral.exponentText, exponentOf?, true_or, if_true, Bool.false_eq_true, if_false]
      split
      · exact absurd (hds '-' (by simp)) (by decide)
      · exact absurd (hds '+' (by simp)) (by decide)
      · simp [hempty, hall]

theorem decimalOf?_text (n : Numeral) : decimalOf? n.text = some (n.digits, n.scale) := by
  have hend : NoDigit ([] : List Char) := by simp [NoDigit]
  have hexp : NoDigit (Numeral.exponentText n.exponent) := by
    simpa using Numeral.noDigit_exponentText n.exponent hend
  have hfrac := Numeral.noDigit_fractionText n.fraction hexp
  have hne : n.whole.isEmpty = false := List.isEmpty_eq_false_iff.mpr n.whole_ne_nil
  unfold decimalOf? Numeral.text
  simp only [takeWhile_digits n.whole_digits hfrac, dropWhile_digits n.whole_digits hfrac, hne, Bool.false_and,
    Bool.false_eq_true, if_false]
  cases hf : n.fraction with
  | nil =>
    have hdot : ∀ t, Numeral.exponentText n.exponent = '.' :: t → False := by
      intro t; cases n.exponent <;> simp [Numeral.exponentText]
    have hx := exponentOf?_exponentText n
    rw [hf] at hx
    simp only [Numeral.fractionText, List.nil_append, hx]
    simp [Numeral.digits, hf]
  | cons c f =>
    have hfd : Digits (c :: f) := hf ▸ n.fraction_digits
    have hx := exponentOf?_exponentText n
    rw [hf] at hx
    simp only [Numeral.fractionText, List.cons_append]
    rw [← List.cons_append, takeWhile_digits hfd hexp, dropWhile_digits hfd hexp, hx]
    simp [Numeral.digits, hf]

theorem ofText?_text (n : Numeral) (negative : Bool) :
    ofText? (if negative then '-' :: n.text else n.text) = some (ofDecimal negative n.digits n.scale) := by
  obtain ⟨c, s, hs, hc⟩ := n.text_head
  have hname : ∀ word : String, (∀ d ∈ word.toList.head?, d.isDigit = false) → word.toList ≠ [] →
      (c :: s).map Char.toLower ≠ word.toList := by
    intro word hw hne h
    have hlow : c.toLower = c := by
      unfold Char.isDigit at hc
      unfold Char.toLower
      simp only [Bool.and_eq_true, decide_eq_true_eq, UInt32.le_iff_toNat_le] at hc ⊢
      rw [dif_neg]
      rintro ⟨h1, -⟩
      exact absurd (Nat.le_trans h1 hc.2) (by decide)
    have := hw c (by rw [← h]; simp [hlow])
    rw [hc] at this; cases this
  have hinf := hname "inf" (by simp) (by simp)
  have hinfinity := hname "infinity" (by simp) (by simp)
  have hnan := hname "nan" (by simp) (by simp)
  have hdec := decimalOf?_text n
  rw [hs] at hdec ⊢
  cases negative with
  | true =>
    simp only [ofText?, readWith?, if_true]
    simp only [hinf, hinfinity, hnan, hdec, or_self, if_false]
    rfl
  | false =>
    simp only [ofText?, readWith?, Bool.false_eq_true, if_false]
    split
    · rename_i h; cases h; cases hc
    · rename_i h; cases h; cases hc
    · simp only [hinf, hinfinity, hnan, hdec, or_self, if_false]
      rfl

end Double

/-! ## Shortest digits -/

namespace Decimal

theorem toDouble_stripZeros (fuel : Nat) (d : Decimal) : (stripZeros fuel d).toDouble = d.toDouble := by
  induction fuel generalizing d with
  | zero => rfl
  | succ fuel ih =>
    unfold stripZeros
    split
    · rename_i h
      rw [ih]
      have := Double.ofDecimal_zeros false (d.digits / 10) 1 d.exponent
      rw [Nat.pow_one, Nat.div_mul_cancel (Nat.dvd_of_mod_eq_zero h.2)] at this
      exact this.symm
    · rfl

theorem toDouble_cut? {tie : Tie} {target : Double} {exact d : Decimal} {dropped : Nat}
    (h : exact.cut? tie target dropped = some d) : d.toDouble = target := by
  simpa using List.find?_some h

end Decimal

namespace Double

theorem toDouble_exactDecimal (place : Fin (2047 * 2 ^ 52)) : (exactDecimal place).toDouble = finite false place := by
  unfold Decimal.toDouble exactDecimal
  rw [ofDecimal_eq, ofRatio, ofUnits, ofPlace_eq_finite]
  have he : (-(unitExponent : Int)).toNat = 0 := by omega
  have hf : (- -(unitExponent : Int)).toNat = unitExponent := by omega
  rw [he, hf, Nat.pow_zero, Nat.mul_one, Nat.mul_assoc, ← Nat.mul_pow, show 5 * 2 = 10 from rfl]
  exact nearestPlace_placeUnits 53 place.val (by omega) (Nat.pow_pos (by omega))

/-- The shortest digits read back, whatever cut was taken. -/
theorem toDouble_shortest (tie : Tie) (place : Fin (2047 * 2 ^ 52)) :
    (shortest tie place).toDouble = finite false place := by
  simp only [shortest]
  rw [Decimal.toDouble_stripZeros]
  cases hf : List.findSome? _ _ with
  | none => exact toDouble_exactDecimal place
  | some d =>
    obtain ⟨dropped, _, hd⟩ := List.exists_of_findSome?_eq_some hf
    exact Decimal.toDouble_cut? hd

end Double

end RemoteConsole
