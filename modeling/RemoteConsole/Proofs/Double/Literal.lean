import RemoteConsole.Proofs.Double.Numeral
import RemoteConsole.Value.Literal

/-!
# Literals of doubles

Whichever notation its size asks for, the literal of a finite double is a
numeral with a fraction or an exponent, so that it never reads as an integer,
and its value is that of the shortest digits.
-/

namespace RemoteConsole

open Text

def Numeral.IsFractional (n : Numeral) : Prop := n.fraction ≠ [] ∨ n.exponent ≠ none

theorem Numeral.IsFractional.mark {n : Numeral} (h : n.IsFractional) : '.' ∈ n.text ∨ 'e' ∈ n.text := by
  rw [Numeral.text]
  rcases h with hf | he
  · obtain ⟨c, s, hs⟩ := List.exists_cons_of_ne_nil hf
    exact .inl (by simp [hs, Numeral.fractionText])
  · obtain ⟨p, hp⟩ := Option.ne_none_iff_exists'.mp he
    exact .inr (by simp [hp, Numeral.exponentText])

namespace NumberStyle

section
variable {s : List Char} (hn : s ≠ []) (hs : Digits s)
include hn hs

theorem plain_numeral (e : Int) :
    ∃ n : Numeral, n.text = literal.plain s e ∧ n.IsFractional ∧
      ∀ negative, Double.ofDecimal negative n.digits n.scale =
        Double.ofDecimal negative (digitsValue s) (e + 1 - s.length) := by
  by_cases he : e < 0
  · -- the digits stand behind zeros
    let zeros := List.replicate ((-e).toNat - 1) '0'
    refine ⟨⟨['0'], zeros ++ s, none, by simp, by simp [Digits], (digits_replicate_zero _).append hs, by simp⟩, ?_, ?_, ?_⟩
    · obtain ⟨c, t, ht⟩ := List.exists_cons_of_ne_nil (show zeros ++ s ≠ [] by simp [hn])
      simp only [Numeral.text, plain, he, if_true]
      rw [show List.replicate ((-e).toNat - 1) '0' ++ s = c :: t from ht]
      simp [Numeral.fractionText, Numeral.exponentText]
    · exact .inl (by simp [hn])
    · intro negative
      have hval : digitsValue ('0' :: (zeros ++ s)) = digitsValue s := by
        rw [← List.cons_append, digitsValue_append, ← List.replicate_succ, digitsValue_replicate_zero]; simp
      have hscale : (0 : Int) - (zeros ++ s).length = e + 1 - s.length := by
        simp only [zeros, List.length_append, List.length_replicate]; omega
      simp only [Numeral.digits, Numeral.scale, List.cons_append, List.nil_append, hval, hscale]
  · by_cases hf : s.drop (e.toNat + 1) = []
    · -- zeros fill the digits up to the point
      have hlen : s.length ≤ e.toNat + 1 := by simpa using hf
      let zeros := List.replicate (e.toNat + 1 - s.length) '0'
      refine ⟨⟨s ++ zeros, ['0'], none, by simp [hn], hs.append (digits_replicate_zero _), by simp [Digits], by simp⟩, ?_, ?_, ?_⟩
      · simp [Numeral.text, Numeral.fractionText, Numeral.exponentText, plain, he, literal, zeros, hlen,
          List.take_of_length_le hlen]
      · exact .inl (by simp)
      · intro negative
        have hval : digitsValue (s ++ zeros ++ ['0']) = digitsValue s * 10 ^ (e.toNat + 1 - s.length + 1) := by
          rw [List.append_assoc, digitsValue_append, show zeros ++ ['0'] = List.replicate (e.toNat + 1 - s.length + 1) '0'
            from List.replicate_succ'.symm, digitsValue_replicate_zero]
          simp
        simp only [Numeral.digits, Numeral.scale, hval, Double.ofDecimal_zeros]
        congr 1
        simp only [List.length_singleton]; omega
    · -- the point stands among the digits
      have hlen : e.toNat + 1 < s.length := by simpa using hf
      refine ⟨⟨s.take (e.toNat + 1), s.drop (e.toNat + 1), none, ?_, hs.take _, hs.drop _, by simp⟩, ?_, ?_, ?_⟩
      · simp [hn]
      · obtain ⟨c, t, ht⟩ := List.exists_cons_of_ne_nil hf
        have hpad : e.toNat + 1 - s.length = 0 := by omega
        simp [Numeral.text, Numeral.fractionText, Numeral.exponentText, plain, he, ht, hpad]
      · exact .inl hf
      · intro negative
        simp only [Numeral.digits, Numeral.scale, List.take_append_drop, List.length_drop]
        congr 1
        omega

theorem scientific_numeral (e : Int) :
    ∃ n : Numeral, n.text = literal.scientific s e ∧ n.IsFractional ∧
      ∀ negative, Double.ofDecimal negative n.digits n.scale =
        Double.ofDecimal negative (digitsValue s) (e + 1 - s.length) := by
  obtain ⟨c, f, rfl⟩ := List.exists_cons_of_ne_nil hn
  refine ⟨⟨[c], f, some (decide (e < 0), natText e.natAbs), by simp, ?_, ?_, ?_⟩, ?_, ?_, ?_⟩
  · intro d hd; exact hs d (by simp_all)
  · intro d hd; exact hs d (by simp [hd])
  · intro p hp; cases hp; exact ⟨natText_ne_nil _, digits_natText _⟩
  · cases f <;> by_cases he : e < 0 <;>
      simp [Numeral.text, Numeral.fractionText, Numeral.exponentText, scientific, literal, he]
  · exact .inr (by simp)
  · intro negative
    simp only [Numeral.digits, Numeral.scale, digitsValue_natText, List.singleton_append, List.length_cons]
    congr 1
    by_cases he : e < 0
    · simp only [he, decide_true, if_true]; omega
    · simp only [he, decide_false, Bool.false_eq_true, if_false]; omega

end

theorem magnitude_numeral (place : Fin (2047 * 2 ^ 52)) :
    ∃ n : Numeral, n.text = literal.magnitude place ∧ n.IsFractional ∧
      ∀ negative, Double.ofDecimal negative n.digits n.scale = .finite negative place := by
  unfold magnitude
  by_cases h0 : place.val = 0
  · rw [if_pos h0]
    obtain ⟨n, ht, hf, hv⟩ := plain_numeral (s := ['0']) (by simp) (by simp [Digits]) 0
    refine ⟨n, ht, hf, fun negative => ?_⟩
    rw [hv, show digitsValue ['0'] = 0 from rfl, Double.ofDecimal, Double.roundDecimal, if_pos rfl, Double.zero,
      Double.ofPlace_eq_finite, h0]
  · rw [if_neg h0]
    simp only
    let d := Double.shortest literal.tie place
    have hn : d.digitChars ≠ [] := natText_ne_nil d.digits
    have hs : Digits d.digitChars := digits_natText d.digits
    have hval : digitsValue d.digitChars = d.digits := digitsValue_natText d.digits
    have hlead : d.leading + 1 - d.digitChars.length = d.exponent := by unfold Decimal.leading; omega
    have hread (negative : Bool) : Double.ofDecimal negative d.digits d.exponent = .finite negative place :=
      Double.ofDecimal_sign (Double.toDouble_shortest literal.tie place) negative
    split
    · obtain ⟨n, ht, hf, hv⟩ := plain_numeral hn hs d.leading
      exact ⟨n, ht, hf, fun negative => by rw [hv, hval, hlead, hread]⟩
    · obtain ⟨n, ht, hf, hv⟩ := scientific_numeral hn hs d.leading
      exact ⟨n, ht, hf, fun negative => by rw [hv, hval, hlead, hread]⟩

end NumberStyle

/-- The literal of a finite double is a numeral behind its sign, and reads back to it. -/
theorem Double.literal_numeral (negative : Bool) (place : Fin (2047 * 2 ^ 52)) :
    ∃ n : Numeral, (finite negative place).literal = (if negative then '-' :: n.text else n.text) ∧
      n.IsFractional ∧ ofText? (finite negative place).literal = some (finite negative place) := by
  obtain ⟨n, ht, hf, hv⟩ := NumberStyle.magnitude_numeral place
  have hl : (finite negative place).literal = if negative then '-' :: n.text else n.text := by
    rw [ht]; rfl
  refine ⟨n, hl, hf, ?_⟩
  rw [hl, ofText?_text, hv]

theorem Double.literal_mark (d : Double) : ∃ c ∈ d.literal, c ≠ '-' ∧ c.isDigit = false := by
  cases d with
  | nan => exact ⟨'(', by decide, by decide⟩
  | infinite negative =>
    cases negative with
    | true => exact ⟨'.', by decide, by decide⟩
    | false => exact ⟨'.', by decide, by decide⟩
  | finite negative place =>
    obtain ⟨n, hl, hf, -⟩ := Double.literal_numeral negative place
    have hin {c : Char} (h : c ∈ n.text) : c ∈ (finite negative place).literal := by
      rw [hl]
      split
      · exact List.mem_cons_of_mem _ h
      · exact h
    rcases hf.mark with h | h
    · exact ⟨'.', hin h, by decide⟩
    · exact ⟨'e', hin h, by decide⟩

end RemoteConsole
