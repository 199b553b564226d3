import Mathlib.Algebra.Order.Field.Rat
import Mathlib.Order.Monotone.Basic
import Mathlib.Tactic.FieldSimp
import Mathlib.Tactic.NormNum
import RemoteConsole.Proofs.Double.Nearest

/-!
# Rounding keeps the order

A larger quotient does not round to an earlier place, so the units of the places
increase. Where a binade ends is known exactly: what is half a unit of its last
place below the power of two, or more, rounds up to it. A finite double is a
rational number: so many units, each `2 ^ -1074`.
-/

namespace RemoteConsole

theorem roundHalfEven_eq (num den : Nat) : roundHalfEven num den =
    if 2 * (num % den) < den then num / den
    else if den < 2 * (num % den) then num / den + 1 else num / den + num / den % 2 := by
  unfold roundHalfEven
  rcases Nat.lt_trichotomy (2 * (num % den)) den with h | h | h
  · rw [Nat.compare_eq_lt.mpr h, if_pos h]
  · rw [Nat.compare_eq_eq.mpr h, if_neg (by omega), if_neg (by omega)]
  · rw [Nat.compare_eq_gt.mpr h, if_neg (by omega), if_pos h]

theorem roundHalfEven_le (num den : Nat) : roundHalfEven num den ≤ num / den + 1 := by
  rw [roundHalfEven_eq]
  split_ifs <;> omega

theorem roundHalfEven_mono {a b : Nat} (den : Nat) (h : a ≤ b) : roundHalfEven a den ≤ roundHalfEven b den := by
  have hq : a / den ≤ b / den := Nat.div_le_div_right h
  rcases Nat.lt_or_eq_of_le hq with hlt | heq
  · exact Nat.le_trans (roundHalfEven_le a den) (Nat.le_trans hlt (le_roundHalfEven b den))
  · -- the quotients agree, so the remainders decide
    have ha := Nat.div_add_mod a den
    have hb := Nat.div_add_mod b den
    rw [roundHalfEven_eq, roundHalfEven_eq, heq]
    rw [heq] at ha
    split_ifs <;> omega

theorem roundHalfEven_lt_iff {num den q : Nat} (hden : 0 < den) (heven : q % 2 = 0) :
    roundHalfEven num den < q ↔ 2 * num < (2 * q - 1) * den := by
  have hnum := Nat.div_add_mod num den
  have hmod := Nat.mod_lt num hden
  rcases Nat.lt_trichotomy (num / den + 1) q with hlow | heq | hhigh
  · have hle := roundHalfEven_le num den
    refine iff_of_true (by omega) ?_
    calc 2 * num < 2 * ((num / den + 1) * den) := by rw [Nat.add_mul, Nat.mul_comm (num / den)]; omega
      _ = (2 * (num / den + 1)) * den := (Nat.mul_assoc ..).symm
      _ ≤ (2 * q - 1) * den := Nat.mul_le_mul_right _ (by omega)
  · have hprod : (2 * q - 1) * den = 2 * (den * (num / den)) + den := by
      rw [← heq, show 2 * (num / den + 1) - 1 = 2 * (num / den) + 1 by omega]
      ring
    rw [hprod, roundHalfEven_eq]
    split_ifs <;> omega
  · have hle := le_roundHalfEven num den
    refine iff_of_false (by omega) (Nat.not_lt.mpr ?_)
    calc (2 * q - 1) * den ≤ (2 * (num / den)) * den := Nat.mul_le_mul_right _ (by omega)
      _ = 2 * (den * (num / den)) := by ring
      _ ≤ 2 * num := by omega

/-! ## Mantissas -/

/-- How far the binade of a quotient lies above the least one, for a mantissa of `p` bits. -/
def binade (p num den : Nat) : Nat := (num / den).log2 - (p - 1)

theorem nearestPlace_eq (p num den : Nat) : nearestPlace p num den =
    binade p num den * 2 ^ (p - 1) + roundHalfEven num (den * 2 ^ binade p num den) := rfl

theorem binade_mono {p a b den : Nat} (h : a ≤ b) : binade p a den ≤ binade p b den := by
  have hq : a / den ≤ b / den := Nat.div_le_div_right h
  have hlog : (a / den).log2 ≤ (b / den).log2 := by
    rcases Nat.eq_zero_or_pos (a / den) with h0 | h0
    · rw [h0, Nat.log2_zero]
      exact Nat.zero_le _
    · exact (Nat.le_log2 (by omega)).mpr (Nat.le_trans (Nat.log2_self_le (by omega)) hq)
  unfold binade
  omega

theorem binade_le {p n num den : Nat} (hn : 0 < n) (h : num / den < 2 ^ n) : binade p num den ≤ n - p := by
  have hlog : (num / den).log2 < n := by
    rcases Nat.eq_zero_or_pos (num / den) with h0 | h0
    · rw [h0, Nat.log2_zero]
      exact hn
    · exact (Nat.log2_lt (by omega)).mpr h
  unfold binade
  omega

theorem lt_two_pow_binade (p num den : Nat) (hp : 0 < p) : num / den < 2 ^ (binade p num den + p) := by
  refine Nat.lt_of_lt_of_le Nat.lt_log2_self (Nat.pow_le_pow_right (by omega) ?_)
  unfold binade
  omega

theorem roundHalfEven_binade_le {p : Nat} (num den : Nat) (hp : 0 < p) :
    roundHalfEven num (den * 2 ^ binade p num den) ≤ 2 ^ p := by
  refine Nat.le_trans (roundHalfEven_le _ _) ?_
  rw [← Nat.div_div_eq_div_mul]
  apply Nat.div_lt_of_lt_mul
  rw [← Nat.pow_add]
  exact lt_two_pow_binade p num den hp

theorem nearestPlace_le_binade {p : Nat} (num den : Nat) (hp : 0 < p) :
    nearestPlace p num den ≤ (binade p num den + 2) * 2 ^ (p - 1) := by
  have hdouble := Nat.two_pow_pred_mul_two hp
  have hupper := roundHalfEven_binade_le num den hp
  rw [nearestPlace_eq, Nat.add_mul]
  omega

theorem two_pow_le_of_binade {p num den : Nat} (h : 0 < binade p num den) :
    2 ^ (p - 1 + binade p num den) ≤ num / den := by
  have hlog : p - 1 + binade p num den = (num / den).log2 := by
    unfold binade at h ⊢
    omega
  have hne : num / den ≠ 0 := by
    intro h0
    rw [binade, h0, Nat.log2_zero] at h
    omega
  rw [hlog]
  exact Nat.log2_self_le hne

theorem le_roundHalfEven_binade {p num den : Nat} (h : 0 < binade p num den) :
    2 ^ (p - 1) ≤ roundHalfEven num (den * 2 ^ binade p num den) := by
  refine Nat.le_trans ?_ (le_roundHalfEven _ _)
  rw [← Nat.div_div_eq_div_mul, Nat.le_div_iff_mul_le (Nat.two_pow_pos _), ← Nat.pow_add]
  exact two_pow_le_of_binade h

/-! ## Places -/

theorem nearestPlace_mono {p a b : Nat} (den : Nat) (hp : 0 < p) (h : a ≤ b) :
    nearestPlace p a den ≤ nearestPlace p b den := by
  rcases Nat.lt_or_eq_of_le (@binade_mono p a b den h) with hlt | heq
  · have hlower : 2 ^ (p - 1) ≤ roundHalfEven b (den * 2 ^ binade p b den) := le_roundHalfEven_binade (by omega)
    calc nearestPlace p a den ≤ (binade p a den + 2) * 2 ^ (p - 1) := nearestPlace_le_binade a den hp
      _ = (binade p a den + 1) * 2 ^ (p - 1) + 2 ^ (p - 1) := by ring
      _ ≤ binade p b den * 2 ^ (p - 1) + roundHalfEven b (den * 2 ^ binade p b den) :=
        Nat.add_le_add (Nat.mul_le_mul_right _ hlt) hlower
  · rw [nearestPlace_eq, nearestPlace_eq, heq]
    exact Nat.add_le_add_left (roundHalfEven_mono _ h) _

theorem le_nearestPlace_of_units {p place num den : Nat} (hp : 0 < p) (hden : 0 < den)
    (h : placeUnits p place * den ≤ num) : place ≤ nearestPlace p num den := by
  have hexact := nearestPlace_placeUnits p place hp hden
  rw [← hexact]
  exact nearestPlace_mono den hp h

theorem placeUnits_strictMono {p : Nat} (hp : 0 < p) : StrictMono (placeUnits p) := by
  intro a b hab
  by_contra hle
  have hback : b ≤ nearestPlace p (placeUnits p a * 1) 1 :=
    le_nearestPlace_of_units hp Nat.one_pos (Nat.mul_le_mul_right 1 (Nat.not_lt.mp hle))
  rw [nearestPlace_placeUnits p a hp Nat.one_pos] at hback
  omega

theorem nearestPlace_lt_iff {p n num den : Nat} (hp : 1 < p) (hpn : p ≤ n) (hden : 0 < den) :
    nearestPlace p num den < (n - p + 2) * 2 ^ (p - 1) ↔ 2 * num < (2 ^ (n + 1) - 2 ^ (n - p)) * den := by
  have hbelow : 2 ^ (n - p) ≤ 2 ^ n := Nat.pow_le_pow_right (by omega) (by omega)
  have hnext : 2 ^ (n + 1) = 2 * 2 ^ n := Nat.pow_succ'
  by_cases hq : 2 ^ n ≤ num / den
  · have hplace := le_nearestPlace hpn (by omega) hq
    have hnum : 2 ^ n * den ≤ num := (Nat.le_div_iff_mul_le hden).mp hq
    refine iff_of_false (by omega) (Nat.not_lt.mpr ?_)
    calc (2 ^ (n + 1) - 2 ^ (n - p)) * den ≤ 2 ^ (n + 1) * den := Nat.mul_le_mul_right _ (Nat.sub_le _ _)
      _ = 2 * (2 ^ n * den) := by rw [hnext, Nat.mul_assoc]
      _ ≤ 2 * num := Nat.mul_le_mul_left _ hnum
  have hlow : num / den < 2 ^ n := by omega
  rcases Nat.lt_or_eq_of_le (binade_le (p := p) (by omega) hlow) with hearly | htop
  · -- in an earlier binade the quotient is below half of the power of two
    have hquotient : num < 2 ^ (n - 1) * den := by
      refine (Nat.div_lt_iff_lt_mul hden).mp (Nat.lt_of_lt_of_le (lt_two_pow_binade p num den (by omega)) ?_)
      exact Nat.pow_le_pow_right (by omega) (by omega)
    have hhalf : 2 ^ (n - 1) * 2 = 2 ^ n := Nat.two_pow_pred_mul_two (by omega)
    refine iff_of_true ?_ ?_
    · calc nearestPlace p num den ≤ (binade p num den + 2) * 2 ^ (p - 1) := nearestPlace_le_binade num den (by omega)
        _ < (n - p + 2) * 2 ^ (p - 1) := Nat.mul_lt_mul_of_pos_right (by omega) (Nat.two_pow_pos _)
    · calc 2 * num < 2 ^ (n - 1) * 2 * den := by rw [Nat.mul_right_comm]; omega
        _ = 2 ^ n * den := by rw [hhalf]
        _ ≤ (2 ^ (n + 1) - 2 ^ (n - p)) * den := Nat.mul_le_mul_right _ (by omega)
  · have hshift : 0 < den * 2 ^ (n - p) := by positivity
    have hdouble : 2 ^ (p - 1) * 2 = 2 ^ p := Nat.two_pow_pred_mul_two (by omega)
    have hsplit : (n - p + 2) * 2 ^ (p - 1) = (n - p) * 2 ^ (p - 1) + 2 ^ p := by rw [← hdouble]; ring
    have htwice : (2 * 2 ^ p - 1) * (den * 2 ^ (n - p)) = (2 ^ (n + 1) - 2 ^ (n - p)) * den := by
      have hpow : 2 ^ (n + 1) = 2 * 2 ^ p * 2 ^ (n - p) := by
        rw [← Nat.pow_succ', ← Nat.pow_add]
        congr 1
        omega
      rw [hpow, ← Nat.sub_one_mul]
      ring
    have heven : 2 ^ p % 2 = 0 := by
      rw [← hdouble]
      exact Nat.mul_mod_left _ _
    rw [nearestPlace_eq, htop, hsplit, Nat.add_lt_add_iff_left, roundHalfEven_lt_iff hshift heven, htwice]

/-! ## Comparing -/

namespace Double

theorem units_lt_units {p q : Fin (2047 * 2 ^ 52)} : units p < units q ↔ p.val < q.val :=
  (placeUnits_strictMono (by decide)).lt_iff_lt

theorem units_pos {p : Fin (2047 * 2 ^ 52)} : 0 < units p ↔ 0 < p.val :=
  (placeUnits_strictMono (p := 53) (by decide)).lt_iff_lt (a := 0)

theorem lt_finite (p q : Fin (2047 * 2 ^ 52)) : (finite false p).lt (finite false q) = true ↔ p.val < q.val := by
  unfold lt compare?
  simp only [Bool.false_eq_true, if_false, beq_iff_eq, Option.some.injEq]
  rw [← units_lt_units, compare_lt_iff_lt]
  exact Int.ofNat_lt

/-! ## The number that a double is -/

def rational? (d : Double) : Option ℚ := d.units?.map fun u : Int => (u : ℚ) / 2 ^ unitExponent

theorem rational?_finite (p : Fin (2047 * 2 ^ 52)) :
    (finite false p).rational? = some ((units p : ℚ) / 2 ^ unitExponent) := by
  rw [rational?, units?, if_neg (by decide), Option.map_some, Int.cast_natCast]

theorem rational?_eq_int {d : Double} {i : Int} :
    d.rational? = some (i : ℚ) ↔ d.units? = some (i * 2 ^ unitExponent) := by
  have hunit : (2 : ℚ) ^ unitExponent ≠ 0 := pow_ne_zero _ (by norm_num)
  have hint (u : Int) : (u : ℚ) / 2 ^ unitExponent = i ↔ u = i * 2 ^ unitExponent := by
    rw [div_eq_iff hunit]
    exact_mod_cast Iff.rfl
  unfold rational?
  cases d.units? with
  | none => exact ⟨nofun, nofun⟩
  | some u => rw [Option.map_some, Option.some.injEq, Option.some.injEq, hint]

end Double

end RemoteConsole
