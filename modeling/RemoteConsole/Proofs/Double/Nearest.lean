import Mathlib.Tactic.Positivity
import Mathlib.Tactic.Ring
import RemoteConsole.Double.Basic

/-!
# Rounding depends on the value only

`nearestPlace` takes a quotient of units. Quotients of one value round to one
place (`nearestPlace_congr`), every place rounds to itself, and the exponents
that `roundDecimal` does not multiply out would have rounded to the same
double. A decimal is therefore read by its value, however it is written.
-/

namespace RemoteConsole

theorem roundHalfEven_mul_right (num den : Nat) {k : Nat} (hk : 0 < k) :
    roundHalfEven (num * k) (den * k) = roundHalfEven num den := by
  have hc : compare (2 * (num * k % (den * k))) (den * k) = compare (2 * (num % den)) den := by
    rw [Nat.mul_mod_mul_right, ← Nat.mul_assoc, Nat.compare_eq_ite_lt, Nat.compare_eq_ite_lt]
    simp only [Nat.mul_lt_mul_right hk]
  unfold roundHalfEven
  rw [Nat.mul_div_mul_right _ _ hk, hc]

theorem roundHalfEven_exact (q : Nat) {den : Nat} (hd : 0 < den) : roundHalfEven (q * den) den = q := by
  have hc : compare (2 * (q * den % den)) den = .lt := by
    rw [Nat.mul_mod_left, Nat.compare_eq_lt]; exact hd
  unfold roundHalfEven
  rw [hc, Nat.mul_div_cancel _ hd]

theorem le_roundHalfEven (num den : Nat) : num / den ≤ roundHalfEven num den := by
  unfold roundHalfEven
  simp only; split <;> omega

/-! ## Places -/

theorem nearestPlace_mul_right (p num den : Nat) {k : Nat} (hk : 0 < k) :
    nearestPlace p (num * k) (den * k) = nearestPlace p num den := by
  simp only [nearestPlace]
  rw [Nat.mul_div_mul_right _ _ hk, Nat.mul_right_comm den k, roundHalfEven_mul_right _ _ hk]

theorem nearestPlace_congr (p : Nat) {a b c d : Nat} (hb : 0 < b) (hd : 0 < d) (h : a * d = c * b) :
    nearestPlace p a b = nearestPlace p c d := by
  rw [← nearestPlace_mul_right p a b hd, ← nearestPlace_mul_right p c d hb, h, Nat.mul_comm b d]

theorem nearestPlace_zero (p den : Nat) : nearestPlace p 0 den = 0 := by
  have hl : Nat.log2 0 = 0 := rfl
  simp only [nearestPlace, Nat.zero_div, hl, Nat.zero_sub, Nat.zero_mul, Nat.zero_add, Nat.pow_zero, Nat.mul_one]
  rcases Nat.eq_zero_or_pos den with rfl | hd
  · rfl
  · simpa using roundHalfEven_exact 0 hd

theorem log2_shifted {k m e : Nat} (hlo : 2 ^ k ≤ m) (hhi : m < 2 ^ (k + 1)) :
    Nat.log2 (m * 2 ^ e) = k + e := by
  have hpos : 0 < m := Nat.lt_of_lt_of_le (Nat.two_pow_pos k) hlo
  have hne : m * 2 ^ e ≠ 0 := by positivity
  refine (Nat.log2_eq_iff hne).mpr ⟨?_, ?_⟩
  · rw [Nat.pow_add]; exact Nat.mul_le_mul_right _ hlo
  · rw [Nat.add_right_comm, Nat.pow_add]; exact Nat.mul_lt_mul_of_pos_right hhi (Nat.two_pow_pos e)

theorem nearestPlace_placeUnits (p place : Nat) {den : Nat} (hp : 0 < p) (hd : 0 < den) :
    nearestPlace p (placeUnits p place * den) den = place := by
  obtain ⟨k, rfl⟩ : ∃ k, p = k + 1 := ⟨p - 1, by omega⟩
  simp only [nearestPlace, placeUnits]
  rw [Nat.mul_div_cancel _ hd, Nat.add_sub_cancel]
  by_cases hs : place < 2 ^ (k + 1)
  · have hl : place.log2 - k = 0 := by
      rcases Nat.eq_zero_or_pos place with h0 | h0
      · simp [h0]
      · have := (Nat.log2_lt (by omega)).mpr hs
        omega
    rw [if_pos hs, hl, Nat.zero_mul, Nat.zero_add, Nat.pow_zero, Nat.mul_one, roundHalfEven_exact _ hd]
  · rw [if_neg hs]
    have hk := Nat.two_pow_pos k
    have hmod := Nat.mod_lt place hk
    have hsum := Nat.div_add_mod place (2 ^ k)
    have hexp : 2 ≤ place / 2 ^ k := by
      rw [Nat.le_div_iff_mul_le hk]
      rw [Nat.pow_succ] at hs
      omega
    have hl : Nat.log2 ((2 ^ k + place % 2 ^ k) * 2 ^ (place / 2 ^ k - 1)) = k + (place / 2 ^ k - 1) :=
      log2_shifted (by omega) (by rw [Nat.pow_succ]; omega)
    have hshift : 0 < den * 2 ^ (place / 2 ^ k - 1) := by positivity
    rw [hl, Nat.add_sub_cancel_left, Nat.mul_assoc, Nat.mul_comm (2 ^ (place / 2 ^ k - 1)) den,
      roundHalfEven_exact _ hshift]
    obtain ⟨e, he⟩ : ∃ e, place / 2 ^ k = e + 1 := ⟨place / 2 ^ k - 1, by omega⟩
    rw [he, Nat.add_sub_cancel]
    rw [he, Nat.mul_add] at hsum
    rw [Nat.mul_comm e, ← Nat.add_assoc]
    omega

theorem le_nearestPlace {p n num den : Nat} (hpn : p ≤ n) (hp : 0 < p) (h : 2 ^ n ≤ num / den) :
    (n - p + 2) * 2 ^ (p - 1) ≤ nearestPlace p num den := by
  have hq : num / den ≠ 0 := by
    have := Nat.two_pow_pos n
    omega
  have hn : n ≤ (num / den).log2 := (Nat.le_log2 hq).mpr h
  have hm : 2 ^ (p - 1) ≤ num / (den * 2 ^ ((num / den).log2 - (p - 1))) := by
    rw [← Nat.div_div_eq_div_mul, Nat.le_div_iff_mul_le (Nat.two_pow_pos _), ← Nat.pow_add,
      show p - 1 + ((num / den).log2 - (p - 1)) = (num / den).log2 by omega]
    exact Nat.log2_self_le hq
  have hs : n - p + 1 ≤ (num / den).log2 - (p - 1) := by omega
  calc (n - p + 2) * 2 ^ (p - 1) = (n - p + 1) * 2 ^ (p - 1) + 2 ^ (p - 1) := by ring
    _ ≤ nearestPlace p num den :=
      Nat.add_le_add (Nat.mul_le_mul_right _ hs) (Nat.le_trans hm (le_roundHalfEven _ _))

theorem nearestPlace_small {p num den : Nat} (h : 2 * num < den) : nearestPlace p num den = 0 := by
  have hc : compare (2 * num) den = .lt := by rw [Nat.compare_eq_lt]; exact h
  have hq : num / den = 0 := Nat.div_eq_of_lt (by omega)
  have hl : Nat.log2 0 = 0 := rfl
  unfold nearestPlace roundHalfEven
  simp only [hq, hl, Nat.zero_sub, Nat.zero_mul, Nat.pow_zero, Nat.mul_one, Nat.mod_eq_of_lt (show num < den by omega), hc]

namespace Double

/-! ## Decimals -/

theorem ofRatio_congr (negative : Bool) {a b c d : Nat} (hb : 0 < b) (hd : 0 < d) (h : a * d = c * b) :
    ofRatio negative a b = ofRatio negative c d := by
  unfold ofRatio ofUnits
  rw [nearestPlace_congr 53 hb hd (by rw [Nat.mul_right_comm, h, Nat.mul_right_comm])]

theorem ofRatio_huge (negative : Bool) {n a b : Nat} (hn : 1024 ≤ n) (hb : 0 < b) (h : 2 ^ n * b ≤ a) :
    ofRatio negative a b = infinite negative := by
  have hu : 2 ^ (n + unitExponent) ≤ a * 2 ^ unitExponent / b := by
    rw [Nat.le_div_iff_mul_le hb]
    calc 2 ^ (n + unitExponent) * b = 2 ^ n * b * 2 ^ unitExponent := by rw [Nat.pow_add]; ring
      _ ≤ a * 2 ^ unitExponent := Nat.mul_le_mul_right _ h
  have hp : 53 ≤ n + unitExponent := by omega
  have hplace := le_nearestPlace hp (by omega) hu
  have hbig : 2047 * 2 ^ 52 ≤ (n + unitExponent - 53 + 2) * 2 ^ (53 - 1) :=
    Nat.mul_le_mul_right _ (by unfold unitExponent; omega)
  unfold ofRatio ofUnits ofPlace
  rw [dif_neg (Nat.not_lt.mpr (Nat.le_trans hbig hplace))]

theorem ofRatio_tiny (negative : Bool) {n a b : Nat} (hn : unitExponent < n) (h : a * 2 ^ n < b) :
    ofRatio negative a b = zero negative := by
  unfold ofRatio ofUnits zero
  rw [nearestPlace_small]
  calc 2 * (a * 2 ^ unitExponent) = a * 2 ^ (unitExponent + 1) := by rw [Nat.pow_succ]; ring
    _ ≤ a * 2 ^ n := Nat.mul_le_mul_left _ (Nat.pow_le_pow_right (by omega) hn)
    _ < b := h

theorem two_pow_le_ten_pow (n : Nat) : 2 ^ (3 * n) ≤ 10 ^ n := by
  rw [Nat.pow_mul]
  exact Nat.pow_le_pow_left (by omega) n

/-- The shortcuts for far exponents do not change what is read. -/
theorem ofDecimal_eq (negative : Bool) (m : Nat) (e : Int) :
    ofDecimal negative m e = ofRatio negative (m * 10 ^ e.toNat) (10 ^ (-e).toNat) := by
  unfold ofDecimal roundDecimal
  split_ifs with hm hhi hlo
  · rw [hm, Nat.zero_mul, ofRatio, ofUnits, Nat.zero_mul, nearestPlace_zero]; rfl
  · refine (ofRatio_huge negative (show 1024 ≤ 3 * e.toNat by omega) (by positivity) ?_).symm
    have he : (-e).toNat = 0 := by omega
    rw [he, Nat.pow_zero, Nat.mul_one]
    exact Nat.le_trans (two_pow_le_ten_pow _) (Nat.le_mul_of_pos_left _ (by omega))
  · refine (ofRatio_tiny negative (Nat.lt_succ_self unitExponent) ?_).symm
    have he : e.toNat = 0 := by omega
    have hexp : m.log2 + 1 + unitExponent.succ ≤ 3 * (-e).toNat := by unfold unitExponent; omega
    rw [he, Nat.pow_zero, Nat.mul_one]
    calc m * 2 ^ unitExponent.succ < 2 ^ (m.log2 + 1) * 2 ^ unitExponent.succ :=
          Nat.mul_lt_mul_of_pos_right Nat.lt_log2_self (Nat.two_pow_pos _)
      _ = 2 ^ (m.log2 + 1 + unitExponent.succ) := (Nat.pow_add ..).symm
      _ ≤ 2 ^ (3 * (-e).toNat) := Nat.pow_le_pow_right (by omega) hexp
      _ ≤ 10 ^ (-e).toNat := two_pow_le_ten_pow _
  · rfl

theorem ofDecimal_congr (negative : Bool) {m n : Nat} {e f : Int}
    (h : m * 10 ^ e.toNat * 10 ^ (-f).toNat = n * 10 ^ f.toNat * 10 ^ (-e).toNat) :
    ofDecimal negative m e = ofDecimal negative n f := by
  rw [ofDecimal_eq, ofDecimal_eq]
  exact ofRatio_congr negative (by positivity) (by positivity) h

theorem ofDecimal_zeros (negative : Bool) (m k : Nat) (e : Int) :
    ofDecimal negative (m * 10 ^ k) e = ofDecimal negative m (e + k) := by
  apply ofDecimal_congr
  have hexp : k + e.toNat + (-(e + k)).toNat = (e + k).toNat + (-e).toNat := by omega
  calc m * 10 ^ k * 10 ^ e.toNat * 10 ^ (-(e + k)).toNat
      = m * 10 ^ (k + e.toNat + (-(e + k)).toNat) := by ring
    _ = m * 10 ^ ((e + k).toNat + (-e).toNat) := by rw [hexp]
    _ = m * 10 ^ (e + k).toNat * 10 ^ (-e).toNat := by ring

theorem ofPlace_eq_finite {n : Nat} {place : Fin (2047 * 2 ^ 52)} {negative : Bool} :
    ofPlace negative n = finite negative place ↔ n = place.val := by
  unfold ofPlace
  split
  · rename_i h
    rw [finite.injEq, Fin.ext_iff]; simp
  · rename_i h
    refine ⟨fun hf => (by cases hf), fun hn => absurd (hn ▸ place.isLt) h⟩

theorem ofDecimal_sign {m : Nat} {e : Int} {place : Fin (2047 * 2 ^ 52)} (h : ofDecimal false m e = finite false place)
    (negative : Bool) : ofDecimal negative m e = finite negative place := by
  rw [ofDecimal_eq] at h ⊢
  exact ofPlace_eq_finite.mpr (ofPlace_eq_finite.mp h)

end Double

end RemoteConsole
