import RemoteConsole.Clock
import RemoteConsole.Config.Basic
import RemoteConsole.Proofs.Double.Order

/-!
# How long a wait may be

The seconds of a wait are a quotient of two rounded doubles. Neither a negative
one nor a NaN comes out of it, so there is no span for it only where it rounds to
`2 ^ 64` or more, and that is decided by the rational numbers that the two are.
-/

namespace RemoteConsole

namespace Double

/-! ## Doubles that are not negative -/

theorem ofPlace_lt_zero (n : Nat) : (ofPlace false n).lt (zero false) = false := by
  unfold ofPlace
  split
  next h => exact Bool.eq_false_iff.mpr fun hlt => Nat.not_lt_zero _ ((lt_finite ⟨n, h⟩ ⟨0, by decide⟩).mp hlt)
  next => rfl

theorem ofPlace_lt_spanEnd (n : Nat) : (ofPlace false n).lt (ofInt (2 ^ 64)) = true ↔ n < 1087 * 2 ^ 52 := by
  have hend : ofInt (2 ^ 64) = finite false ⟨1087 * 2 ^ 52, by decide⟩ := by decide +kernel
  rw [hend]
  unfold ofPlace
  split
  next h => exact lt_finite ⟨n, h⟩ ⟨1087 * 2 ^ 52, by decide⟩
  next h => exact iff_of_false (by decide) (by omega)

theorem exists_ofInt {i : Int} (hpos : 0 ≤ i) (h : i ≤ 2 ^ 63) :
    ∃ p : Fin (2047 * 2 ^ 52), ofInt i = finite false p ∧ p.val ≤ 1086 * 2 ^ 52 := by
  have hexact : nearestPlace 53 (2 ^ 63 * 2 ^ unitExponent) 1 = 1086 * 2 ^ 52 := by decide +kernel
  have hplace : nearestPlace 53 (i.natAbs * 2 ^ unitExponent) 1 ≤ 1086 * 2 ^ 52 := by
    rw [← hexact]
    exact nearestPlace_mono 1 (by decide) (Nat.mul_le_mul_right _ (by omega))
  have hsign : decide (i < 0) = false := decide_eq_false (by omega)
  have hfinite := Nat.lt_of_le_of_lt hplace (show 1086 * 2 ^ 52 < 2047 * 2 ^ 52 by decide)
  refine ⟨⟨nearestPlace 53 (i.natAbs * 2 ^ unitExponent) 1, hfinite⟩, ?_, hplace⟩
  rw [ofInt, ofRatio, ofUnits, hsign]
  exact dif_pos hfinite

end Double

open Double

theorem Config.isSpeed_iff {speed : Double} :
    Config.isSpeed speed = true ↔ ∃ p : Fin (2047 * 2 ^ 52), speed = finite false p ∧ 0 < p.val := by
  have hzero : zero false = finite false ⟨0, by decide⟩ := rfl
  unfold isSpeed
  rw [hzero]
  cases speed with
  | nan => exact iff_of_false (by decide) nofun
  | infinite negative => exact iff_of_false (by simp [isFinite]) nofun
  | finite negative p =>
    cases negative with
    | false =>
      rw [Bool.and_eq_true, lt_finite]
      constructor
      · exact fun h => ⟨p, rfl, h.1⟩
      · rintro ⟨q, hq, hpos⟩
        cases hq
        exact ⟨hpos, rfl⟩
    | true =>
      refine iff_of_false ?_ (by rintro ⟨q, hq, -⟩; cases hq)
      have hunits : (0 : Int) ≤ units p := Int.natCast_nonneg _
      have hnone : units ⟨0, by decide⟩ = 0 := rfl
      simp only [lt, compare?, Bool.and_eq_true, beq_iff_eq, Option.some.injEq, compare_lt_iff_lt, hnone,
        if_true, Bool.false_eq_true, if_false]
      omega

theorem exists_sixty : ∃ p : Fin (2047 * 2 ^ 52), ticksPerSecond = finite false p ∧ units p = 60 * 2 ^ unitExponent := by
  refine ⟨⟨1028 * 2 ^ 52 + 14 * 2 ^ 48, by decide⟩, ?_, ?_⟩
  · decide +kernel
  · decide +kernel

theorem mul_speed {p : Fin (2047 * 2 ^ 52)} (hp : 0 < p.val) :
    ∃ n, ticksPerSecond.mul (finite false p) = ofPlace false n ∧ 0 < n ∧
      ∀ place, placeUnits 53 place ≤ 60 * units p → place ≤ n := by
  obtain ⟨sixty, hsixty, hunits⟩ := exists_sixty
  have hpow : 0 < 2 ^ unitExponent := Nat.two_pow_pos _
  have hle (place : Nat) (h : placeUnits 53 place ≤ 60 * units p) :
      place ≤ nearestPlace 53 (units sixty * units p) (2 ^ unitExponent) := by
    apply le_nearestPlace_of_units (by decide) hpow
    rw [hunits, Nat.mul_right_comm]
    exact Nat.mul_le_mul_right _ h
  refine ⟨_, by rw [hsixty]; rfl, ?_, hle⟩
  have hone : placeUnits 53 1 = 1 := by decide
  have := units_pos.mpr hp
  exact hle 1 (by omega)

/-! ## Waits -/

def span? (ticks : Int64) (speed : Double) : Option Duration :=
  Duration.ofSeconds? ((ofInt ticks.toInt).div (ticksPerSecond.mul speed))

/-- The ticks, and those in a second, are rounded. At `2 ^ 64 - 2 ^ 10` seconds the quotient is
rounded to `2 ^ 64`. -/
def TooLong (ticks : Int64) (speed : Double) : Prop :=
  ∃ all each : ℚ, (ofInt ticks.toInt).rational? = some all ∧ (ticksPerSecond.mul speed).rational? = some each ∧
    (2 ^ 64 - 2 ^ 10) * each ≤ all

theorem ofSeconds?_ofPlace (n : Nat) : Duration.ofSeconds? (ofPlace false n) = none ↔ 1087 * 2 ^ 52 ≤ n := by
  unfold Duration.ofSeconds?
  rw [ofPlace_lt_zero, Bool.false_or]
  split
  next h =>
    refine iff_of_true rfl (Nat.not_lt.mp fun hlt => ?_)
    rw [(ofPlace_lt_spanEnd n).mpr hlt] at h
    cases h
  next h =>
    have hlt := (ofPlace_lt_spanEnd n).mp (by simpa using h)
    refine iff_of_false ?_ (Nat.not_le.mpr hlt)
    rw [ofPlace, dif_pos (by omega)]
    exact Option.some_ne_none _

theorem spanEnd_le_iff {num den : Nat} (hden : 0 < den) :
    1087 * 2 ^ 52 ≤ nearestPlace 53 (num * 2 ^ unitExponent) den ↔ (2 ^ 64 - 2 ^ 10) * den ≤ num := by
  have hplaces : 64 + unitExponent - 53 + 2 = 1087 := rfl
  have hlt : _ ↔ 2 * (num * 2 ^ unitExponent) < _ := nearestPlace_lt_iff (n := 64 + unitExponent)
    (show 1 < 53 by decide) (by omega) hden
  rw [hplaces, show 64 + unitExponent + 1 = 65 + unitExponent by omega,
    show 64 + unitExponent - 53 = 11 + unitExponent by omega, Nat.pow_add, Nat.pow_add] at hlt
  rw [← Nat.not_lt, hlt, Nat.not_lt]
  have hunit := Nat.two_pow_pos unitExponent
  generalize 2 ^ unitExponent = unit at hunit ⊢
  have hleft : (2 ^ 65 * unit - 2 ^ 11 * unit) * den = (2 ^ 64 - 2 ^ 10) * den * (2 * unit) := by
    rw [← Nat.sub_mul]
    ring
  have hright : 2 * (num * unit) = num * (2 * unit) := by ring
  rw [hleft, hright]
  exact Nat.mul_le_mul_right_iff (by omega)

theorem rational_le_iff (p q : Fin (2047 * 2 ^ 52)) :
    (∃ all each : ℚ, (finite false p).rational? = some all ∧ (finite false q).rational? = some each ∧
      (2 ^ 64 - 2 ^ 10) * each ≤ all) ↔ (2 ^ 64 - 2 ^ 10) * units q ≤ units p := by
  have hunit : (0 : ℚ) < 2 ^ unitExponent := pow_pos (by norm_num) _
  have hend : (2 : ℚ) ^ 64 - 2 ^ 10 = ((2 ^ 64 - 2 ^ 10 : Nat) : ℚ) := by norm_num
  rw [rational?_finite, rational?_finite, hend]
  simp only [Option.some.injEq, exists_and_left, exists_eq_left', ← mul_div_assoc, div_le_div_iff_of_pos_right hunit]
  exact_mod_cast Iff.rfl

theorem div_finite (p : Fin (2047 * 2 ^ 52)) {q : Fin (2047 * 2 ^ 52)} (hq : 0 < units q) :
    (finite false p).div (finite false q) = ofPlace false (nearestPlace 53 (units p * 2 ^ unitExponent) (units q)) :=
  if_neg (Nat.ne_of_gt hq)

theorem span?_eq_none {ticks : Int64} {speed : Double} (hticks : 0 ≤ ticks.toInt) (hspeed : Config.isSpeed speed = true) :
    span? ticks speed = none ↔ TooLong ticks speed := by
  obtain ⟨p, rfl, hp⟩ := Config.isSpeed_iff.mp hspeed
  obtain ⟨all, hall, -⟩ := exists_ofInt hticks (Int.le_of_lt ticks.toInt_lt)
  obtain ⟨n, hmul, hn, -⟩ := mul_speed hp
  unfold span? TooLong
  rw [hall, hmul]
  by_cases hfinite : n < 2047 * 2 ^ 52
  · have heach : ofPlace false n = finite false ⟨n, hfinite⟩ := dif_pos hfinite
    have hpos : 0 < units ⟨n, hfinite⟩ := units_pos.mpr hn
    rw [heach, div_finite all hpos, ofSeconds?_ofPlace, spanEnd_le_iff hpos, rational_le_iff]
  · -- more ticks in a second than a double can hold, so the quotient is zero
    have heach : ofPlace false n = infinite false := dif_neg hfinite
    rw [heach]
    refine iff_of_false ?_ (by rintro ⟨_, _, -, hnone, -⟩; cases hnone)
    exact fun h => absurd ((ofSeconds?_ofPlace 0).mp h) (by decide)

/-- At a hundredth of the normal speed, or faster, no wait is too long. -/
theorem not_tooLong {ticks : Int64} {speed : Double} (hticks : 0 ≤ ticks.toInt) (hspeed : Config.isSpeed speed = true)
    {r : ℚ} (hr : speed.rational? = some r) (h : 1 / 100 ≤ r) : ¬ TooLong ticks speed := by
  obtain ⟨p, rfl, hp⟩ := Config.isSpeed_iff.mp hspeed
  obtain ⟨all, hall, hallLe⟩ := exists_ofInt hticks (Int.le_of_lt ticks.toInt_lt)
  obtain ⟨n, hmul, -, hle⟩ := mul_speed hp
  unfold TooLong
  rw [hall, hmul]
  by_cases hfinite : n < 2047 * 2 ^ 52
  · rw [ofPlace, dif_pos hfinite, rational_le_iff]
    -- nine sixteenths of a tick are a double, so no fewer pass in a second
    have hsixteenths : 16 * placeUnits 53 (1022 * 2 ^ 52 + 2 ^ 49) = 9 * 2 ^ unitExponent := by decide +kernel
    have hlast : placeUnits 53 (1086 * 2 ^ 52) = 2 ^ 63 * 2 ^ unitExponent := by decide +kernel
    have hspeedUnits : 2 ^ unitExponent ≤ 100 * units p := by
      have hunit : (0 : ℚ) < 2 ^ unitExponent := pow_pos (by norm_num) _
      rw [rational?_finite, Option.some.injEq] at hr
      rw [← hr, div_le_div_iff₀ (by norm_num) hunit, one_mul, mul_comm] at h
      exact_mod_cast h
    have hunit := Nat.two_pow_pos unitExponent
    have heach := (placeUnits_strictMono (show 0 < 53 by decide)).monotone (hle (1022 * 2 ^ 52 + 2 ^ 49) (by omega))
    have hallUnits := (placeUnits_strictMono (show 0 < 53 by decide)).monotone hallLe
    show ¬ (2 ^ 64 - 2 ^ 10) * placeUnits 53 n ≤ placeUnits 53 all.val
    rw [hlast] at hallUnits
    generalize 2 ^ unitExponent = unit at *
    omega
  · rw [ofPlace, dif_neg hfinite]
    rintro ⟨_, _, -, hnone, -⟩
    cases hnone

end RemoteConsole
