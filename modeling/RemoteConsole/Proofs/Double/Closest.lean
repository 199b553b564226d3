import Mathlib.Algebra.Order.AbsoluteValue.Basic
import Mathlib.Tactic.Linarith
import RemoteConsole.Proofs.Double.Order

/-!
# Rounding is to the nearest double

A quotient of units is rounded to a whole number of steps of its binade, to the nearest
of them. The units of any other place are such steps as well, or they lie below the
binade, and then its first place is nearer. Beyond the last binade there is no double
to be nearest: from half a step behind the largest on, a number rounds to an infinity.
-/

namespace RemoteConsole

/-- How far so many units are from a quotient of units, in parts of its denominator. -/
def distance (num den units : Nat) : Nat := ((units * den : Nat) - num : Int).natAbs

/-! ## Whole numbers -/

theorem roundHalfEven_distance (num : Nat) {den : Nat} (hden : 0 < den) :
    2 * distance num den (roundHalfEven num den) ≤ den ∧
      (2 * distance num den (roundHalfEven num den) = den → roundHalfEven num den % 2 = 0) := by
  have hnum := Nat.div_add_mod num den
  have hmod := Nat.mod_lt num hden
  have hup : (num / den + 1) * den = den * (num / den) + den := by ring
  have hdown : num / den * den = den * (num / den) := Nat.mul_comm ..
  rw [roundHalfEven_eq, distance]
  split_ifs with hlow hhigh
  · rw [hdown]; omega
  · rw [hup]; omega
  · rcases Nat.mod_two_eq_zero_or_one (num / den) with h | h
    · rw [h, Nat.add_zero, hdown]; omega
    · rw [h, hup]; omega

theorem den_le_distance_add (num den : Nat) {k q : Nat} (h : k ≠ q) : den ≤ distance num den k + distance num den q := by
  unfold distance
  rcases Nat.lt_or_gt_of_ne h with h | h
  · have hstep := Nat.mul_le_mul_right den (Nat.succ_le_of_lt h)
    rw [Nat.succ_mul] at hstep
    omega
  · have hstep := Nat.mul_le_mul_right den (Nat.succ_le_of_lt h)
    rw [Nat.succ_mul] at hstep
    omega

theorem roundHalfEven_closest (num : Nat) {den : Nat} (hden : 0 < den) (k : Nat) :
    distance num den (roundHalfEven num den) ≤ distance num den k ∧
      (distance num den (roundHalfEven num den) = distance num den k → k ≠ roundHalfEven num den →
        roundHalfEven num den % 2 = 0) := by
  obtain ⟨hhalf, htie⟩ := roundHalfEven_distance num hden
  constructor
  · by_cases hk : k = roundHalfEven num den
    · rw [hk]
    · have := den_le_distance_add num den hk
      omega
  · intro heq hk
    have := den_le_distance_add num den hk
    exact htie (by omega)

/-! ## Places -/

theorem placeUnits_binade {k b m : Nat} (hm : m ≤ 2 ^ (k + 1)) (hb : 0 < b → 2 ^ k ≤ m) :
    placeUnits (k + 1) (b * 2 ^ k + m) = m * 2 ^ b := by
  have hk := Nat.two_pow_pos k
  have hdouble : 2 ^ (k + 1) = 2 * 2 ^ k := Nat.pow_succ'
  have hadd (a r : Nat) (hr : r < 2 ^ k) : (a * 2 ^ k + r) / 2 ^ k = a ∧ (a * 2 ^ k + r) % 2 ^ k = r := by
    rw [Nat.mul_comm, Nat.mul_add_div hk, Nat.mul_add_mod, Nat.div_eq_of_lt hr, Nat.mod_eq_of_lt hr]
    exact ⟨rfl, rfl⟩
  unfold placeUnits
  rw [Nat.add_sub_cancel]
  rcases Nat.lt_or_ge m (2 ^ k) with hlow | hlow
  · have hb0 : b = 0 := by
      by_contra hne
      have := hb (by omega)
      omega
    subst hb0
    rw [if_pos (by omega), Nat.zero_mul, Nat.zero_add, Nat.pow_zero, Nat.mul_one]
  rcases Nat.lt_or_eq_of_le hm with hhigh | htop
  · obtain ⟨r, rfl⟩ := Nat.exists_eq_add_of_le hlow
    have hplace : b * 2 ^ k + (2 ^ k + r) = (b + 1) * 2 ^ k + r := by ring
    obtain ⟨hdiv, hmod⟩ := hadd (b + 1) r (by omega)
    rw [hplace, hdiv, hmod]
    split
    next hsmall =>
      have hb0 : b = 0 := by
        by_contra hne
        have := Nat.mul_le_mul_right (2 ^ k) (show 2 ≤ b + 1 by omega)
        omega
      subst hb0
      ring
    · rfl
  · subst htop
    have hplace : b * 2 ^ k + 2 ^ (k + 1) = (b + 2) * 2 ^ k + 0 := by rw [hdouble]; ring
    obtain ⟨hdiv, hmod⟩ := hadd (b + 2) 0 hk
    have hge := Nat.mul_le_mul_right (2 ^ k) (show 2 ≤ b + 2 by omega)
    rw [hplace, hdiv, hmod, if_neg (by omega), Nat.add_zero, Nat.add_sub_assoc (by omega), Nat.pow_succ, Nat.pow_succ]
    ring

theorem placeUnits_grid (k b place : Nat) :
    (∃ n, placeUnits (k + 1) place = n * 2 ^ b) ∨ (0 < b ∧ placeUnits (k + 1) place < 2 ^ (k + b)) := by
  have hk := Nat.two_pow_pos k
  unfold placeUnits
  rw [Nat.add_sub_cancel]
  rcases Nat.eq_zero_or_pos b with rfl | hb
  · exact .inl ⟨_, (by rw [Nat.pow_zero, Nat.mul_one])⟩
  split
  next hsmall => exact .inr ⟨hb, Nat.lt_of_lt_of_le hsmall (Nat.pow_le_pow_right (by omega) (by omega))⟩
  next hlarge =>
    rcases Nat.lt_or_ge (place / 2 ^ k - 1) b with hlow | hhigh
    · right
      have hmod := Nat.mod_lt place hk
      refine ⟨hb, ?_⟩
      calc (2 ^ k + place % 2 ^ k) * 2 ^ (place / 2 ^ k - 1)
          < (2 ^ k + 2 ^ k) * 2 ^ (place / 2 ^ k - 1) := Nat.mul_lt_mul_of_pos_right (by omega) (Nat.two_pow_pos _)
        _ = 2 ^ (k + (place / 2 ^ k - 1 + 1)) := by rw [← Nat.two_mul, ← Nat.pow_succ', ← Nat.pow_add]; congr 1; omega
        _ ≤ 2 ^ (k + b) := Nat.pow_le_pow_right (by omega) (by omega)
    · left
      refine ⟨(2 ^ k + place % 2 ^ k) * 2 ^ (place / 2 ^ k - 1 - b), ?_⟩
      rw [Nat.mul_assoc, ← Nat.pow_add]
      congr 2
      omega

theorem distance_step (num den n b : Nat) : distance num den (n * 2 ^ b) = distance num (den * 2 ^ b) n := by
  unfold distance
  rw [Nat.mul_assoc, Nat.mul_comm (2 ^ b)]

theorem nearestPlace_closest {p : Nat} (num : Nat) {den : Nat} (hp : 1 < p) (hden : 0 < den) (place : Nat) :
    distance num den (placeUnits p (nearestPlace p num den)) ≤ distance num den (placeUnits p place) ∧
      (distance num den (placeUnits p (nearestPlace p num den)) = distance num den (placeUnits p place) →
        place ≠ nearestPlace p num den → nearestPlace p num den % 2 = 0) := by
  obtain ⟨k, rfl⟩ : ∃ k, p = k + 1 := ⟨p - 1, by omega⟩
  let b := binade (k + 1) num den
  let m := roundHalfEven num (den * 2 ^ b)
  have hplace : nearestPlace (k + 1) num den = b * 2 ^ k + m := nearestPlace_eq ..
  have hunits : placeUnits (k + 1) (nearestPlace (k + 1) num den) = m * 2 ^ b := by
    rw [hplace]
    exact placeUnits_binade (roundHalfEven_binade_le num den (by omega)) fun hb => le_roundHalfEven_binade hb
  have hstep : 0 < den * 2 ^ b := Nat.mul_pos hden (Nat.two_pow_pos b)
  have heven : m % 2 = 0 → nearestPlace (k + 1) num den % 2 = 0 := by
    intro hm
    obtain ⟨j, rfl⟩ : ∃ j, k = j + 1 := ⟨k - 1, by omega⟩
    rw [hplace, Nat.pow_succ, ← Nat.mul_assoc]
    omega
  rw [hunits, distance_step]
  rcases placeUnits_grid k b place with ⟨n, hn⟩ | ⟨hb, hlow⟩
  · rw [hn, distance_step]
    obtain ⟨hle, htie⟩ := roundHalfEven_closest num hstep n
    refine ⟨hle, fun heq hne => heven (htie heq fun hnm => hne ?_)⟩
    have hsame : placeUnits (k + 1) place = placeUnits (k + 1) (nearestPlace (k + 1) num den) := by
      rw [hn, hunits, hnm]
    exact (placeUnits_strictMono (by omega)).injective hsame
  · -- the first place of the binade lies between
    have hfirst : 2 ^ (k + b) ≤ num / den := two_pow_le_of_binade hb
    have hnum : 2 ^ (k + b) * den ≤ num := (Nat.le_div_iff_mul_le hden).mp hfirst
    obtain ⟨hle, -⟩ := roundHalfEven_closest num hstep (2 ^ k)
    rw [← distance_step num den (2 ^ k), ← Nat.pow_add] at hle
    have hlt : distance num den (2 ^ (k + b)) < distance num den (placeUnits (k + 1) place) := by
      have := Nat.mul_lt_mul_of_pos_right hlow hden
      unfold distance
      omega
    change distance num (den * 2 ^ b) m ≤ _ at hle
    refine ⟨by omega, fun heq => by omega⟩

/-! ## Doubles -/

namespace Double

/-- The double that a number rounds to: the nearest one, and of two equally near the one at an even place. From half a
step beyond the largest double on, it is an infinity. -/
inductive RoundsTo (x : ℚ) : Double → Prop
  | finite {negative : Bool} {place : Fin (2047 * 2 ^ 52)} {r : ℚ} :
    |x| < 2 ^ 1024 - 2 ^ 970 → (finite negative place).rational? = some r →
    (∀ d q, rational? d = some q → |x - r| ≤ |x - q|) →
    (∀ d q, rational? d = some q → |x - q| = |x - r| → q ≠ r → place.val % 2 = 0) →
    RoundsTo x (finite negative place)
  | infinite {negative : Bool} :
    2 ^ 1024 - 2 ^ 970 ≤ |x| → (negative = true ↔ x < 0) → RoundsTo x (infinite negative)

def withSign (negative : Bool) (y : ℚ) : ℚ := if negative then -y else y

theorem abs_withSign (negative : Bool) {y : ℚ} (hy : 0 ≤ y) : |withSign negative y| = y := by
  cases negative
  · exact abs_of_nonneg hy
  · exact (abs_neg y).trans (abs_of_nonneg hy)

theorem withSign_sub (negative : Bool) (y z : ℚ) : |withSign negative y - withSign negative z| = |y - z| := by
  cases negative
  · rfl
  · rw [withSign, withSign, if_pos rfl, if_pos rfl, ← neg_sub', abs_neg]

theorem rational?_place (negative : Bool) (place : Fin (2047 * 2 ^ 52)) :
    (finite negative place).rational? = some (withSign negative (units place / 2 ^ unitExponent)) := by
  cases negative
  · exact rational?_finite place
  · simp [rational?, units?, withSign, neg_div]

theorem exists_place {d : Double} {q : ℚ} (h : d.rational? = some q) :
    ∃ negative place, d = finite negative place ∧ q = withSign negative (units place / 2 ^ unitExponent) := by
  cases d with
  | nan | infinite => cases h
  | finite negative place =>
    rw [rational?_place] at h
    exact ⟨negative, place, rfl, (Option.some.inj h).symm⟩

theorem abs_sub_units {num den : Nat} (hden : 0 < den) (units : Nat) :
    |(num / den : ℚ) - units / 2 ^ unitExponent| =
      distance (num * 2 ^ unitExponent) den units / (den * 2 ^ unitExponent) := by
  have hd : (0 : ℚ) < den := by exact_mod_cast hden
  have hscale : (0 : ℚ) < den * 2 ^ unitExponent := by positivity
  have hdiff : (num / den : ℚ) - units / 2 ^ unitExponent =
      -((((units * den : Nat) - (num * 2 ^ unitExponent : Nat) : Int) : ℚ) / (den * 2 ^ unitExponent)) := by
    push_cast
    field_simp
    ring
  rw [hdiff, abs_neg, abs_div, abs_of_pos hscale, distance, Nat.cast_natAbs, Int.cast_abs]

theorem units_lt_iff {m n u num den : Nat} (hmn : m ≤ n) (hden : 0 < den) :
    2 * (num * 2 ^ u) < (2 ^ (n + (u + 1)) - 2 ^ (m + (u + 1))) * den ↔ (num / den : ℚ) < 2 ^ n - 2 ^ m := by
  have hd : (0 : ℚ) < den := by exact_mod_cast hden
  have hbound : 2 ^ m ≤ 2 ^ n := Nat.pow_le_pow_right Nat.two_pos hmn
  have hscale : (2 ^ (n + (u + 1)) - 2 ^ (m + (u + 1))) * den = (2 ^ n - 2 ^ m) * den * 2 ^ (u + 1) := by
    rw [Nat.pow_add 2 n, Nat.pow_add 2 m, ← Nat.sub_mul, Nat.mul_right_comm]
  have hnum : 2 * (num * 2 ^ u) = num * 2 ^ (u + 1) := by rw [Nat.pow_succ]; ring
  rw [hscale, hnum, Nat.mul_lt_mul_right (Nat.two_pow_pos _), div_lt_iff₀ hd, ← Nat.cast_lt (α := ℚ), Nat.cast_mul,
    Nat.cast_sub hbound, Nat.cast_pow, Nat.cast_pow]
  rfl

theorem nearestPlace_lt_end {num den : Nat} (hden : 0 < den) :
    nearestPlace 53 (num * 2 ^ unitExponent) den < 2047 * 2 ^ 52 ↔ (num / den : ℚ) < 2 ^ 1024 - 2 ^ 970 := by
  have hplace := @nearestPlace_lt_iff 53 2098 (num * 2 ^ unitExponent) den (by decide) (by decide) hden
  have hhigh : 2098 + 1 = 1024 + (unitExponent + 1) := rfl
  have hlow : 2098 - 53 = 970 + (unitExponent + 1) := rfl
  rw [hhigh, hlow] at hplace
  exact hplace.trans (units_lt_iff (by decide) hden)

theorem nearest_size {num den : Nat} (hden : 0 < den) {place : Fin (2047 * 2 ^ 52)}
    (hplace : nearestPlace 53 (num * 2 ^ unitExponent) den = place.val) (other : Fin (2047 * 2 ^ 52)) :
    |(num / den : ℚ) - units place / 2 ^ unitExponent| ≤ |(num / den : ℚ) - units other / 2 ^ unitExponent| ∧
      (|(num / den : ℚ) - units other / 2 ^ unitExponent| = |(num / den : ℚ) - units place / 2 ^ unitExponent| →
        other ≠ place → place.val % 2 = 0) := by
  have hscale : (0 : ℚ) < den * 2 ^ unitExponent := mul_pos (by exact_mod_cast hden) (by positivity)
  obtain ⟨hle, htie⟩ := nearestPlace_closest (p := 53) (num * 2 ^ unitExponent) (by decide) hden other.val
  rw [hplace] at hle htie
  rw [abs_sub_units hden, abs_sub_units hden]
  constructor
  · exact (div_le_div_iff_of_pos_right hscale).mpr (by exact_mod_cast hle)
  · intro heq hne
    have hsame := (div_left_inj' hscale.ne').mp heq
    exact htie (by exact_mod_cast hsame.symm) fun hval => hne (Fin.ext hval)

theorem eq_of_abs_sub_eq {x q r : ℚ} (hsize : |q| = |r|) (hfar : |x - q| = |x - r|) (hzero : x = 0 → r = 0) : q = r := by
  rcases abs_eq_abs.mp hsize with h | h
  · exact h
  · subst h
    rcases abs_eq_abs.mp hfar with h | h
    · linarith
    · have hx : x = 0 := by linarith
      rw [hzero hx, neg_zero]

theorem roundsTo_place (negative : Bool) {num den : Nat} (hden : 0 < den) {place : Fin (2047 * 2 ^ 52)}
    (hplace : nearestPlace 53 (num * 2 ^ unitExponent) den = place.val) :
    RoundsTo (withSign negative (num / den)) (finite negative place) := by
  have hy : (0 : ℚ) ≤ num / den := by positivity
  have hunits (p : Fin (2047 * 2 ^ 52)) : (0 : ℚ) ≤ units p / 2 ^ unitExponent := by positivity
  let x := withSign negative (num / den)
  let r := withSign negative (units place / 2 ^ unitExponent)
  have hown : |x - r| = |(num / den : ℚ) - units place / 2 ^ unitExponent| := withSign_sub ..
  -- another double is no closer to the number than its size is to the size of the number
  have hother (sign : Bool) (p : Fin (2047 * 2 ^ 52)) : |(num / den : ℚ) - units p / 2 ^ unitExponent| ≤
      |x - withSign sign (units p / 2 ^ unitExponent)| := by
    have hreverse := abs_abs_sub_abs_le x (withSign sign (units p / 2 ^ unitExponent))
    rwa [abs_withSign _ hy, abs_withSign _ (hunits p)] at hreverse
  have hnearest : ∀ d q, rational? d = some q → |x - r| ≤ |x - q| := by
    intro d q hq
    obtain ⟨sign, p, -, rfl⟩ := exists_place hq
    exact hown.le.trans ((nearest_size hden hplace p).1.trans (hother sign p))
  refine .finite ?_ (rational?_place negative place) hnearest ?_
  · rw [abs_withSign _ hy]
    exact (nearestPlace_lt_end hden).mp (hplace ▸ place.isLt)
  · intro d q hq heq hne
    obtain ⟨sign, p, -, rfl⟩ := exists_place hq
    obtain ⟨hle, htie⟩ := nearest_size hden hplace p
    refine htie (le_antisymm ?_ hle) ?_
    · exact (hother sign p).trans (heq.trans hown).le
    · rintro rfl
      have hsize : |withSign sign (units p / 2 ^ unitExponent)| = |r| := by
        rw [abs_withSign _ (hunits p), abs_withSign _ (hunits p)]
      refine hne (eq_of_abs_sub_eq hsize heq fun hx => ?_)
      have hzero := hnearest _ _ (rational?_place false ⟨0, by decide⟩)
      have hnil : withSign false (units ⟨0, by decide⟩ / 2 ^ unitExponent) = 0 := by simp [withSign, units, placeUnits]
      rw [show x = 0 from hx, hnil] at hzero
      simpa using hzero

/-- **Quotients round to the nearest double.** -/
theorem roundsTo_ofRatio (negative : Bool) (num : Nat) {den : Nat} (hden : 0 < den) :
    RoundsTo (withSign negative (num / den)) (ofRatio negative num den) := by
  rw [ofRatio, ofUnits, ofPlace]
  by_cases hfinite : nearestPlace 53 (num * 2 ^ unitExponent) den < 2047 * 2 ^ 52
  · rw [dif_pos hfinite]
    exact roundsTo_place negative hden rfl
  · rw [dif_neg hfinite]
    have hlarge := not_lt.mp (mt (nearestPlace_lt_end hden).mpr hfinite)
    have hpos : (0 : ℚ) < num / den := lt_of_lt_of_le (sub_pos.mpr (pow_lt_pow_right₀ one_lt_two (by decide))) hlarge
    refine .infinite ?_ ?_
    · rwa [abs_withSign _ hpos.le]
    · cases negative
      · exact iff_of_false (by decide) (not_lt.mpr hpos.le)
      · exact iff_of_true rfl (neg_neg_of_pos hpos)

theorem roundsTo_ofInt (i : Int) : RoundsTo i (ofInt i) := by
  have hrounds := roundsTo_ofRatio (decide (i < 0)) i.natAbs Nat.one_pos
  have hvalue : withSign (decide (i < 0)) (i.natAbs / (1 : Nat)) = i := by
    rw [withSign, Nat.cast_one, div_one, Nat.cast_natAbs]
    by_cases hneg : i < 0
    · simp [hneg, abs_of_neg hneg]
    · simp [hneg, abs_of_nonneg (not_lt.mp hneg)]
  rw [hvalue] at hrounds
  exact hrounds

theorem RoundsTo.isFinite {x : ℚ} {d : Double} (h : RoundsTo x d) (hx : |x| < 2 ^ 1024 - 2 ^ 970) : d.isFinite = true := by
  cases h with
  | finite => rfl
  | infinite hlarge => exact absurd hx (not_lt.mpr hlarge)

theorem isFinite_ofInt {i : Int} (hlow : -2 ^ 63 ≤ i) (hhigh : i < 2 ^ 64) : (ofInt i).isFinite = true := by
  have hsize : |i| ≤ 2 ^ 64 := abs_le.mpr ⟨by omega, by omega⟩
  have hword : |(i : ℚ)| ≤ 2 ^ 64 := by exact_mod_cast hsize
  refine (roundsTo_ofInt i).isFinite (hword.trans_lt ?_)
  rw [lt_sub_iff_add_lt]
  calc (2 : ℚ) ^ 64 + 2 ^ 970
      < 2 ^ 970 + 2 ^ 970 := (add_lt_add_iff_right _).mpr (pow_lt_pow_right₀ one_lt_two (by decide))
    _ = 2 ^ 971 := by rw [← mul_two, ← pow_succ]
    _ < 2 ^ 1024 := pow_lt_pow_right₀ one_lt_two (by decide)

end Double

end RemoteConsole
