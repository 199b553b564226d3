import RemoteConsole.Proofs.Capability.Contract
import RemoteConsole.Proofs.Double.Order
import RemoteConsole.Proofs.Reply.Counts

/-!
# Numbers read as integers

A value is read as an integer when it is a whole number, and what is read is
that number clamped to 64 bits. So the reading is exact if and only if the
number fits. Counts inherit this at the upper end; directions are too small to
be touched by it, and counts of an inventory are only asked for their sign.
-/

namespace RemoteConsole

open Reply (Fits toInt_ofInt_of_fits)

/-! ## Clamping -/

theorem fits_toInt (n : Int64) : Fits n.toInt := by
  have hlow := n.le_toInt
  have hhigh := n.toInt_lt
  unfold Fits
  omega

theorem toInt_clampInt64 {i : Int} (h : Fits i) : (clampInt64 i).toInt = i := by
  unfold clampInt64
  rw [if_neg (Int.not_lt.mpr h.1), if_neg (Int.not_lt.mpr h.2), toInt_ofInt_of_fits h]

theorem toInt_clampInt64_iff {i : Int} : (clampInt64 i).toInt = i ↔ Fits i := by
  constructor
  · intro h
    rw [← h]
    exact fits_toInt _
  · exact toInt_clampInt64

theorem clampInt64_toInt (n : Int64) : clampInt64 n.toInt = n :=
  Int64.toInt_inj.mp (toInt_clampInt64 (fits_toInt n))

/-! ## Whole numbers -/

theorem Double.whole_iff {d : Double} {i : Int} :
    d.isWhole = true ∧ d.truncate? = some i ↔ d.rational? = some (i : ℚ) := by
  rw [rational?_eq_int]
  constructor
  · exact fun ⟨hwhole, hi⟩ => units?_of_isWhole hwhole hi
  · intro hunits
    have htruncate : d.truncate? = some i := by
      rw [truncate?, hunits, Option.map_some, Int.mul_tdiv_cancel]
      exact Int.pow_ne_zero (by decide)
    refine ⟨?_, htruncate⟩
    cases d with
    | nan | infinite => cases hunits
    | finite negative place =>
      have hdvd : (2 : Int) ^ unitExponent ∣ units place := by
        have hsigned : (if negative then -(units place : Int) else units place) = i * 2 ^ unitExponent :=
          Option.some.inj hunits
        split at hsigned
        · exact Int.dvd_neg.mp (hsigned ▸ Int.dvd_mul_left ..)
        · exact hsigned ▸ Int.dvd_mul_left ..
      have hnat : 2 ^ unitExponent ∣ units place := by exact_mod_cast hdvd
      exact beq_iff_eq.mpr (Nat.mod_eq_zero_of_dvd hnat)

namespace Value

def rational? : Value → Option ℚ
  | integer i => some (i.toInt : ℚ)
  | number d => d.rational?
  | _ => none

theorem asInt?_eq_some {v : Value} {n : Int64} :
    v.asInt? = some n ↔ ∃ i : Int, v.rational? = some (i : ℚ) ∧ clampInt64 i = n := by
  cases v with
  | nil | boolean | string | list | map => simp [asInt?, rational?]
  | integer m =>
    constructor
    · intro h
      cases h
      exact ⟨n.toInt, rfl, clampInt64_toInt n⟩
    · rintro ⟨i, hi, rfl⟩
      have hm : m.toInt = i := by exact_mod_cast Option.some.inj hi
      rw [← hm, clampInt64_toInt]
      rfl
  | number d =>
    simp only [rational?, ← Double.whole_iff]
    show (if d.isWhole = true then d.truncate?.map clampInt64 else none) = some n ↔ _
    constructor
    · intro h
      split at h
      next hwhole =>
        obtain ⟨i, hi, hn⟩ := Option.map_eq_some_iff.mp h
        exact ⟨i, ⟨hwhole, hi⟩, hn⟩
      next => cases h
    · rintro ⟨i, ⟨hwhole, hi⟩, rfl⟩
      rw [if_pos hwhole, hi, Option.map_some]

theorem rational?_unique {v : Value} {i j : Int} (hi : v.rational? = some (i : ℚ)) (hj : v.rational? = some (j : ℚ)) :
    i = j := by
  rw [hi] at hj
  exact_mod_cast Option.some.inj hj

theorem reads_exactly_iff {v : Value} {i : Int} (hi : v.rational? = some (i : ℚ)) :
    v.rational? = some ((clampInt64 i).toInt : ℚ) ↔ Fits i := by
  rw [← toInt_clampInt64_iff]
  constructor
  · exact fun h => rational?_unique h hi
  · exact fun h => by rw [h]; exact hi

end Value

/-! ## What reads integers -/

theorem Args.count_eq_ok {name : String} {args : List Value} {index : Nat} {what : String} {v : Value} {n : Int64}
    (hv : args[index]? = some v) :
    count name args index what = .ok n ↔ ∃ i : Int, v.rational? = some (i : ℚ) ∧ 0 ≤ i ∧ clampInt64 i = n := by
  have hread : count name args index what = .ok n ↔ v.asInt? = some n ∧ 0 ≤ n.toInt := by
    unfold count
    rw [hv, Option.bind_some]
    split
    next m h =>
      obtain ⟨hm, hpos⟩ := Option.filter_eq_some_iff.mp h
      rw [hm, Except.ok.injEq, Option.some.injEq]
      refine ⟨fun hmn => ⟨hmn, hmn ▸ of_decide_eq_true hpos⟩, And.left⟩
    next h =>
      refine ⟨nofun, fun ⟨hn, hpos⟩ => ?_⟩
      rw [hn, Option.filter_some, if_pos (decide_eq_true hpos)] at h
      exact absurd h (Option.some_ne_none n)
  rw [hread, Value.asInt?_eq_some]
  constructor
  · rintro ⟨⟨i, hi, rfl⟩, hpos⟩
    exact ⟨i, hi, (clampInt64_nonneg_iff i).mp hpos, rfl⟩
  · rintro ⟨i, hi, hpos, rfl⟩
    exact ⟨⟨i, hi, rfl⟩, (clampInt64_nonneg_iff i).mpr hpos⟩

namespace Direction

theorem get_all_toNat (d : Direction) (h : d.toNat < all.length) : all.get ⟨d.toNat, h⟩ = d := by
  cases d <;> rfl

theorem toNat_get_all : ∀ i : Fin all.length, (all.get i).toNat = i.val := by
  decide

theorem clampInt64_between {i : Int} : 0 ≤ (clampInt64 i).toInt ∧ (clampInt64 i).toInt ≤ 7 ↔ 0 ≤ i ∧ i ≤ 7 := by
  rw [clampInt64_nonneg_iff]
  refine and_congr_right fun hpos => ?_
  by_cases hi : i ≤ 9223372036854775807
  · rw [toInt_clampInt64 ⟨by omega, hi⟩]
  · have hmax : clampInt64 i = Int64.maxValue := by
      unfold clampInt64
      rw [if_neg (by omega), if_pos (by omega)]
    rw [hmax]
    exact iff_of_false (by decide) (by omega)

theorem ofValue_eq_ok {v : Value} (hv : v.asString? = none) {d : Direction} :
    ofValue v = .ok d ↔ v.rational? = some (d.toNat : ℚ) := by
  have hread : ofValue v = .ok d ↔ ∃ n, v.asInt? = some n ∧ n.toInt = d.toNat := by
    unfold ofValue
    split
    next s => cases hv
    dsimp only
    cases v.asInt? with
    | none => exact ⟨nofun, nofun⟩
    | some n =>
      simp only [Option.some.injEq, exists_eq_left']
      have hd := d.toNat_le
      split
      next h =>
        rw [Except.ok.injEq]
        constructor
        · rintro rfl
          rw [toNat_get_all, Int.toNat_of_nonneg h.1]
        · intro hn
          have hi : n.toInt.toNat = d.toNat := by omega
          simp only [hi, get_all_toNat]
      next h => exact ⟨nofun, fun hn => absurd ⟨by omega, by omega⟩ h⟩
  rw [hread]
  constructor
  · rintro ⟨n, hn, hd⟩
    obtain ⟨i, hi, rfl⟩ := Value.asInt?_eq_some.mp hn
    have hbetween := clampInt64_between.mp ⟨hd ▸ Int.natCast_nonneg _, hd ▸ by exact_mod_cast d.toNat_le⟩
    rw [toInt_clampInt64 ⟨by omega, by omega⟩] at hd
    rw [hi, hd]
    rfl
  · intro hd
    have hle := d.toNat_le
    refine ⟨clampInt64 d.toNat, Value.asInt?_eq_some.mpr ⟨d.toNat, by exact_mod_cast hd, rfl⟩, ?_⟩
    exact toInt_clampInt64 ⟨by omega, by omega⟩

end Direction

namespace Tool

theorem badCount?_eq_none {items : List (String × Value)} :
    badCount? items = none ↔ ∀ e ∈ items, ∃ n : Nat, e.2.rational? = some (n : ℚ) := by
  have hgood (v : Value) : ((v.asInt?.map fun n => decide (0 ≤ n.toInt)).getD false) = true ↔
      ∃ n : Nat, v.rational? = some (n : ℚ) := by
    constructor
    · intro h
      cases hread : v.asInt? with
      | none => simp [hread] at h
      | some m =>
        obtain ⟨i, hi, rfl⟩ := Value.asInt?_eq_some.mp hread
        have hpos : 0 ≤ (clampInt64 i).toInt := by simpa [hread] using h
        obtain ⟨n, rfl⟩ := Int.eq_ofNat_of_zero_le ((clampInt64_nonneg_iff i).mp hpos)
        exact ⟨n, by exact_mod_cast hi⟩
    · rintro ⟨n, hn⟩
      have hread : v.asInt? = some (clampInt64 n) := Value.asInt?_eq_some.mpr ⟨n, by exact_mod_cast hn, rfl⟩
      have hpos := (clampInt64_nonneg_iff n).mpr (Int.natCast_nonneg n)
      simp [hread, hpos]
  unfold badCount?
  rw [Option.map_eq_none_iff, List.find?_eq_none]
  simp only [Bool.not_eq_true', Bool.not_eq_false, hgood]

theorem setInventoryArgs_eq_ok {name : String} {items : List (String × Value)} :
    setInventoryArgs name [.map items] = .ok [.map items] ↔ badCount? items = none := by
  unfold setInventoryArgs
  simp only
  split
  next item h => exact ⟨nofun, fun hnone => by rw [hnone] at h; cases h⟩
  next h => exact iff_of_true rfl h

end Tool

/-- **Integers are read exactly if and only if they fit.** Every whole number is read as an integer, and the reading is
the number itself unless it lies beyond 64 bits. A count differs from what was passed just when that is too large; a
direction never does; and an inventory is handed over as it is just when all its counts are whole and not negative,
however large. -/
theorem Value.integer_exact_iff (v : Value) :
    (v.asInt?.isSome = true ↔ ∃ n : Int, v.rational? = some (n : ℚ)) ∧
    ((∀ i, v.asInt? = some i → v.rational? = some (i.toInt : ℚ)) ↔ ∀ n : Int, v.rational? = some (n : ℚ) → Fits n) ∧
    (∀ name args index what, args[index]? = some v →
      ((∀ i, Args.count name args index what = .ok i → v.rational? = some (i.toInt : ℚ)) ↔
        ∀ n : Int, v.rational? = some (n : ℚ) → n ≤ 9223372036854775807)) ∧
    (v.asString? = none → ∀ d, Direction.ofValue v = .ok d ↔ v.rational? = some (d.toNat : ℚ)) ∧
    ∀ name items, Tool.setInventoryArgs name [.map items] = .ok [.map items] ↔
      ∀ e ∈ items, ∃ n : Nat, e.2.rational? = some (n : ℚ) := by
  refine ⟨?_, ⟨fun h n hn => ?_, fun h i hi => ?_⟩, fun name args index what hv => ⟨fun h n hn => ?_, fun h i hi => ?_⟩,
    fun hv d => Direction.ofValue_eq_ok hv, fun name items => ?_⟩
  · rw [Option.isSome_iff_exists]
    simp only [asInt?_eq_some]
    exact ⟨fun ⟨_, n, hn, _⟩ => ⟨n, hn⟩, fun ⟨n, hn⟩ => ⟨_, n, hn, rfl⟩⟩
  · exact (reads_exactly_iff hn).mp (h _ (asInt?_eq_some.mpr ⟨n, hn, rfl⟩))
  · obtain ⟨n, hn, rfl⟩ := asInt?_eq_some.mp hi
    exact (reads_exactly_iff hn).mpr (h n hn)
  · -- a negative number is refused whatever its size
    rcases Int.le_total n 0 with hneg | hpos
    · omega
    · exact ((reads_exactly_iff hn).mp (h _ ((Args.count_eq_ok hv).mpr ⟨n, hn, hpos, rfl⟩))).2
  · obtain ⟨n, hn, hpos, rfl⟩ := (Args.count_eq_ok hv).mp hi
    exact (reads_exactly_iff hn).mpr ⟨by omega, h n hn⟩
  · rw [Tool.setInventoryArgs_eq_ok, Tool.badCount?_eq_none]

/-- The least power of two that does not fit is read, and counted, as one less. -/
theorem Value.integer_clamped :
    let v : Value := .number (Double.ofInt (2 ^ 63))
    v.rational? = some (2 ^ 63 : ℚ) ∧ v.asInt? = some 9223372036854775807 ∧
      (Args.count "sleep" [v] 0 "ticks").toOption = some 9223372036854775807 ∧
      ¬ ∀ i, v.asInt? = some i → v.rational? = some (i.toInt : ℚ) := by
  intro v
  have hrational : v.rational? = some ((2 ^ 63 : Int) : ℚ) := by
    refine Double.whole_iff.mp ?_
    decide +kernel
  have hread : v.asInt? = some 9223372036854775807 := by decide +kernel
  refine ⟨by exact_mod_cast hrational, hread, by decide +kernel, fun h => ?_⟩
  have hsame := rational?_unique hrational (h _ hread)
  exact absurd hsame (by decide)

end RemoteConsole
