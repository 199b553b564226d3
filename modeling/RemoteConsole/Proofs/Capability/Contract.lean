import RemoteConsole.Proofs.Session.Body

/-!
# What a tool may hand over

Every tool has a contract for the values that it hands to the remote side. Its check lets only such
values through, and what it does not let through it refuses with an invalid argument.
-/

namespace RemoteConsole

variable {α β : Type}

/-! ## Checks -/

/-- What comes through the checks of a capability has the property; anything else is refused. -/
abbrev Args.Checks (name : String) : (α → Prop) → Except ControlError α → Prop :=
  Checked fun e => ∃ message, e = .invalidArgument name message

namespace Args

variable {name : String} {Q : α → Prop}

theorem checks_refuse (message : String) : Checks name Q (refuse name message : Except ControlError α) :=
  ⟨message, rfl⟩

theorem checks_arity (args : List Value) (least most : Nat) :
    Checks name (fun _ => least ≤ args.length ∧ args.length ≤ most) (arity name args least most) := by
  cases h : arity name args least most with
  | ok u => exact length_of_arity h
  | error e =>
    unfold arity at h
    split at h
    · cases h
      exact checks_refuse _
    · cases h

theorem checks_number (args : List Value) (index : Nat) (what : String) :
    Checks name (fun x => x.isFinite = true) (number name args index what) := by
  unfold number
  split
  next x h => exact (Option.filter_eq_some_iff.mp h).2
  next => exact checks_refuse _

theorem checks_text (args : List Value) (index : Nat) (what : String) :
    Checks name (· ≠ "") (text name args index what) := by
  unfold text
  split
  next s h => exact bne_iff_ne.mp (Option.filter_eq_some_iff.mp h).2
  next => exact checks_refuse _

theorem checks_count (args : List Value) (index : Nat) (what : String) :
    Checks name (fun n => 0 ≤ n.toInt) (count name args index what) := by
  unfold count
  split
  next n h =>
    show 0 ≤ n.toInt
    exact of_decide_eq_true (Option.filter_eq_some_iff.mp h).2
  next => exact checks_refuse _

end Args

/-! ## Directions -/

theorem Direction.toInt_ofNat_toNat (d : Direction) : (Int64.ofInt d.toNat).toInt = d.toNat := by
  cases d <;> rfl

theorem Direction.toNat_le (d : Direction) : d.toNat ≤ 7 := by
  cases d <;> decide

theorem Direction.toNat_of_isAxial {d : Direction} (h : d.isAxial = true) : d.toNat ∈ [0, 2, 4, 6] := by
  cases d with
  | north | east | south | west => decide
  | northEast | southEast | southWest | northWest => cases h

/-! ## Counts -/

def Value.IsCount : Value → Prop
  | integer i => 0 ≤ i.toInt
  | number n => ∃ whole : Nat, n.units? = some ((whole : Int) * 2 ^ Double.unitExponent)
  | _ => False

theorem clampInt64_nonneg_iff (i : Int) : 0 ≤ (clampInt64 i).toInt ↔ 0 ≤ i := by
  unfold clampInt64
  by_cases hlow : i < -9223372036854775808
  · rw [if_pos hlow]
    have : (Int64.minValue).toInt = -9223372036854775808 := rfl
    omega
  by_cases hhigh : i > 9223372036854775807
  · rw [if_neg hlow, if_pos hhigh]
    have : (Int64.maxValue).toInt = 9223372036854775807 := rfl
    omega
  · rw [if_neg hlow, if_neg hhigh, Int64.toInt_ofInt_of_le (by omega) (by omega)]

theorem Double.units?_of_isWhole {d : Double} {i : Int} (h : d.isWhole = true) (hi : d.truncate? = some i) :
    d.units? = some (i * 2 ^ unitExponent) := by
  cases d with
  | nan | infinite => cases h
  | finite negative place =>
    have hdvd : (2 : Int) ^ unitExponent ∣ units place := by
      have hnat := Nat.dvd_of_mod_eq_zero (beq_iff_eq.mp h)
      generalize unitExponent = k at hnat ⊢
      exact_mod_cast hnat
    rw [truncate?, units?, Option.map_some, Option.some.injEq] at hi
    rw [units?, ← hi, Option.some.injEq]
    split
    · exact (Int.tdiv_mul_cancel (Int.dvd_neg.mpr hdvd)).symm
    · exact (Int.tdiv_mul_cancel hdvd).symm

theorem Value.isCount_of_asInt? {v : Value} {n : Int64} (h : v.asInt? = some n) (hn : 0 ≤ n.toInt) : v.IsCount := by
  cases v with
  | nil | boolean | string | list | map => cases h
  | integer i => cases h; exact hn
  | number d =>
    have h : (if d.isWhole = true then d.truncate?.map clampInt64 else none) = some n := h
    split at h
    next hwhole =>
      obtain ⟨i, hi, rfl⟩ := Option.map_eq_some_iff.mp h
      obtain ⟨whole, rfl⟩ := Int.eq_ofNat_of_zero_le ((clampInt64_nonneg_iff i).mp hn)
      exact ⟨whole, Double.units?_of_isWhole hwhole hi⟩
    next => cases h

/-! ## Contracts -/

/-- What the remote side of a tool relies on. -/
def Tool.Contract : Tool → List Value → Prop
  | moveTo, [.number x, .number y] => x.isFinite = true ∧ y.isFinite = true
  | pickUpEntity, [.string entity, .number x, .number y] => entity ≠ "" ∧ x.isFinite = true ∧ y.isFinite = true
  | placeEntity, [.string entity, .number x, .number y, .integer direction] =>
    entity ≠ "" ∧ x.isFinite = true ∧ y.isFinite = true ∧ 0 ≤ direction.toInt ∧ direction.toInt ≤ 7
  | placeNextTo, [.string entity, .number x, .number y, .integer direction, .integer spacing] =>
    entity ≠ "" ∧ x.isFinite = true ∧ y.isFinite = true ∧ direction.toInt ∈ [0, 2, 4, 6] ∧ 0 ≤ spacing.toInt
  | setInventory, [.list items] => items = []
  | setInventory, [.map items] => ∀ e ∈ items, e.2.IsCount
  | inspectInventory, actuals | sleep, actuals | clearEntities, actuals => actuals = []
  | _, _ => False

namespace Tool

open Args (Checks checks_arity checks_number checks_text checks_count checks_refuse)

variable {name : String} {args : List Value}

theorem checks_noArgs : Checks name (· = []) (noArgs name args) :=
  (checks_arity args 0 0).bind fun _ _ => rfl

theorem checks_directionArg (v : Value) : Checks name (fun _ => True) (directionArg name v) := by
  unfold directionArg
  cases Direction.ofValue v with
  | ok d => trivial
  | error message => exact checks_refuse message

theorem checks_moveToArgs : Checks name moveTo.Contract (moveToArgs name args) := by
  refine (checks_arity args 2 2).bind fun _ _ => ?_
  refine (checks_number args 0 "x").bind fun x hx => ?_
  exact (checks_number args 1 "y").bind fun y hy => ⟨hx, hy⟩

theorem checks_pickUpArgs : Checks name pickUpEntity.Contract (pickUpArgs name args) := by
  refine (checks_arity args 3 3).bind fun _ _ => ?_
  refine (checks_text args 0 "entity name").bind fun entity hentity => ?_
  refine (checks_number args 1 "x").bind fun x hx => ?_
  exact (checks_number args 2 "y").bind fun y hy => ⟨hentity, hx, hy⟩

theorem checks_placeEntityArgs : Checks name placeEntity.Contract (placeEntityArgs name args) := by
  refine (checks_arity args 3 4).bind fun _ _ => ?_
  refine (checks_text args 0 "entity name").bind fun entity hentity => ?_
  refine (checks_number args 1 "x").bind fun x hx => ?_
  refine (checks_number args 2 "y").bind fun y hy => ?_
  have hrest (d : Direction) : Checks name placeEntity.Contract
      (pure [.string entity, .number x, .number y, .ofNat d.toNat]) := by
    refine ⟨hentity, hx, hy, ?_⟩
    have := d.toNat_le
    rw [d.toInt_ofNat_toNat]
    omega
  split
  · exact hrest .north
  · exact (checks_directionArg _).bind fun d _ => hrest d

theorem checks_placeNextToArgs : Checks name placeNextTo.Contract (placeNextToArgs name args) := by
  have harity : Checks name _ (Args.arity name args 4 5) := checks_arity args 4 5
  unfold placeNextToArgs
  split
  next e h => rwa [h] at harity
  refine (checks_text args 0 "entity name").bind fun entity hentity => ?_
  refine (checks_number args 1 "reference x").bind fun x hx => ?_
  refine (checks_number args 2 "reference y").bind fun y hy => ?_
  refine (checks_directionArg _).bind fun d _ => ?_
  have hrest (spacing : Int64) (hspacing : 0 ≤ spacing.toInt) : Checks name placeNextTo.Contract
      (if d.isAxial then pure [.string entity, .number x, .number y, .ofNat d.toNat, .integer spacing]
        else Args.refuse name "direction must be north, east, south or west") := by
    split
    next haxial =>
      refine ⟨hentity, hx, hy, ?_, hspacing⟩
      have := d.toNat_of_isAxial haxial
      rw [d.toInt_ofNat_toNat]
      simp only [List.mem_cons, List.not_mem_nil, or_false] at this ⊢
      omega
    next => exact checks_refuse _
  dsimp only
  split
  · exact hrest 0 (Int.le_refl 0)
  · exact (checks_count args 4 "spacing").bind hrest

theorem isCount_of_badCount?_none {items : List (String × Value)} (h : badCount? items = none) :
    ∀ e ∈ items, e.2.IsCount := by
  intro e he
  have hgood := List.find?_eq_none.mp (Option.map_eq_none_iff.mp h) e he
  cases hint : e.2.asInt? with
  | none => simp [hint] at hgood
  | some n => exact Value.isCount_of_asInt? hint (by simpa [hint] using hgood)

theorem checks_setInventoryArgs : Checks name setInventory.Contract (setInventoryArgs name args) := by
  unfold setInventoryArgs
  split
  next items =>
    split
    next => exact checks_refuse _
    next h => exact isCount_of_badCount?_none h
  next => rfl
  next => exact checks_refuse _

/-- **A tool hands over what its contract allows**, or refuses the arguments. -/
theorem checks_actuals (tool : Tool) (name : String) (args : List Value) :
    Checks name tool.Contract (tool.actuals name args) := by
  cases tool with
  | moveTo => exact checks_moveToArgs
  | inspectInventory => exact checks_noArgs
  | placeEntity => exact checks_placeEntityArgs
  | placeNextTo => exact checks_placeNextToArgs
  | pickUpEntity => exact checks_pickUpArgs
  | sleep => exact (checks_arity args 1 1).bind fun _ _ => (checks_count args 0 "ticks").bind fun _ _ => rfl
  | clearEntities => exact checks_noArgs
  | setInventory => exact checks_setInventoryArgs

end Tool

end RemoteConsole
