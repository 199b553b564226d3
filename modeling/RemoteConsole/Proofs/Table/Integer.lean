import Mathlib.Data.Nat.Digits.Defs
import RemoteConsole.Proofs.Double.Closest
import RemoteConsole.Proofs.Reply.Counts
import RemoteConsole.Proofs.Table.Meaning
import RemoteConsole.Proofs.Table.RoundTrip

/-!
# Integers as written

A number without a point and an exponent denotes an integer, by its digits in one of
two radices and its sign. What fits 64 bits is read as that integer, and a decimal that
does not as the nearest double. A hexadecimal one is read by its digits before its sign
is put to them, so that the least integer of all, whose digits alone do not fit, is
refused together with what is really out of range.
-/

namespace RemoteConsole

open Text
open Reply (Fits toInt_ofInt_of_fits)

namespace Table

inductive Radix where
  | decimal | hexadecimal
deriving DecidableEq

namespace Radix

def base : Radix → Nat
  | decimal => 10
  | hexadecimal => 16

def value (radix : Radix) (digits : List Char) : Nat :=
  Nat.ofDigits radix.base (digits.filterMap hexValue?).reverse

end Radix

def withSign (negative : Bool) (n : Nat) : Int := if negative then -(n : Int) else n

/-- A number that is written without a point and an exponent, and the integer that it denotes. -/
inductive Integral : List Char → Radix → Int → Prop
  | decimal (negative : Bool) {digits : List Char} :
    Digits digits → digits ≠ [] →
    Integral (signed negative digits) .decimal (withSign negative (Radix.decimal.value digits))
  | hexadecimal (negative : Bool) {x : Char} {digits : List Char} :
    x = 'x' ∨ x = 'X' → (∀ c ∈ digits, isHexDigit c = true) → digits ≠ [] →
    Integral (signed negative ('0' :: x :: digits)) .hexadecimal
      (withSign negative (Radix.hexadecimal.value digits))

inductive Fractional : List Char → Prop
  | mk (negative : Bool) {mantissa exponent : List Char} :
    Mantissa mantissa → Exponent exponent → '.' ∈ mantissa ∨ exponent ≠ [] →
    Fractional (signed negative (mantissa ++ exponent))

theorem Atom.integral_or_fractional {text : List Char} (h : Atom text (.number text)) :
    (∃ radix i, Integral text radix i) ∨ Fractional text := by
  generalize hnode : Node.number text = node at h
  cases h with
  | number negative hunsigned =>
    cases hunsigned with
    | hexadecimal hx hdigits hne => exact .inl ⟨_, _, .hexadecimal negative hx hdigits hne⟩
    | decimal hmantissa hexponent =>
      cases hexponent with
      | nil =>
        cases hmantissa with
        | whole hdigits hne =>
          rw [List.append_nil]
          exact .inl ⟨_, _, .decimal negative hdigits hne⟩
        | pointed hintegral hfraction hne =>
          exact .inr (.mk negative (.pointed hintegral hfraction hne) .nil (.inl (by simp)))
      | mk hmark hsign hdigits hne =>
        exact .inr (.mk negative hmantissa (.mk hmark hsign hdigits hne) (.inr (by simp)))
  | _ => cases hnode

theorem Integral.atom {text : List Char} {radix : Radix} {i : Int} (h : Integral text radix i) : Atom text (.number text) := by
  cases h with
  | decimal negative hdigits hne =>
    exact .number negative (by simpa using Unsigned.decimal (.whole hdigits hne) .nil)
  | hexadecimal negative hx hdigits hne => exact .number negative (.hexadecimal hx hdigits hne)

/-! ## Values of digits -/

theorem foldl_eq_ofDigits (base : Nat) {digit : Char → Nat} {s : List Char}
    (h : ∀ c ∈ s, hexValue? c = some (digit c)) :
    s.foldl (fun n c => n * base + digit c) 0 = Nat.ofDigits base (s.filterMap hexValue?).reverse := by
  rw [List.filterMap_congr h, List.filterMap_eq_map', Nat.ofDigits_eq_foldr, List.foldr_reverse, List.foldl_map]
  simp only [Nat.add_comm, Nat.mul_comm, Nat.cast_id]

theorem digitsValue_eq_value {digits : List Char} (h : Digits digits) :
    digitsValue digits = Radix.decimal.value digits :=
  foldl_eq_ofDigits 10 fun c hc => if_pos (h c hc)

theorem hexDigitsValue_eq_value {digits : List Char} (h : ∀ c ∈ digits, isHexDigit c = true) :
    hexDigitsValue digits = Radix.hexadecimal.value digits := by
  refine foldl_eq_ofDigits 16 fun c hc => ?_
  obtain ⟨n, hn⟩ := Option.isSome_iff_exists.mp (h c hc)
  rw [hn]
  rfl

/-! ## Reading -/

theorem fits_iff {i : Int} : -2 ^ 63 ≤ i ∧ i < 2 ^ 63 ↔ Fits i := by
  unfold Fits
  omega

theorem double?_digits (negative : Bool) {digits : List Char} (hd : Digits digits) (hne : digits ≠ []) :
    double? (signed negative digits) = .ok (.number (Double.ofRatio negative (Radix.decimal.value digits) 1)) := by
  let n := Numeral.ofDigits digits hne hd
  have hdigits : n.digits = Radix.decimal.value digits := by
    simp [n, Numeral.digits, Numeral.ofDigits, digitsValue_eq_value hd]
  have hscale : n.scale = 0 := by simp [n, Numeral.scale, Numeral.ofDigits]
  have hread := Double.ofText?_text n negative
  rw [Numeral.text_ofDigits hne hd, hdigits, hscale, Double.ofDecimal_eq] at hread
  simp only [Int.toNat_zero, Int.neg_zero, Nat.pow_zero, Nat.mul_one] at hread
  rw [double?, signed, hread]

theorem numberOf_decimal (negative : Bool) {digits : List Char} (hd : Digits digits) (hne : digits ≠ []) :
    numberOf (signed negative digits) =
      if Fits (withSign negative (Radix.decimal.value digits)) then
        .ok (.integer (Int64.ofInt (withSign negative (Radix.decimal.value digits))))
      else .ok (.number (Double.ofRatio negative (Radix.decimal.value digits) 1)) := by
  have hinteger : readInt64? (signed negative digits) =
      if Fits (withSign negative (Radix.decimal.value digits)) then
        some (Int64.ofInt (withSign negative (Radix.decimal.value digits)))
      else none := by
    rw [← digitsValue_eq_value hd]
    simp only [← fits_iff]
    exact readInt64?_digits negative hne hd
  have hnumber := numberOf_signed negative (Numeral.ofDigits digits hne hd)
  rw [Numeral.text_ofDigits hne hd, no_mark hd, if_neg Bool.false_ne_true, hinteger, double?_digits negative hd hne] at hnumber
  rw [hnumber]
  split_ifs <;> rfl

theorem numberOf_hexadecimal (negative : Bool) {x : Char} {digits : List Char} (hx : x = 'x' ∨ x = 'X')
    (hd : ∀ c ∈ digits, isHexDigit c = true) :
    numberOf (signed negative ('0' :: x :: digits)) =
      if Radix.hexadecimal.value digits < 2 ^ 63 then
        .ok (.integer (Int64.ofInt (withSign negative (Radix.hexadecimal.value digits))))
      else .error (.literal (signed negative ('0' :: x :: digits)) .hexOutOfRange) := by
  have hinteger : hexInteger? negative digits =
      if Radix.hexadecimal.value digits < 2 ^ 63 then
        some (Int64.ofInt (withSign negative (Radix.hexadecimal.value digits)))
      else none := by
    rw [hexInteger?, hexDigitsValue_eq_value hd]
    rfl
  unfold numberOf
  rw [sign_signed_of_ne negative (by decide)]
  rcases hx with rfl | rfl
  all_goals
    simp only [hinteger]
    split_ifs <;> rfl

theorem numberOf_integral {text : List Char} {radix : Radix} {i : Int} (h : Integral text radix i) :
    (Fits i ∧ ¬ (radix = .hexadecimal ∧ i = -9223372036854775808) ∧ numberOf text = .ok (.integer (Int64.ofInt i))) ∨
    (radix = .decimal ∧ ¬ Fits i ∧ ∃ d, Double.RoundsTo i d ∧ numberOf text = .ok (.number d)) ∨
    (radix = .hexadecimal ∧ (¬ Fits i ∨ i = -9223372036854775808) ∧
      numberOf text = .error (.literal text .hexOutOfRange)) := by
  cases h with
  | @decimal negative digits hd hne =>
    rw [numberOf_decimal negative hd hne]
    by_cases hfits : Fits (withSign negative (Radix.decimal.value digits))
    · rw [if_pos hfits]
      exact .inl ⟨hfits, nofun, rfl⟩
    · rw [if_neg hfits]
      have hrounds := Double.roundsTo_ofRatio negative (Radix.decimal.value digits) Nat.one_pos
      have hcast : ((withSign negative (Radix.decimal.value digits) : Int) : ℚ) =
          Double.withSign negative ((Radix.decimal.value digits : ℚ) / (1 : Nat)) := by
        cases negative <;> simp [withSign, Double.withSign]
      exact .inr (.inl ⟨rfl, hfits, _, hcast ▸ hrounds, rfl⟩)
  | @hexadecimal negative x digits hx hd hne =>
    rw [numberOf_hexadecimal negative hx hd]
    unfold Fits withSign
    by_cases hlow : Radix.hexadecimal.value digits < 2 ^ 63
    · rw [if_pos hlow]
      exact .inl ⟨by split <;> omega, by rintro ⟨-, h⟩; split at h <;> omega, rfl⟩
    · rw [if_neg hlow]
      exact .inr (.inr ⟨rfl, by split <;> omega, rfl⟩)

theorem decode_number {s text : List Char} (h : Reply s (.number text)) : decode s = numberOf text := by
  rw [decode, read_of_reply h, Raw.ofNode]
  cases numberOf text with
  | error e => rfl
  | ok v => rfl

/-- **Integers are read exactly where they are read.** Every number of the grammar is fractional or denotes an integer.
The integer is read as itself if and only if it fits 64 bits and is not the least one in hexadecimal digits. A decimal
one that does not fit is read as the double that it rounds to. Only hexadecimal ones are refused: those that do not fit,
and the least one. -/
theorem decode_integer_iff (text : List Char) :
    (Atom text (.number text) → (∃ radix i, Integral text radix i) ∨ Fractional text) ∧
    ∀ s radix i, Reply s (.number text) → Integral text radix i →
      ((∃ n : Int64, decode s = .ok (.integer n) ∧ n.toInt = i) ↔
        Fits i ∧ ¬ (radix = .hexadecimal ∧ i = -9223372036854775808)) ∧
      ((∃ d, decode s = .ok (.number d) ∧ Double.RoundsTo i d) ↔ radix = .decimal ∧ ¬ Fits i) ∧
      (decode s = .error (.literal text .hexOutOfRange) ↔
        radix = .hexadecimal ∧ (¬ Fits i ∨ i = -9223372036854775808)) := by
  refine ⟨Atom.integral_or_fractional, fun s radix i hs hw => ?_⟩
  rw [decode_number hs]
  rcases numberOf_integral hw with ⟨hfits, hread, hnumber⟩ | ⟨rfl, hfits, d, hrounds, hnumber⟩ | ⟨rfl, hrange, hnumber⟩
  · rw [hnumber]
    refine ⟨iff_of_true ⟨_, rfl, toInt_ofInt_of_fits hfits⟩ ⟨hfits, hread⟩, iff_of_false nofun fun h => h.2 hfits,
      iff_of_false nofun ?_⟩
    rintro ⟨hradix, hout | hleast⟩
    · exact hout hfits
    · exact hread ⟨hradix, hleast⟩
  · rw [hnumber]
    exact ⟨iff_of_false nofun fun h => hfits h.1, iff_of_true ⟨d, rfl, hrounds⟩ ⟨rfl, hfits⟩, iff_of_false nofun nofun⟩
  · rw [hnumber]
    refine ⟨iff_of_false nofun fun h => ?_, iff_of_false nofun nofun, iff_of_true rfl ⟨rfl, hrange⟩⟩
    rcases hrange with hout | hleast
    · exact hout h.1
    · exact h.2 ⟨rfl, hleast⟩

theorem decode_past_end :
    Reply "9223372036854775808".toList (.number "9223372036854775808".toList) ∧
    Integral "9223372036854775808".toList .decimal 9223372036854775808 ∧
    ∃ d, decode "9223372036854775808".toList = .ok (.number d) ∧ Double.RoundsTo 9223372036854775808 d := by
  have hintegral : Integral "9223372036854775808".toList .decimal 9223372036854775808 := by
    have hvalue : Radix.decimal.value "9223372036854775808".toList = 9223372036854775808 := by decide +kernel
    have hdigits : Digits "9223372036854775808".toList := List.all_eq_true.mp rfl
    have h := Integral.decimal false hdigits (by decide)
    rwa [hvalue] at h
  have hreply := Reply.of_written (.atom hintegral.atom)
  have hout : ¬ Fits 9223372036854775808 := by decide
  exact ⟨hreply, hintegral, ((decode_integer_iff _).2 _ _ _ hreply hintegral).2.1.mpr ⟨rfl, hout⟩⟩

/-- The least integer is read in decimal digits and refused in hexadecimal ones. -/
theorem least_hexadecimal_refused :
    Integral "-9223372036854775808".toList .decimal (-9223372036854775808) ∧
    decode "-9223372036854775808".toList = .ok (.integer (Int64.ofInt (-9223372036854775808))) ∧
    Integral "-0x8000000000000000".toList .hexadecimal (-9223372036854775808) ∧ Fits (-9223372036854775808) ∧
    Reply "-0x8000000000000000".toList (.number "-0x8000000000000000".toList) ∧
    decode "-0x8000000000000000".toList = .error (.literal "-0x8000000000000000".toList .hexOutOfRange) := by
  have hdecimal : Integral "-9223372036854775808".toList .decimal (-9223372036854775808) := by
    have hvalue : Radix.decimal.value "9223372036854775808".toList = 9223372036854775808 := by decide +kernel
    have hdigits : Digits "9223372036854775808".toList := List.all_eq_true.mp rfl
    have h := Integral.decimal true hdigits (by decide)
    rwa [hvalue] at h
  have hhexadecimal : Integral "-0x8000000000000000".toList .hexadecimal (-9223372036854775808) := by
    have hvalue : Radix.hexadecimal.value "8000000000000000".toList = 9223372036854775808 := by decide +kernel
    have hdigits : ∀ c ∈ "8000000000000000".toList, isHexDigit c = true := List.all_eq_true.mp rfl
    have h := Integral.hexadecimal true (.inl (Eq.refl 'x')) hdigits (by decide)
    rwa [hvalue] at h
  have hreply := Reply.of_written (.atom hhexadecimal.atom)
  refine ⟨hdecimal, ?_, hhexadecimal, by decide, hreply, ?_⟩
  · rw [decode_number (.of_written (.atom hdecimal.atom))]
    rfl
  · rw [decode_number hreply]
    rfl

end Table

end RemoteConsole
