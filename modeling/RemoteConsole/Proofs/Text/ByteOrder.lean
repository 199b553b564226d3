import Mathlib.Data.String.Basic
import RemoteConsole.Proofs.Text.Utf8

/-!
# The order of bytes

The bytes of a character come before those of a later one, whatever follows the two. So texts are in
the order of their bytes exactly when they are in the order of their characters.
-/

namespace RemoteConsole.Text.Utf8

theorem cons_byte_lt_iff {m n : Nat} (hm : m < 256) (hn : n < 256) {bs cs : List UInt8} :
    UInt8.ofNat m :: bs < UInt8.ofNat n :: cs ↔ m < n ∨ m = n ∧ bs < cs := by
  rw [List.cons_lt_cons_iff, UInt8.lt_iff_toNat_lt, ← UInt8.toNat_inj, toNat_byte hm, toNat_byte hn]

theorem utf8EncodeChar_append_lt {c d : Char} (h : c < d) (bs cs : List UInt8) :
    String.utf8EncodeChar c ++ bs < String.utf8EncodeChar d ++ cs := by
  have hlt : c.val.toNat < d.val.toNat := h
  have hd : d.val.toNat < 0xD800 ∨ 0xDFFF < d.val.toNat ∧ d.val.toNat < 0x110000 := d.valid
  unfold String.utf8EncodeChar
  simp only
  generalize c.val.toNat = v at hlt
  generalize d.val.toNat = w at hlt hd
  have hdigits (n : Nat) : n / 4096 = n / 64 / 64 ∧ n / 262144 = n / 64 / 64 / 64 := by
    simp only [Nat.div_div_eq_div_mul, Nat.reduceMul, and_self]
  simp only [hdigits]
  -- a case for every two numbers of bytes
  split_ifs
  all_goals
    simp (disch := omega) only [List.cons_append, List.nil_append, cons_byte_lt_iff]
    omega

theorem encode_lt_encode {s t : List Char} (h : s < t) : encode s < encode t := by
  induction s generalizing t with
  | nil =>
    obtain ⟨d, t, rfl⟩ : ∃ d u, t = d :: u := by
      cases t with
      | nil => cases h
      | cons d t => exact ⟨d, t, rfl⟩
    obtain ⟨b, bs, hbytes⟩ := List.exists_cons_of_ne_nil (String.utf8EncodeChar_ne_nil (c := d))
    rw [encode_cons, hbytes]
    exact List.nil_lt_cons b _
  | cons c s ih =>
    cases t with
    | nil => cases h
    | cons d t =>
      rw [encode_cons, encode_cons]
      rcases List.cons_lt_cons_iff.mp h with hlt | ⟨rfl, hlt⟩
      · exact utf8EncodeChar_append_lt hlt _ _
      · exact List.append_left_lt (ih hlt)

theorem encode_lt_iff {s t : List Char} : encode s < encode t ↔ s < t := by
  constructor
  · intro h
    by_contra hnot
    rcases List.le_iff_lt_or_eq.mp (List.not_lt.mp hnot) with hlt | rfl
    · exact List.lt_asymm h (encode_lt_encode hlt)
    · exact List.lt_irrefl _ h
  · exact encode_lt_encode

/-- **Texts are in the order of their bytes.** -/
theorem toUTF8_lt_iff {s t : String} : s.toUTF8.toList < t.toUTF8.toList ↔ s < t := by
  rw [toList_toUTF8, toList_toUTF8, encode_lt_iff, ← String.lt_iff_toList_lt]

theorem toUTF8_le_iff {s t : String} : s.toUTF8.toList ≤ t.toUTF8.toList ↔ s ≤ t := by
  rw [← List.not_lt, toUTF8_lt_iff, String.not_lt]

end RemoteConsole.Text.Utf8
