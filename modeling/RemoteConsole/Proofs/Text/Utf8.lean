import RemoteConsole.Text.Utf8

/-!
# Text survives its encoding

The bytes of a character lead the reader from its start back to it, with the
character read, whatever bytes follow. So a text is what its encoding reads as,
and nothing in it is replaced.
-/

namespace RemoteConsole.Text.Utf8

theorem toNat_byte {n : Nat} (h : n < 256) : (UInt8.ofNat n).toNat = n := by
  rw [UInt8.toNat_ofNat', Nat.mod_eq_of_lt h]

theorem utf8EncodeChar_ascii {c : Char} (h : c.toNat < 0x80) : String.utf8EncodeChar c = [UInt8.ofNat c.toNat] := by
  unfold String.utf8EncodeChar
  simp only
  rw [if_pos (show c.val.toNat ≤ 0x7F from Nat.le_of_lt_succ h)]
  rfl

theorem utf8EncodeChar_high {c : Char} (h : 0x80 ≤ c.toNat) : ∀ b ∈ String.utf8EncodeChar c, 0x80 ≤ b := by
  have hhigh {n : Nat} (hlow : 0x80 ≤ n) (hn : n < 256) : 0x80 ≤ UInt8.ofNat n := by
    rw [UInt8.le_iff_toNat_le, toNat_byte hn]
    exact hlow
  change 0x80 ≤ c.val.toNat at h
  unfold String.utf8EncodeChar
  simp only
  rw [if_neg (by omega)]
  repeat' split
  all_goals
    simp only [List.forall_mem_cons]
    and_intros
    any_goals apply hhigh <;> omega
    exact List.forall_mem_nil _

theorem encode_cons (c : Char) (s : List Char) : encode (c :: s) = String.utf8EncodeChar c ++ encode s :=
  List.flatMap_cons

theorem encode_singleton (c : Char) : encode [c] = String.utf8EncodeChar c := List.append_nil _

theorem encode_append (s t : List Char) : encode (s ++ t) = encode s ++ encode t := List.flatMap_append

theorem items_lead {n : Nat} {p : Pending} (hlo : 0x80 ≤ n) (hhi : n < 256)
    (hp : Pending.ofLead? (UInt8.ofNat n) = some p) (bs : List UInt8) :
    items none (UInt8.ofNat n :: bs) = items (some p) bs := by
  have hlt : ¬ UInt8.ofNat n < 0x80 := by
    rw [UInt8.lt_iff_toNat_lt, toNat_byte hhi]
    exact Nat.not_lt.mpr hlo
  rw [items, start, if_neg hlt, hp]

theorem items_tail {p : Pending} {n : Nat} (hn : n < 64) (hlo : p.low.toNat ≤ n + 0x80) (hhi : n + 0x80 ≤ p.high.toNat)
    (bs : List UInt8) :
    items (some p) (UInt8.ofNat (n + 0x80) :: bs) =
      match p.after with
      | 0 => some (Char.ofNat (p.bits * 64 + n)) :: items none bs
      | k + 1 => items (some ⟨p.bits * 64 + n, 0x80, 0xBF, k⟩) bs := by
  have hb : (UInt8.ofNat (n + 0x80)).toNat = n + 0x80 := toNat_byte (by omega)
  have hacc : p.accepts (UInt8.ofNat (n + 0x80)) = true := by
    simp only [Pending.accepts, Bool.and_eq_true, decide_eq_true_eq, UInt8.le_iff_toNat_le, hb]
    exact ⟨hlo, hhi⟩
  have hpush : p.push (UInt8.ofNat (n + 0x80)) = p.bits * 64 + n := by
    rw [Pending.push, hb]; omega
  cases hafter : p.after with
  | zero => rw [items, if_pos hacc, hpush, hafter]
  | succ k => rw [items, if_pos hacc, hpush, hafter]

theorem items_rest {bits n k : Nat} (hn : n < 64) (bs : List UInt8) :
    items (some ⟨bits, 0x80, 0xBF, k⟩) (UInt8.ofNat (n + 0x80) :: bs) =
      match k with
      | 0 => some (Char.ofNat (bits * 64 + n)) :: items none bs
      | k + 1 => items (some ⟨bits * 64 + n, 0x80, 0xBF, k⟩) bs := by
  have hlo : (0x80 : UInt8).toNat ≤ n + 0x80 := by
    simp only [UInt8.reduceToNat]
    omega
  have hhi : n + 0x80 ≤ (0xBF : UInt8).toNat := by
    simp only [UInt8.reduceToNat]
    omega
  exact items_tail (p := ⟨bits, 0x80, 0xBF, k⟩) hn hlo hhi bs

/-! ## First bytes -/

theorem ofLead?_two {v : Nat} (hlo : 0x7F < v) (hhi : v ≤ 0x7FF) :
    Pending.ofLead? (UInt8.ofNat (v / 64 % 0x20 + 0xC0)) = some ⟨v / 64, 0x80, 0xBF, 0⟩ := by
  simp only [Pending.ofLead?, toNat_byte (show v / 64 % 0x20 + 0xC0 < 256 by omega)]
  rw [if_pos (by omega), show v / 64 % 0x20 + 0xC0 - 0xC0 = v / 64 by omega]

/-- The second byte keeps to the range that rules out long forms and surrogates. -/
theorem ofLead?_three {v : Nat} (hlo : 0x7FF < v) (hhi : v ≤ 0xFFFF) (hs : v < 0xD800 ∨ 0xDFFF < v) :
    ∃ p, Pending.ofLead? (UInt8.ofNat (v / 4096 % 0x10 + 0xE0)) = some p ∧ p.bits = v / 4096 ∧ p.after = 1 ∧
      p.low.toNat ≤ v / 64 % 64 + 0x80 ∧ v / 64 % 64 + 0x80 ≤ p.high.toNat := by
  simp only [Pending.ofLead?, toNat_byte (show v / 4096 % 0x10 + 0xE0 < 256 by omega)]
  rw [if_neg (by omega)]
  split
  · refine ⟨_, rfl, ?_, rfl, ?_, ?_⟩
    all_goals simp only [UInt8.reduceToNat]; omega
  · split
    · refine ⟨_, rfl, ?_, rfl, ?_, ?_⟩
      all_goals simp only [UInt8.reduceToNat]; omega
    · rw [if_pos (by omega)]
      refine ⟨_, rfl, ?_, rfl, ?_, ?_⟩
      all_goals simp only [UInt8.reduceToNat]; omega

theorem ofLead?_four {v : Nat} (hlo : 0xFFFF < v) (hhi : v < 0x110000) :
    ∃ p, Pending.ofLead? (UInt8.ofNat (v / 262144 % 8 + 0xF0)) = some p ∧ p.bits = v / 262144 ∧ p.after = 2 ∧
      p.low.toNat ≤ v / 4096 % 64 + 0x80 ∧ v / 4096 % 64 + 0x80 ≤ p.high.toNat := by
  simp only [Pending.ofLead?, toNat_byte (show v / 262144 % 8 + 0xF0 < 256 by omega)]
  rw [if_neg (by omega), if_neg (by omega), if_neg (by omega), if_neg (by omega)]
  split
  · refine ⟨_, rfl, ?_, rfl, ?_, ?_⟩
    all_goals simp only [UInt8.reduceToNat]; omega
  · split
    · refine ⟨_, rfl, ?_, rfl, ?_, ?_⟩
      all_goals simp only [UInt8.reduceToNat]; omega
    · rw [if_pos (by omega)]
      refine ⟨_, rfl, ?_, rfl, ?_, ?_⟩
      all_goals simp only [UInt8.reduceToNat]; omega

/-! ## Characters -/

theorem items_encodeChar (c : Char) (bs : List UInt8) :
    items none (String.utf8EncodeChar c ++ bs) = some c :: items none bs := by
  have hv : c.val.toNat < 0xD800 ∨ 0xDFFF < c.val.toNat ∧ c.val.toNat < 0x110000 := c.valid
  have hc : Char.ofNat c.val.toNat = c := Char.ofNat_toNat c
  -- a case for each number of bytes; behind the first each brings back six bits
  unfold String.utf8EncodeChar
  simp only
  generalize c.val.toNat = v at hv hc
  split
  · have hb : (UInt8.ofNat v).toNat = v := toNat_byte (by omega)
    have hlt : UInt8.ofNat v < 0x80 := by
      rw [UInt8.lt_iff_toNat_lt, hb]
      exact Nat.lt_succ_of_le ‹_›
    rw [List.singleton_append, items, start, if_pos hlt, hb, hc]
  · split
    · have h1 : v / 64 % 0x20 + 0xC0 < 256 := by omega
      have h2 : v / 64 * 64 + v % 0x40 = v := by omega
      simp only [List.cons_append, List.nil_append]
      rw [items_lead (by omega) h1 (ofLead?_two (by omega) (by omega)), items_rest (by omega)]
      simp only [h2, hc]
    · split
      · have h1 : v / 4096 % 0x10 + 0xE0 < 256 := by omega
        have h2 : (v / 4096 * 64 + v / 64 % 0x40) * 64 + v % 0x40 = v := by omega
        obtain ⟨p, hp, hbits, hafter, hlo, hhi⟩ := ofLead?_three (v := v) (by omega) (by omega) (by omega)
        simp only [List.cons_append, List.nil_append]
        rw [items_lead (by omega) h1 hp, items_tail (by omega) hlo hhi, hafter]
        simp only
        rw [items_rest (by omega)]
        simp only [hbits, h2, hc]
      · have h1 : v / 262144 % 8 + 0xF0 < 256 := by omega
        have h2 : ((v / 262144 * 64 + v / 4096 % 0x40) * 64 + v / 64 % 0x40) * 64 + v % 0x40 = v := by omega
        obtain ⟨p, hp, hbits, hafter, hlo, hhi⟩ := ofLead?_four (v := v) (by omega) (by omega)
        simp only [List.cons_append, List.nil_append]
        rw [items_lead (by omega) h1 hp, items_tail (by omega) hlo hhi, hafter]
        simp only
        rw [items_rest (by omega)]
        simp only
        rw [items_rest (by omega)]
        simp only [hbits, h2, hc]

theorem items_encode (s : List Char) : items none (encode s) = s.map some := by
  induction s with
  | nil => rfl
  | cons c s ih => rw [encode, List.flatMap_cons, items_encodeChar, ← encode, ih]; rfl

/-- A text is what its bytes read as. -/
theorem decodeLossy_encode (s : List Char) : decodeLossy (encode s) = s := by
  rw [decodeLossy, items_encode, List.map_map]
  exact List.map_id s

theorem byteArray_toList_loop (bytes : ByteArray) (i : Nat) (read : List UInt8) :
    ByteArray.toList.loop bytes i read = read.reverse ++ bytes.data.toList.drop i := by
  fun_induction ByteArray.toList.loop bytes i read with
  | case1 i read h ih =>
    have hi : i < bytes.data.toList.length := by simpa using h
    have hget : bytes.get! i = bytes.data.toList[i] := by
      show bytes.data[i]! = _
      rw [getElem!_pos bytes.data i (by simpa using hi)]
      rfl
    rw [ih, List.reverse_cons, List.append_assoc, List.drop_eq_getElem_cons hi, hget]
    rfl
  | case2 i read h =>
    have hi : bytes.data.toList.length ≤ i := by simpa using h
    rw [List.drop_of_length_le hi, List.append_nil]

theorem toList_toUTF8 (s : String) : s.toUTF8.toList = encode s.toList := by
  have hbytes : s.toUTF8 = s.toList.utf8Encode := String.utf8Encode_toList.symm
  rw [hbytes, ByteArray.toList, byteArray_toList_loop, List.utf8Encode, List.data_toByteArray, encode]
  rfl

end RemoteConsole.Text.Utf8
