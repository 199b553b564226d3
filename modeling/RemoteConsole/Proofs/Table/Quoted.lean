import RemoteConsole.Proofs.Text.Numeral
import RemoteConsole.Proofs.Text.Utf8
import RemoteConsole.Table.Escape
import RemoteConsole.Table.Lexeme
import RemoteConsole.Value.Literal

/-!
# Quoted strings

Every character is quoted as itself, as a short escape or as three digits. A
reader of string bodies passes over each of these as a whole, so it stops at
the closing quote, and each denotes the bytes of its character.
-/

namespace RemoteConsole.Table

open Text
open Text.Utf8 (utf8EncodeChar_ascii)

theorem escapeChar_cases (c : Char) :
    (∃ d b, escapeChar c = ['\\', d] ∧ simpleEscape? d = some b ∧ String.utf8EncodeChar c = [b] ∧
        d ≠ '\r' ∧ d ≠ 'z' ∧ d ≠ 'x') ∨
      (c.toNat < 0x80 ∧ escapeChar c = '\\' :: threeDigits c.toNat) ∨
      (escapeChar c = [c] ∧ c ≠ '\\' ∧ c ≠ '"') := by
  unfold escapeChar
  by_cases h1 : c = '"'
  · subst h1; exact .inl ⟨'"', 0x22, by decide⟩
  by_cases h2 : c = '\\'
  · subst h2; exact .inl ⟨'\\', 0x5C, by decide⟩
  by_cases h3 : c = '\n'
  · subst h3; exact .inl ⟨'n', 0x0A, by decide⟩
  by_cases h4 : c = '\r'
  · subst h4; exact .inl ⟨'r', 0x0D, by decide⟩
  by_cases h5 : c = '\t'
  · subst h5; exact .inl ⟨'t', 0x09, by decide⟩
  simp only [h1, h2, h3, h4, h5, if_false]
  split
  · exact .inr (.inl ⟨by omega, rfl⟩)
  · exact .inr (.inr ⟨rfl, h2, h1⟩)

/-! ## Three digits -/

theorem isDigit_digitChar_mod (k : Nat) : (Nat.digitChar (k % 10)).isDigit = true := by
  rw [Nat.isDigit_digitChar, decide_eq_true_eq]; exact Nat.mod_lt k (by omega)

theorem digits_threeDigits (n : Nat) : Digits (threeDigits n) := by
  intro c hc
  simp only [threeDigits, List.mem_cons, List.not_mem_nil, or_false] at hc
  rcases hc with rfl | rfl | rfl
  · apply isDigit_digitChar_mod
  · apply isDigit_digitChar_mod
  · apply isDigit_digitChar_mod

theorem digitsValue_threeDigits {n : Nat} (h : n < 1000) : digitsValue (threeDigits n) = n := by
  have h1 : n / 100 % 10 < 10 := Nat.mod_lt _ (by omega)
  have h2 : n / 10 % 10 < 10 := Nat.mod_lt _ (by omega)
  have h3 : n % 10 < 10 := Nat.mod_lt _ (by omega)
  rw [digitsValue_eq, threeDigits, Nat.ofDigitChars_cons_digitChar_of_lt_ten h1,
    Nat.ofDigitChars_cons_digitChar_of_lt_ten h2, Nat.ofDigitChars_cons_digitChar_of_lt_ten h3, Nat.ofDigitChars_nil]
  omega

theorem decimalByte?_threeDigits {n : Nat} (h : n < 0x80) : decimalByte? (threeDigits n) = some (UInt8.ofNat n) := by
  unfold decimalByte?
  rw [digitsValue_threeDigits (by omega), if_pos (by omega)]

theorem simpleEscape?_digit {c : Char} (h : c.isDigit = true) : simpleEscape? c = none := by
  have hne (d : Char) (hd : d.isDigit = false) : c ≠ d := isDigit_ne h hd
  simp [simpleEscape?, hne]

/-! ## Bodies -/

theorem stringBody?_escapeChar (c : Char) (s : List Char) :
    stringBody? '"' (escapeChar c ++ s) = (stringBody? '"' s).map fun (body, rest) => (escapeChar c ++ body, rest) := by
  have hpass (d : Char) (t : List Char) (h1 : d ≠ '\\') (h2 : d ≠ '"') :
      stringBody? '"' (d :: t) = (stringBody? '"' t).map fun (body, rest) => (d :: body, rest) := by
    cases t <;> simp [stringBody?, h1, h2]
  rcases escapeChar_cases c with ⟨d, b, he, -⟩ | ⟨-, he⟩ | ⟨he, h1, h2⟩
  · rw [he]; rfl
  · have hdigit (k : Nat) : Nat.digitChar (k % 10) ≠ '\\' ∧ Nat.digitChar (k % 10) ≠ '"' :=
      ⟨isDigit_ne (isDigit_digitChar_mod k) rfl, isDigit_ne (isDigit_digitChar_mod k) rfl⟩
    rw [he, threeDigits]
    simp only [List.cons_append, List.nil_append]
    rw [stringBody?, hpass _ _ (hdigit _).1 (hdigit _).2, hpass _ _ (hdigit _).1 (hdigit _).2]
    simp [Option.map_map, Function.comp_def]
  · rw [he]
    exact hpass c s h1 h2

theorem bytesOf_backslash (s : List Char) : bytesOf .plain ('\\' :: s) = bytesOf .escaped s := by
  rw [bytesOf, start, if_pos rfl]

theorem bytesOf_digits {d e f : Char} (hd : d.isDigit = true) (he : e.isDigit = true) (hf : f.isDigit = true)
    (s : List Char) : bytesOf .escaped (d :: e :: f :: s) = emitDecimal [d, e, f] (bytesOf .plain s) := by
  have h1 : d ≠ '\r' := isDigit_ne hd rfl
  have h2 : d ≠ 'z' := isDigit_ne hd rfl
  have h3 : d ≠ 'x' := isDigit_ne hd rfl
  cases s <;> simp [bytesOf, h1, h2, h3, simpleEscape?_digit hd, hd, he, hf]

theorem bytesOf_escapeChar (c : Char) (s : List Char) :
    bytesOf .plain (escapeChar c ++ s) = (String.utf8EncodeChar c ++ ·) <$> bytesOf .plain s := by
  rcases escapeChar_cases c with ⟨d, b, he, hd, hb, h1, h2, h3⟩ | ⟨hlt, he⟩ | ⟨he, h1, h2⟩
  · rw [he, hb]
    simp [bytesOf, start, h1, h2, h3, hd]
  · have hbyte := decimalByte?_threeDigits hlt
    rw [he, utf8EncodeChar_ascii hlt]
    unfold threeDigits at hbyte ⊢
    simp only [List.cons_append, List.nil_append]
    rw [bytesOf_backslash, bytesOf_digits (isDigit_digitChar_mod _) (isDigit_digitChar_mod _) (isDigit_digitChar_mod _), emitDecimal, hbyte]
  · rw [he]
    simp [bytesOf, start, h1]

theorem stringBody?_quoted (s rest : List Char) :
    stringBody? '"' (s.flatMap escapeChar ++ '"' :: rest) = some (s.flatMap escapeChar, rest) := by
  induction s with
  | nil => cases rest <;> rfl
  | cons c s ih =>
    rw [List.flatMap_cons, List.append_assoc, stringBody?_escapeChar, ih]
    rfl

theorem bytesOf_quoted (s : List Char) : bytesOf .plain (s.flatMap escapeChar) = .ok (Utf8.encode s) := by
  induction s with
  | nil => rfl
  | cons c s ih =>
    rw [List.flatMap_cons, bytesOf_escapeChar, ih]
    rfl

theorem unescape_quoted (s : List Char) : unescape (s.flatMap escapeChar) = .ok (String.ofList s) := by
  rw [unescape, bytesOf_quoted]
  simp only [Functor.map, Except.map, Utf8.decodeLossy_encode]

end RemoteConsole.Table
