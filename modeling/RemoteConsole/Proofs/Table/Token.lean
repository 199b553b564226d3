import RemoteConsole.Proofs.Double.Literal
import RemoteConsole.Proofs.Table.Quoted
import RemoteConsole.Table.Syntax

/-!
# Literals as tokens

Each scalar literal is read as one token of its own kind, and none of the kinds
tried before it takes the text. What may follow is anything that cannot continue
a number or a word.
-/

namespace RemoteConsole.Table

open Text

/-- Nothing here continues a number or a word. -/
def Ends (s : List Char) : Prop := ∀ c ∈ s.head?, isNameChar c = false ∧ c ≠ '.' ∧ c ≠ '/'

theorem ends_nil : Ends [] := by simp [Ends]

theorem Ends.atWordEnd {s : List Char} (h : Ends s) : atWordEnd s = true := by
  cases s with
  | nil => rfl
  | cons c s => simp [Table.atWordEnd, (h c rfl).1]

theorem isNameChar_of_isDigit {c : Char} (h : c.isDigit = true) : isNameChar c = true := by
  simp [isNameChar, Char.isAlphanum, h]

theorem Ends.noDigit {s : List Char} (h : Ends s) : NoDigit s := by
  intro c hc
  by_contra hd
  rw [Bool.not_eq_false] at hd
  have := (h c hc).1
  rw [isNameChar_of_isDigit hd] at this; cases this

/-! ## Numbers -/

section
variable (n : Numeral) {rest : List Char} (hr : Ends rest)
include hr

theorem second_of_text {c d : Char} {s : List Char} (h : n.text ++ rest = c :: d :: s) :
    d.isDigit = true ∨ d = '.' ∨ d = 'e' ∨ (isNameChar d = false ∧ d ≠ '/') := by
  obtain ⟨e, w, hw⟩ := List.exists_cons_of_ne_nil n.whole_ne_nil
  have hd := n.whole_digits
  rw [Numeral.text, hw, List.cons_append, List.cons_append, List.cons.injEq] at h
  cases w with
  | cons f w =>
    simp only [List.cons_append, List.cons.injEq] at h
    exact .inl (h.2.1 ▸ hd f (by simp [hw]))
  | nil =>
    cases hf : n.fraction with
    | cons f fs =>
      rw [hf] at h; simp only [Numeral.fractionText, List.nil_append, List.cons_append, List.cons.injEq] at h
      exact .inr (.inl h.2.1.symm)
    | nil =>
      cases he : n.exponent with
      | some p =>
        rw [hf, he] at h
        simp only [Numeral.fractionText, Numeral.exponentText, List.nil_append, List.cons_append, List.cons.injEq] at h
        exact .inr (.inr (.inl h.2.1.symm))
      | none =>
        rw [hf, he] at h
        simp only [Numeral.fractionText, Numeral.exponentText, List.nil_append] at h
        have := hr d (by rw [h.2]; rfl)
        exact .inr (.inr (.inr ⟨this.1, this.2.2⟩))

theorem hexadecimal?_text : hexadecimal? (n.text ++ rest) = none := by
  cases h : n.text ++ rest with
  | nil => rfl
  | cons c s =>
    cases s with
    | nil => unfold hexadecimal?; split <;> simp_all
    | cons d s =>
      have hd := second_of_text n hr h
      have hx : ¬ (d = 'x' ∨ d = 'X') := by rintro (rfl | rfl) <;> revert hd <;> decide
      unfold hexadecimal?
      split
      · rename_i heq
        cases heq
        simp [hx]
      · rfl

theorem mantissaPart?_text :
    mantissaPart? (n.text ++ rest) = some (n.whole ++ Numeral.fractionText n.fraction) := by
  have hexp := Numeral.noDigit_exponentText n.exponent hr.noDigit
  have hfrac := Numeral.noDigit_fractionText n.fraction hexp
  have hw : n.whole.isEmpty = false := List.isEmpty_eq_false_iff.mpr n.whole_ne_nil
  have htext : n.text ++ rest = n.whole ++ (Numeral.fractionText n.fraction ++ (Numeral.exponentText n.exponent ++ rest)) := by
    simp [Numeral.text]
  unfold mantissaPart?
  simp only [htext, takeWhile_digits n.whole_digits hfrac, dropWhile_digits n.whole_digits hfrac, hw]
  cases hf : n.fraction with
  | cons c f =>
    have hfd : Digits (c :: f) := hf ▸ n.fraction_digits
    simp only [Numeral.fractionText, List.cons_append]
    rw [← List.cons_append, takeWhile_digits hfd hexp]
    simp
  | nil =>
    have hdot : ∀ t, Numeral.exponentText n.exponent ++ rest = '.' :: t → False := by
      intro t ht
      cases he : n.exponent with
      | some p => rw [he] at ht; simp [Numeral.exponentText] at ht
      | none =>
        rw [he] at ht
        exact (hr '.' (by rw [show rest = '.' :: t from ht]; rfl)).2.1 rfl
    simp only [Numeral.fractionText, List.nil_append, List.append_nil]
    simp

theorem exponentPart_text : exponentPart (Numeral.exponentText n.exponent ++ rest) = Numeral.exponentText n.exponent := by
  have hd := n.exponent_digits
  cases he : n.exponent with
  | none =>
    simp only [Numeral.exponentText, List.nil_append]
    cases rest with
    | nil => rfl
    | cons c s =>
      have hc := (hr c rfl).1
      have h1 : ¬ (c = 'e' ∨ c = 'E') := by rintro (rfl | rfl) <;> revert hc <;> decide
      simp [exponentPart, h1]
  | some p =>
    obtain ⟨negative, ds⟩ := p
    obtain ⟨hne, hds⟩ := hd _ he
    simp only at hne hds
    have hempty : ds.isEmpty = false := List.isEmpty_eq_false_iff.mpr hne
    have htake := takeWhile_digits hds hr.noDigit
    cases negative with
    | true => simp [Numeral.exponentText, exponentPart, htake, hempty]
    | false =>
      obtain ⟨c, t, rfl⟩ := List.exists_cons_of_ne_nil hne
      have hc : c.isDigit = true := hds c (by simp)
      have h1 : c ≠ '+' := isDigit_ne hc rfl
      have h2 : c ≠ '-' := isDigit_ne hc rfl
      rw [List.cons_append] at htake
      simp [Numeral.exponentText, exponentPart, h1, h2, htake]

theorem decimal?_text : decimal? (n.text ++ rest) = some n.text := by
  have hdrop : (n.text ++ rest).drop (n.whole ++ Numeral.fractionText n.fraction).length =
      Numeral.exponentText n.exponent ++ rest := by
    rw [Numeral.text, ← List.append_assoc, List.append_assoc _ _ rest, List.drop_left]
  rw [decimal?, mantissaPart?_text n hr, Option.map_some, hdrop, exponentPart_text n hr, List.append_assoc]
  rfl

end

def signed (negative : Bool) (s : List Char) : List Char := if negative then '-' :: s else s

theorem sign_text (negative : Bool) (n : Numeral) (rest : List Char) :
    sign (signed negative n.text ++ rest) = (negative, n.text ++ rest) := by
  obtain ⟨c, s, hs, hc⟩ := n.text_head
  have hminus : c ≠ '-' := isDigit_ne hc rfl
  rw [hs]
  cases negative with
  | true => rfl
  | false =>
    simp only [signed, sign, Bool.false_eq_true, if_false, List.cons_append]
    split
    · rename_i h; cases h; exact absurd rfl hminus
    · rfl

theorem number?_text (negative : Bool) (n : Numeral) {rest : List Char} (hr : Ends rest) :
    number? (signed negative n.text ++ rest) = some (signed negative n.text, rest) := by
  unfold number?
  rw [sign_text]
  simp only [hexadecimal?_text n hr, decimal?_text n hr, Option.none_or, Option.map_some, List.drop_left]
  rfl

theorem special?_text (negative : Bool) (n : Numeral) {rest : List Char} (hr : Ends rest) :
    special? (signed negative n.text ++ rest) = none := by
  obtain ⟨c, s, hs, hc⟩ := n.text_head
  have hne (d : Char) (hd : d.isDigit = false) : d ≠ c := (isDigit_ne hc hd).symm
  have hzero : Text.after? "0/0".toList (n.text ++ rest) = none := by
    rw [Option.eq_none_iff_forall_ne_some]
    intro t ht
    have := second_of_text n hr (eq_append_of_after? ht)
    revert this; decide
  unfold special?
  rw [sign_text]
  simp only [hzero]
  rw [hs]
  simp [word?, word?.after?, after?, hne]

/-! ## The other scalars -/

theorem number?_eq_none {c : Char} (s : List Char) (h1 : c ≠ '-') (h2 : c ≠ '.') (hd : c.isDigit = false) :
    number? (c :: s) = none := by
  have hsign : sign (c :: s) = (false, c :: s) := by
    unfold sign
    split
    · rename_i h; cases h; exact absurd rfl h1
    · rfl
  have hx : hexadecimal? (c :: s) = none := by
    unfold hexadecimal?
    split
    · rename_i h; cases h; cases hd
    · rfl
  have hm : mantissaPart? (c :: s) = none := by simp [mantissaPart?, hd, h2]
  simp [number?, hsign, hx, decimal?, hm]

theorem special?_infinite (negative : Bool) (rest : List Char) :
    special? ((Double.infinite negative).literal ++ rest) = some (.infinite negative, rest) := by
  cases negative <;> simp [Double.literal, special?, sign, after?]

theorem special?_nan (rest : List Char) : special? (Double.nan.literal ++ rest) = some (.nan, rest) := by
  simp [Double.literal, special?, sign, word?, word?.after?, after?]

theorem special?_eq_none {c : Char} (s : List Char) (hc : c ∉ ['-', 'm', 'i', '(', '0', 'n']) :
    special? (c :: s) = none := by
  simp only [List.mem_cons, List.not_mem_nil, or_false, not_or] at hc
  obtain ⟨h1, h2, h3, h4, h5, h6⟩ := hc
  have hsign : sign (c :: s) = (false, c :: s) := by
    unfold sign
    split
    · rename_i h; cases h; exact absurd rfl h1
    · rfl
  simp [special?, hsign, word?, word?.after?, after?, Ne.symm h2, Ne.symm h3, Ne.symm h4, Ne.symm h5, Ne.symm h6]

end RemoteConsole.Table
