import RemoteConsole.Proofs.Table.Literal
import RemoteConsole.Proofs.Text.Runs

/-!
# Scalars as written

The spellings of numbers, strings, booleans and nil, each by its own rule. `scalar?` tries its
readers in turn; they take a scalar at its full length, because what follows a scalar in a reply
cannot continue it, and no reader takes what is meant for a later one.
-/

namespace RemoteConsole.Table

open Text

inductive Mantissa : List Char → Prop
  | whole {digits : List Char} : Digits digits → digits ≠ [] → Mantissa digits
  | pointed {whole fraction : List Char} :
    Digits whole → Digits fraction → whole ++ fraction ≠ [] → Mantissa (whole ++ '.' :: fraction)

inductive Exponent : List Char → Prop
  | nil : Exponent []
  | mk {c : Char} {sign digits : List Char} :
    c = 'e' ∨ c = 'E' → sign ∈ [[], ['+'], ['-']] → Digits digits → digits ≠ [] →
    Exponent (c :: (sign ++ digits))

inductive Unsigned : List Char → Prop
  | hexadecimal {x : Char} {digits : List Char} :
    x = 'x' ∨ x = 'X' → (∀ c ∈ digits, isHexDigit c = true) → digits ≠ [] →
    Unsigned ('0' :: x :: digits)
  | decimal {mantissa exponent : List Char} :
    Mantissa mantissa → Exponent exponent → Unsigned (mantissa ++ exponent)

inductive Body (quote : Char) : List Char → Prop
  | nil : Body quote []
  | escaped (c : Char) {text : List Char} : Body quote text → Body quote ('\\' :: c :: text)
  | plain {c : Char} {text : List Char} :
    c ≠ '\\' → c ≠ quote → Body quote text → Body quote (c :: text)

inductive Atom : List Char → Node → Prop
  | number (negative : Bool) {text : List Char} :
    Unsigned text → Atom (signed negative text) (.number (signed negative text))
  | infinity (negative : Bool) {text : List Char} :
    text ∈ ["math.huge".toList, "inf".toList] →
    Atom (signed negative text) (.special (.infinite negative))
  | undefined (negative : Bool) {text : List Char} :
    text ∈ ["(0/0)".toList, "0/0".toList, "nan".toList] → Atom (signed negative text) (.special .nan)
  | string {quote : Char} {body : List Char} :
    quote = '"' ∨ quote = '\'' → Body quote body →
    Atom (quote :: (body ++ [quote])) (.string body)
  | boolean (b : Bool) : Atom (if b then "true".toList else "false".toList) (.boolean b)
  | nil : Atom "nil".toList .nil

/-! ## Numbers that are read are spelled so -/

theorem digits_takeWhile (s : List Char) : Digits (s.takeWhile Char.isDigit) :=
  fun _ hc => List.mem_takeWhile_imp hc

theorem mantissaPart?_sound {s mantissa : List Char} (h : mantissaPart? s = some mantissa) :
    Mantissa mantissa ∧ mantissa <+: s := by
  have hs : s.takeWhile Char.isDigit ++ s.dropWhile Char.isDigit = s := List.takeWhile_append_dropWhile
  unfold mantissaPart? at h
  simp only at h
  split at h
  · next rest hrest =>
    split at h
    · cases h
    · next hne =>
      cases h
      constructor
      · refine .pointed (digits_takeWhile s) (digits_takeWhile rest) fun hnil => ?_
        rw [List.append_eq_nil_iff] at hnil
        simp [hnil] at hne
      · refine ⟨rest.dropWhile Char.isDigit, ?_⟩
        rw [List.append_assoc, List.cons_append, List.takeWhile_append_dropWhile, ← hrest, hs]
  · split at h
    · cases h
    · next hne =>
      cases h
      exact ⟨.whole (digits_takeWhile s) (by simpa using hne), _, hs⟩

theorem exponentPart_sound (s : List Char) : Exponent (exponentPart s) ∧ exponentPart s <+: s := by
  cases s with
  | nil => exact ⟨.nil, List.nil_prefix⟩
  | cons c rest =>
    by_cases hc : c = 'e' ∨ c = 'E'
    · have hrun (sign digits : List Char) (hsign : sign ∈ [[], ['+'], ['-']])
          (hrest : sign ++ digits = rest) (hne : digits.takeWhile Char.isDigit ≠ []) :
          Exponent (c :: (sign ++ digits.takeWhile Char.isDigit)) ∧
            c :: (sign ++ digits.takeWhile Char.isDigit) <+: c :: rest := by
        refine ⟨.mk hc hsign (digits_takeWhile digits) hne, digits.dropWhile Char.isDigit, ?_⟩
        rw [List.cons_append, List.append_assoc, List.takeWhile_append_dropWhile, hrest]
      have hnone : Exponent [] ∧ [] <+: c :: rest := ⟨.nil, List.nil_prefix⟩
      unfold exponentPart
      simp only [hc, if_true]
      split
      · next digits =>
        split
        · exact hnone
        · next hne => exact hrun ['+'] digits (by simp) rfl (by simpa using hne)
      · next digits =>
        split
        · exact hnone
        · next hne => exact hrun ['-'] digits (by simp) rfl (by simpa using hne)
      · split
        · exact hnone
        · next hne => exact hrun [] rest (by simp) rfl (by simpa using hne)
    · simp only [exponentPart, hc, if_false]
      exact ⟨.nil, List.nil_prefix⟩

theorem decimal?_sound {s text : List Char} (h : decimal? s = some text) :
    Unsigned text ∧ text <+: s := by
  unfold decimal? at h
  cases hm : mantissaPart? s with
  | none => simp [hm] at h
  | some mantissa =>
    rw [hm] at h
    cases h
    obtain ⟨hmantissa, after, rfl⟩ := mantissaPart?_sound hm
    obtain ⟨hexponent, last, hlast⟩ := exponentPart_sound after
    simp only [List.drop_left]
    refine ⟨.decimal hmantissa hexponent, last, ?_⟩
    rw [List.append_assoc, hlast]

theorem hexadecimal?_sound {s text : List Char} (h : hexadecimal? s = some text) :
    Unsigned text ∧ text <+: s := by
  unfold hexadecimal? at h
  split at h
  · next x rest =>
    simp only at h
    split at h
    · next hx =>
      cases h
      refine ⟨.hexadecimal hx.1 (fun _ hc => List.mem_takeWhile_imp hc) hx.2,
        rest.dropWhile isHexDigit, ?_⟩
      rw [List.cons_append, List.cons_append, List.takeWhile_append_dropWhile]
    · cases h
  · cases h

theorem sign_sound (s : List Char) : s = signed (sign s).1 (sign s).2 := by
  unfold sign
  split <;> rfl

theorem number?_sound {s text rest : List Char} (h : number? s = some (text, rest)) :
    (∃ negative unsigned, Unsigned unsigned ∧ text = signed negative unsigned) ∧ s = text ++ rest := by
  unfold number? at h
  simp only [Option.map_eq_some_iff, Prod.mk.injEq] at h
  obtain ⟨unsigned, hread, rfl, rfl⟩ := h
  have hsound : Unsigned unsigned ∧ unsigned <+: (sign s).2 := by
    rcases Option.or_eq_some_iff.mp hread with hhex | ⟨-, hdec⟩
    · exact hexadecimal?_sound hhex
    · exact decimal?_sound hdec
  obtain ⟨hunsigned, after, hafter⟩ := hsound
  refine ⟨⟨(sign s).1, unsigned, hunsigned, rfl⟩, ?_⟩
  rw [← hafter, List.drop_left]
  conv_lhs => rw [sign_sound s, ← hafter]
  cases (sign s).1 <;> rfl

/-! ## Spelled numbers are read -/

section
variable {mantissa exponent rest : List Char}

/-- No digit and no point comes next. -/
def EndsMantissa (s : List Char) : Prop := ∀ c ∈ s.head?, c.isDigit = false ∧ c ≠ '.'

theorem EndsMantissa.noDigit {s : List Char} (h : EndsMantissa s) : NoDigit s :=
  fun c hc => (h c hc).1

theorem endsMantissa_exponent (he : Exponent exponent) (hr : Ends rest) :
    EndsMantissa (exponent ++ rest) := by
  cases he with
  | nil => exact fun c hc => ⟨hr.noDigit c hc, (hr c hc).2.1⟩
  | mk hc =>
    intro d hd
    cases hd
    rcases hc with rfl | rfl <;> decide

theorem mantissaPart?_of_mantissa (hm : Mantissa mantissa) {s : List Char} (hs : EndsMantissa s) :
    mantissaPart? (mantissa ++ s) = some mantissa := by
  cases hm with
  | whole hdigits hne =>
    have hempty : mantissa.isEmpty = false := List.isEmpty_eq_false_iff.mpr hne
    unfold mantissaPart?
    simp only [takeWhile_digits hdigits hs.noDigit, dropWhile_digits hdigits hs.noDigit, hempty]
    split
    · exact absurd rfl (hs '.' rfl).2
    · rfl
  | @pointed whole fraction hwhole hfraction hne =>
    have hpoint : NoDigit ('.' :: (fraction ++ s)) := by
      intro c hc
      cases hc
      rfl
    have hempty : (whole.isEmpty && fraction.isEmpty) = false := by
      cases whole with
      | nil => simpa using hne
      | cons => rfl
    unfold mantissaPart?
    rw [List.append_assoc, List.cons_append]
    simp only [takeWhile_digits hwhole hpoint, dropWhile_digits hwhole hpoint,
      takeWhile_digits hfraction hs.noDigit, hempty]
    rfl

theorem exponentPart_of_exponent (he : Exponent exponent) (hr : Ends rest) :
    exponentPart (exponent ++ rest) = exponent := by
  cases he with
  | nil =>
    cases rest with
    | nil => rfl
    | cons c rest =>
      have hc : ¬ (c = 'e' ∨ c = 'E') := by
        have hname := (hr c rfl).1
        rintro (rfl | rfl) <;> revert hname <;> decide
      simp only [List.nil_append, exponentPart, hc, if_false]
  | @mk c sign digits hc hsign hdigits hne =>
    have htake := takeWhile_digits hdigits hr.noDigit
    have hempty : digits.isEmpty = false := List.isEmpty_eq_false_iff.mpr hne
    simp only [List.mem_cons, List.not_mem_nil, or_false] at hsign
    rcases hsign with rfl | rfl | rfl
    · obtain ⟨d, more, rfl⟩ := List.exists_cons_of_ne_nil hne
      have hd : d.isDigit = true := hdigits d List.mem_cons_self
      have hplus : d ≠ '+' := isDigit_ne hd rfl
      have hminus : d ≠ '-' := isDigit_ne hd rfl
      rw [List.cons_append] at htake
      simp [exponentPart, hc, hplus, hminus, htake]
    · simp [exponentPart, hc, htake, hempty]
    · simp [exponentPart, hc, htake, hempty]

theorem decimal?_of_spelled (hm : Mantissa mantissa) (he : Exponent exponent) (hr : Ends rest) :
    decimal? (mantissa ++ exponent ++ rest) = some (mantissa ++ exponent) := by
  rw [List.append_assoc, decimal?, mantissaPart?_of_mantissa hm (endsMantissa_exponent he hr)]
  simp only [Option.map_some, List.drop_left]
  rw [exponentPart_of_exponent he hr]

def isDecimalChar (c : Char) : Bool := c.isDigit || ['.', 'e', 'E', '+', '-'].contains c

theorem isDecimalChar_of_isDigit {c : Char} (h : c.isDigit = true) : isDecimalChar c = true := by
  simp [isDecimalChar, h]

theorem Mantissa.chars (h : Mantissa mantissa) : ∀ c ∈ mantissa, isDecimalChar c = true := by
  intro c hc
  cases h with
  | whole hdigits => exact isDecimalChar_of_isDigit (hdigits c hc)
  | pointed hwhole hfraction =>
    rcases List.mem_append.mp hc with hc | hc
    · exact isDecimalChar_of_isDigit (hwhole c hc)
    · rcases List.mem_cons.mp hc with rfl | hc
      · rfl
      · exact isDecimalChar_of_isDigit (hfraction c hc)

theorem Exponent.chars (h : Exponent exponent) : ∀ c ∈ exponent, isDecimalChar c = true := by
  intro c hc
  cases h with
  | nil => cases hc
  | @mk e sign digits he hsign hdigits =>
    rcases List.mem_cons.mp hc with rfl | hc
    · rcases he with rfl | rfl <;> rfl
    · rcases List.mem_append.mp hc with hc | hc
      · simp only [List.mem_cons, List.not_mem_nil, or_false] at hsign
        rcases hsign with rfl | rfl | rfl
        · cases hc
        · rw [List.mem_singleton.mp hc]
          rfl
        · rw [List.mem_singleton.mp hc]
          rfl
      · exact isDecimalChar_of_isDigit (hdigits c hc)

theorem second_of_decimal (hm : Mantissa mantissa) (he : Exponent exponent) (hr : Ends rest)
    {c d : Char} {s : List Char} (h : mantissa ++ exponent ++ rest = c :: d :: s) :
    isDecimalChar d = true ∨ (isNameChar d = false ∧ d ≠ '/') := by
  have hchars : ∀ a ∈ mantissa ++ exponent, isDecimalChar a = true := by
    intro a ha
    rcases List.mem_append.mp ha with ha | ha
    · exact hm.chars a ha
    · exact he.chars a ha
  have hne : mantissa ++ exponent ≠ [] := by
    intro hnil
    cases hm with
    | whole _ hne => exact hne (List.append_eq_nil_iff.mp hnil).1
    | pointed => simp at hnil
  obtain ⟨a, more, hmore⟩ := List.exists_cons_of_ne_nil hne
  rw [hmore] at h hchars
  cases more with
  | nil =>
    have hrest : rest = d :: s := (List.cons.inj h).2
    have hd := hr d (by rw [hrest]; rfl)
    exact .inr ⟨hd.1, hd.2.2⟩
  | cons b more =>
    have hb : b = d := (List.cons.inj (List.cons.inj h).2).1
    exact .inl (hb ▸ hchars b (by simp))

end

theorem hexadecimal?_decimal {mantissa exponent rest : List Char} (hm : Mantissa mantissa)
    (he : Exponent exponent) (hr : Ends rest) : hexadecimal? (mantissa ++ exponent ++ rest) = none := by
  unfold hexadecimal?
  split
  · next x s hs =>
    have hsecond := second_of_decimal hm he hr hs
    have hx : ¬ (x = 'x' ∨ x = 'X') := by rintro (rfl | rfl) <;> revert hsecond <;> decide
    simp [hx]
  · rfl

theorem isNameChar_of_isHexDigit {c : Char} (h : isHexDigit c = true) : isNameChar c = true := by
  unfold isHexDigit hexValue? at h
  by_cases hdigit : c.isDigit = true
  · exact isNameChar_of_isDigit hdigit
  by_cases hlower : 'a' ≤ c ∧ c ≤ 'f'
  · have hz : c.val ≤ 'z'.val := UInt32.le_trans (Char.le_def.mp hlower.2) (by decide)
    have halpha : c.isAlpha = true :=
      Bool.or_eq_true_iff.mpr (.inr (Bool.and_eq_true_iff.mpr ⟨decide_eq_true hlower.1, decide_eq_true hz⟩))
    simp [isNameChar, Char.isAlphanum, halpha]
  by_cases hupper : 'A' ≤ c ∧ c ≤ 'F'
  · have hz : c.val ≤ 'Z'.val := UInt32.le_trans (Char.le_def.mp hupper.2) (by decide)
    have halpha : c.isAlpha = true := Bool.or_eq_true_iff.mpr (.inl (decide_eq_true ⟨hupper.1, hz⟩))
    simp [isNameChar, Char.isAlphanum, halpha]
  · rw [if_neg hdigit, if_neg hlower, if_neg hupper] at h
    cases h

theorem hexadecimal?_of_spelled {x : Char} {digits rest : List Char} (hx : x = 'x' ∨ x = 'X')
    (hdigits : ∀ c ∈ digits, isHexDigit c = true) (hne : digits ≠ []) (hr : Ends rest) :
    hexadecimal? ('0' :: x :: digits ++ rest) = some ('0' :: x :: digits) := by
  have hstops : Stops isHexDigit rest := by
    intro c hc
    refine Bool.eq_false_iff.mpr fun hhex => ?_
    have hname := (hr c hc).1
    rw [isNameChar_of_isHexDigit hhex] at hname
    cases hname
  simp only [List.cons_append, hexadecimal?, takeWhile_of_stops hdigits hstops]
  rw [if_pos ⟨hx, hne⟩]

theorem Unsigned.head {text : List Char} (h : Unsigned text) :
    ∃ c s, text = c :: s ∧ (c.isDigit = true ∨ c = '.') := by
  cases h with
  | hexadecimal => exact ⟨'0', _, rfl, .inl rfl⟩
  | decimal hm =>
    cases hm with
    | @whole digits hdigits hne =>
      obtain ⟨c, s, rfl⟩ := List.exists_cons_of_ne_nil hne
      exact ⟨c, _, rfl, .inl (hdigits c List.mem_cons_self)⟩
    | @pointed whole fraction hwhole =>
      cases whole with
      | nil => exact ⟨'.', _, rfl, .inr rfl⟩
      | cons c whole => exact ⟨c, _, rfl, .inl (hwhole c List.mem_cons_self)⟩

theorem sign_signed_of_ne (negative : Bool) {c : Char} (hc : c ≠ '-') (s : List Char) :
    sign (signed negative (c :: s)) = (negative, c :: s) := by
  cases negative with
  | true => rfl
  | false =>
    simp only [signed, sign, Bool.false_eq_true, if_false]
    split
    · next h =>
      cases h
      exact absurd rfl hc
    · rfl

theorem signed_append (negative : Bool) (s rest : List Char) :
    signed negative s ++ rest = signed negative (s ++ rest) := by
  cases negative <;> rfl

theorem Unsigned.ne_minus {c : Char} (h : c.isDigit = true ∨ c = '.') : c ≠ '-' := by
  rcases h with h | rfl
  · exact isDigit_ne h rfl
  · decide

theorem number?_of_unsigned (negative : Bool) {text rest : List Char} (h : Unsigned text)
    (hr : Ends rest) :
    number? (signed negative text ++ rest) = some (signed negative text, rest) := by
  have hread : (hexadecimal? (text ++ rest)).or (decimal? (text ++ rest)) = some text := by
    cases h with
    | hexadecimal hx hdigits hne => rw [hexadecimal?_of_spelled hx hdigits hne hr, Option.some_or]
    | decimal hm he =>
      rw [hexadecimal?_decimal hm he hr, Option.none_or, decimal?_of_spelled hm he hr]
  have hsign : sign (signed negative (text ++ rest)) = (negative, text ++ rest) := by
    obtain ⟨c, s, rfl, hc⟩ := h.head
    exact sign_signed_of_ne negative (Unsigned.ne_minus hc) _
  unfold number?
  rw [signed_append, hsign]
  simp only [hread, Option.map_some, List.drop_left]
  rfl

theorem special?_unsigned (negative : Bool) {text rest : List Char} (h : Unsigned text)
    (hr : Ends rest) : special? (signed negative text ++ rest) = none := by
  have hslash : Text.after? "0/0".toList (text ++ rest) = none := by
    rw [Option.eq_none_iff_forall_ne_some]
    intro t ht
    have hshape := eq_append_of_after? ht
    cases h with
    | @hexadecimal x digits hx =>
      have hx' : x = '/' := (List.cons.inj (List.cons.inj hshape).2).1
      rcases hx with rfl | rfl <;> cases hx'
    | decimal hm he =>
      have hsecond := second_of_decimal hm he hr hshape
      revert hsecond
      decide
  obtain ⟨c, s, rfl, hc⟩ := h.head
  have hne (d : Char) (hd : d.isDigit = false ∧ d ≠ '.') : d ≠ c := by
    rintro rfl
    rcases hc with hc | hc
    · rw [hd.1] at hc
      cases hc
    · exact hd.2 hc
  unfold special?
  rw [signed_append, List.cons_append, sign_signed_of_ne negative (Unsigned.ne_minus hc)]
  rw [List.cons_append] at hslash
  simp only [hslash]
  simp [word?, word?.after?, after?, hne]

/-! ## Strings -/

theorem stringBody?_sound {quote : Char} {s body rest : List Char}
    (h : stringBody? quote s = some (body, rest)) : Body quote body ∧ s = body ++ quote :: rest := by
  fun_induction stringBody? quote s generalizing body with
  | case1 => cases h
  | case2 => cases h
  | case3 c s ih =>
    cases hread : stringBody? quote s with
    | none => simp [hread] at h
    | some p =>
      rw [hread] at h
      cases h
      obtain ⟨hbody, rfl⟩ := ih hread
      exact ⟨.escaped c hbody, rfl⟩
  | case4 =>
    cases h
    exact ⟨.nil, rfl⟩
  | case5 c s hlast hescape hquote ih =>
    cases hread : stringBody? quote s with
    | none => simp [hread] at h
    | some p =>
      rw [hread] at h
      cases h
      have hplain : c ≠ '\\' := by
        rintro rfl
        cases s with
        | nil => exact hlast rfl rfl
        | cons d s => exact hescape d s rfl rfl
      obtain ⟨hbody, rfl⟩ := ih hread
      exact ⟨.plain hplain hquote hbody, rfl⟩

theorem stringBody?_of_body {quote : Char} (hq : quote = '"' ∨ quote = '\'') {body : List Char}
    (h : Body quote body) (rest : List Char) :
    stringBody? quote (body ++ quote :: rest) = some (body, rest) := by
  induction h with
  | nil => rcases hq with rfl | rfl <;> cases rest <;> simp [stringBody?]
  | escaped c _ ih => simp [stringBody?, ih]
  | plain hescape hquote _ ih => simp [stringBody?, hescape, hquote, ih]

/-! ## Words -/

theorem word?_sound {word s rest : List Char} (h : word? word s = some rest) : s = word ++ rest := by
  rw [word?, Option.filter_eq_some_iff] at h
  exact eq_append_of_after? h.1

theorem special?_sound {s rest : List Char} {d : Double} (h : special? s = some (d, rest)) :
    ∃ text, Atom text (.special d) ∧ s = text ++ rest := by
  have hs (text : List Char) (htext : (sign s).2 = text ++ rest) :
      s = signed (sign s).1 text ++ rest := by
    rw [signed_append, ← htext]
    exact sign_sound s
  unfold special? at h
  rcases Option.or_eq_some_iff.mp h with hinfinity | ⟨-, hundefined⟩
  · obtain ⟨t, hread, heq⟩ := Option.map_eq_some_iff.mp hinfinity
    cases heq
    rcases Option.or_eq_some_iff.mp hread with hhuge | ⟨-, hinf⟩
    · exact ⟨_, .infinity _ (by simp), hs _ (eq_append_of_after? hhuge)⟩
    · exact ⟨_, .infinity _ (by simp), hs _ (word?_sound hinf)⟩
  · obtain ⟨t, hread, heq⟩ := Option.map_eq_some_iff.mp hundefined
    cases heq
    rcases Option.or_eq_some_iff.mp hread with hquotient | ⟨-, hnan⟩
    · rcases Option.or_eq_some_iff.mp hquotient with hround | ⟨-, hzero⟩
      · exact ⟨_, .undefined _ (by simp), hs _ (eq_append_of_after? hround)⟩
      · exact ⟨_, .undefined _ (by simp), hs _ (eq_append_of_after? hzero)⟩
    · exact ⟨_, .undefined _ (by simp), hs _ (word?_sound hnan)⟩

theorem special?_infinity (negative : Bool) {text rest : List Char}
    (h : text ∈ ["math.huge".toList, "inf".toList]) (hr : Ends rest) :
    special? (signed negative text ++ rest) = some (.infinite negative, rest) := by
  simp only [List.mem_cons, List.not_mem_nil, or_false] at h
  rcases h with rfl | rfl <;> cases negative <;>
    simp [signed, special?, sign, after?, word?, word?.after?, hr.atWordEnd]

theorem special?_undefined (negative : Bool) {text rest : List Char}
    (h : text ∈ ["(0/0)".toList, "0/0".toList, "nan".toList]) (hr : Ends rest) :
    special? (signed negative text ++ rest) = some (.nan, rest) := by
  simp only [List.mem_cons, List.not_mem_nil, or_false] at h
  rcases h with rfl | rfl | rfl <;> cases negative <;>
    simp [signed, special?, sign, after?, word?, word?.after?, hr.atWordEnd]

/-! ## Scalars -/

theorem scalar?_sound {s rest : List Char} {node : Node} (h : scalar? s = some (node, rest)) :
    ∃ text, Atom text node ∧ s = text ++ rest := by
  unfold scalar? at h
  rcases Option.or_eq_some_iff.mp h with hspecial | ⟨-, h⟩
  · obtain ⟨p, hread, heq⟩ := Option.map_eq_some_iff.mp hspecial
    cases heq
    exact special?_sound hread
  rcases Option.or_eq_some_iff.mp h with hnumber | ⟨-, h⟩
  · obtain ⟨p, hread, heq⟩ := Option.map_eq_some_iff.mp hnumber
    cases heq
    obtain ⟨⟨negative, unsigned, hunsigned, htext⟩, hs⟩ := number?_sound hread
    exact ⟨_, htext ▸ .number negative hunsigned, hs⟩
  rcases Option.or_eq_some_iff.mp h with hstring | ⟨-, h⟩
  · obtain ⟨⟨body, t⟩, hread, heq⟩ := Option.map_eq_some_iff.mp hstring
    cases heq
    have hquoted (quote : Char) (t : List Char) (hquote : quote = '"' ∨ quote = '\'')
        (ht : stringBody? quote t = some (body, rest)) :
        ∃ text, Atom text (.string body) ∧ quote :: t = text ++ rest := by
      obtain ⟨hbody, rfl⟩ := stringBody?_sound ht
      exact ⟨_, .string hquote hbody, by simp⟩
    unfold string? at hread
    split at hread
    · exact hquoted '"' _ (.inl rfl) hread
    · exact hquoted '\'' _ (.inr rfl) hread
    · cases hread
  rcases Option.or_eq_some_iff.mp h with hboolean | ⟨-, h⟩
  · obtain ⟨⟨b, t⟩, hread, heq⟩ := Option.map_eq_some_iff.mp hboolean
    cases heq
    unfold boolean? at hread
    split at hread
    · next hword =>
      cases hread
      exact ⟨_, .boolean true, word?_sound hword⟩
    · obtain ⟨t, hword, heq⟩ := Option.map_eq_some_iff.mp hread
      cases heq
      exact ⟨_, .boolean false, word?_sound hword⟩
  · obtain ⟨t, hread, heq⟩ := Option.map_eq_some_iff.mp h
    cases heq
    exact ⟨_, .nil, word?_sound hread⟩

/-- **A scalar is read as it is spelled**, whatever ends it. -/
theorem scalar?_of_atom {text rest : List Char} {node : Node} (h : Atom text node) (hr : Ends rest) :
    scalar? (text ++ rest) = some (node, rest) := by
  cases h with
  | number negative hunsigned =>
    rw [scalar?, special?_unsigned negative hunsigned hr, number?_of_unsigned negative hunsigned hr]
    rfl
  | infinity negative hmem =>
    rw [scalar?, special?_infinity negative hmem hr]
    rfl
  | undefined negative hmem =>
    rw [scalar?, special?_undefined negative hmem hr]
    rfl
  | @string quote body hquote hbody =>
    have hread := stringBody?_of_body hquote hbody rest
    have htext : quote :: (body ++ [quote]) ++ rest = quote :: (body ++ quote :: rest) := by simp
    have hspecial : special? (quote :: (body ++ quote :: rest)) = none := by
      refine special?_eq_none _ ?_
      rcases hquote with rfl | rfl <;> decide
    have hnumber : number? (quote :: (body ++ quote :: rest)) = none := by
      rcases hquote with rfl | rfl <;> exact number?_eq_none _ (by decide) (by decide) rfl
    have hstring : string? (quote :: (body ++ quote :: rest)) = some (body, rest) := by
      rcases hquote with rfl | rfl <;> exact hread
    rw [htext, scalar?, hspecial, hnumber, hstring]
    rfl
  | boolean b => exact scalar?_boolean b hr
  | nil => exact scalar?_nil hr

end RemoteConsole.Table
