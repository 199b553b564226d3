import RemoteConsole.Proofs.Assoc
import RemoteConsole.Proofs.Table.Quoted

/-!
# What escapes a string may hold

An escape is described by its own characters and, where it could go on, by what does not follow it.
A body is read exactly when it is made of plain characters and escapes, with one looseness: where
two hexadecimal digits belong, a plus sign passes for the first, and at the end of the body one
digit is enough.
-/

namespace RemoteConsole.Table

open Text

def shortEscapes : List (Char × UInt8) :=
  [('n', 0x0A), ('\n', 0x0A), ('t', 0x09), ('r', 0x0D), ('a', 0x07), ('b', 0x08), ('f', 0x0C), ('v', 0x0B),
    ('\\', 0x5C), ('"', 0x22), ('\'', 0x27)]

/-- The text is one escape for these bytes if this is what follows it. -/
inductive Escape : List Char → List UInt8 → List Char → Prop
  | short {c : Char} {byte : UInt8} {rest : List Char} :
    (c, byte) ∈ shortEscapes → Escape ['\\', c] [byte] rest
  | carriageReturn {rest : List Char} : Stops (· = '\n') rest → Escape ['\\', '\r'] [0x0A] rest
  | lineBreak {rest : List Char} : Escape ['\\', '\r', '\n'] [0x0A] rest
  | skip {blanks rest : List Char} :
    (∀ c ∈ blanks, isBlank c = true) → Stops isBlank rest → Escape ('\\' :: 'z' :: blanks) [] rest
  | hex {a b : Char} {m n : Nat} {rest : List Char} :
    hexValue? a = some m → hexValue? b = some n → Escape ['\\', 'x', a, b] [UInt8.ofNat (m * 16 + n)] rest
  | decimal {digits rest : List Char} :
    digits ≠ [] → (∀ d ∈ digits, d.isDigit = true) → digits.length ≤ 3 →
    (digits.length < 3 → Stops Char.isDigit rest) → digitsValue digits ≤ 255 →
    Escape ('\\' :: digits) [UInt8.ofNat (digitsValue digits)] rest

/-- What passes for a hexadecimal escape without two hexadecimal digits. -/
inductive LooseHex : List Char → List UInt8 → List Char → Prop
  | plus {b : Char} {n : Nat} {rest : List Char} :
    hexValue? b = some n → LooseHex ['\\', 'x', '+', b] [UInt8.ofNat n] rest
  | cutShort {a : Char} {n : Nat} : hexValue? a = some n → LooseHex ['\\', 'x', a] [UInt8.ofNat n] []

def Accepted (text : List Char) (bytes : List UInt8) (rest : List Char) : Prop :=
  Escape text bytes rest ∨ LooseHex text bytes rest

/-- A body of characters other than the backslash and of escapes, and the bytes that it denotes. -/
inductive ReadsAs (escape : List Char → List UInt8 → List Char → Prop) : List Char → List UInt8 → Prop
  | nil : ReadsAs escape [] []
  | char {c : Char} {s : List Char} {bytes : List UInt8} :
    c ≠ '\\' → ReadsAs escape s bytes → ReadsAs escape (c :: s) (String.utf8EncodeChar c ++ bytes)
  | escape {text rest : List Char} {bytes more : List UInt8} :
    escape text bytes rest → ReadsAs escape rest more → ReadsAs escape (text ++ rest) (bytes ++ more)

/-- A body that is read although an escape in it is loose. -/
inductive Loose : List Char → Prop
  | here {text rest : List Char} {bytes more : List UInt8} :
    LooseHex text bytes rest → ReadsAs Accepted rest more → Loose (text ++ rest)
  | char {c : Char} {s : List Char} : c ≠ '\\' → Loose s → Loose (c :: s)
  | escape {text rest : List Char} {bytes : List UInt8} :
    Escape text bytes rest → Loose rest → Loose (text ++ rest)

/-! ## Escapes are read -/

theorem simpleEscape?_eq (c : Char) : simpleEscape? c = Assoc.get? c shortEscapes := by
  simp only [simpleEscape?, shortEscapes, Assoc.get?, eq_comm (b := c)]
  by_cases h : c = 'n'
  · simp only [h, true_or, if_true]
  · simp only [h, false_or, if_false]

theorem simpleEscape?_eq_some {c : Char} {byte : UInt8} :
    simpleEscape? c = some byte ↔ (c, byte) ∈ shortEscapes := by
  rw [simpleEscape?_eq]
  exact ⟨Assoc.mem_of_get?, Assoc.get?_of_mem (by decide)⟩

theorem shortEscapes_ne {c : Char} {byte : UInt8} (h : (c, byte) ∈ shortEscapes) : c ≠ '\r' ∧ c ≠ 'z' ∧ c ≠ 'x' := by
  have hall : ∀ e ∈ shortEscapes, e.1 ≠ '\r' ∧ e.1 ≠ 'z' ∧ e.1 ≠ 'x' := by decide
  exact hall _ h

theorem bytesOf_plain {c : Char} (h : c ≠ '\\') (s : List Char) :
    bytesOf .plain (c :: s) = (String.utf8EncodeChar c ++ ·) <$> bytesOf .plain s := by
  rw [bytesOf, start, if_neg h]

theorem bytesOf_lineBreak {rest : List Char} (h : Stops (· = '\n') rest) :
    bytesOf .lineBreak rest = bytesOf .plain rest := by
  cases rest with
  | nil => rfl
  | cons c s =>
    have hc : c ≠ '\n' := by simpa using h c rfl
    rw [bytesOf, bytesOf, if_neg hc]

theorem bytesOf_skipping {blanks rest : List Char} (hb : ∀ c ∈ blanks, isBlank c = true) (hr : Stops isBlank rest) :
    bytesOf .skipping (blanks ++ rest) = bytesOf .plain rest := by
  induction blanks with
  | nil =>
    cases rest with
    | nil => rfl
    | cons c s =>
      have hc := hr c rfl
      simp [bytesOf, hc]
  | cons c blanks ih =>
    have hc := hb c (by simp)
    rw [List.cons_append, bytesOf, if_pos hc]
    exact ih fun d hd => hb d (by simp [hd])

theorem bytesOf_decimal {rest : List Char} : ∀ {digits before : List Char},
    (∀ d ∈ digits, d.isDigit = true) → (before ++ digits).length ≤ 3 →
    ((before ++ digits).length < 3 → Stops Char.isDigit rest) →
      bytesOf (.decimal before) (digits ++ rest) = emitDecimal (before ++ digits) (bytesOf .plain rest)
  | [], before, _, hlen, hr => by
    simp only [List.nil_append, List.append_nil] at *
    cases rest with
    | nil => rfl
    | cons c s =>
      have hstop : (c.isDigit && before.length < 3) = false := by
        by_cases hlt : before.length < 3
        · simp [hr hlt c rfl]
        · simp [hlt]
      simp [bytesOf, hstop]
  | d :: digits, before, hd, hlen, hr => by
    have hmore : (d.isDigit && before.length < 3) = true := by
      simp at hlen
      simp [hd d (by simp)]
      omega
    have hassoc : before ++ d :: digits = before ++ [d] ++ digits := by simp
    rw [List.cons_append, bytesOf, if_pos hmore, hassoc]
    apply bytesOf_decimal
    · exact fun e he => hd e (by simp [he])
    · rwa [← hassoc]
    · rwa [← hassoc]

theorem hexPair?_digits {a b : Char} {m n : Nat} (ha : hexValue? a = some m) (hb : hexValue? b = some n) :
    hexPair? a b = some (UInt8.ofNat (m * 16 + n)) := by
  have hplus : a ≠ '+' := by
    intro h
    subst h
    cases ha
  rw [hexPair?, if_neg hplus, ha, hb]

theorem bytesOf_hexPair {a b : Char} {byte : UInt8} (h : hexPair? a b = some byte) (rest : List Char) :
    bytesOf .plain ('\\' :: 'x' :: a :: b :: rest) = (byte :: ·) <$> bytesOf .plain rest := by
  rw [bytesOf_backslash, bytesOf, if_neg (by decide), if_neg (by decide), if_pos rfl, bytesOf, bytesOf, h]

theorem Escape.bytesOf_eq {text rest : List Char} {bytes : List UInt8} (h : Escape text bytes rest) :
    bytesOf .plain (text ++ rest) = (bytes ++ ·) <$> bytesOf .plain rest := by
  cases h with
  | @short c _ _ hm =>
    obtain ⟨h1, h2, h3⟩ := shortEscapes_ne hm
    show bytesOf .plain ('\\' :: c :: rest) = _
    rw [bytesOf_backslash, bytesOf, if_neg h1, if_neg h2, if_neg h3, simpleEscape?_eq_some.mpr hm]
    rfl
  | carriageReturn hr =>
    show bytesOf .plain ('\\' :: '\r' :: rest) = _
    rw [bytesOf_backslash, bytesOf, if_pos rfl, bytesOf_lineBreak hr]
    rfl
  | lineBreak =>
    show bytesOf .plain ('\\' :: '\r' :: '\n' :: rest) = _
    rw [bytesOf_backslash, bytesOf, if_pos rfl, bytesOf, if_pos rfl]
    rfl
  | @skip blanks _ hb hr =>
    show bytesOf .plain ('\\' :: 'z' :: (blanks ++ rest)) = _
    rw [bytesOf_backslash, bytesOf, if_neg (by decide), if_pos rfl, bytesOf_skipping hb hr]
    exact (id_map _).symm
  | hex ha hb => exact bytesOf_hexPair (hexPair?_digits ha hb) rest
  | decimal hne hd hlen hr hle =>
    obtain ⟨d, more, rfl⟩ := List.exists_cons_of_ne_nil hne
    have hdigit : d.isDigit = true := hd d (by simp)
    have h1 : d ≠ '\r' := isDigit_ne hdigit rfl
    have h2 : d ≠ 'z' := isDigit_ne hdigit rfl
    have h3 : d ≠ 'x' := isDigit_ne hdigit rfl
    have hmore : bytesOf (.decimal [d]) (more ++ rest) = emitDecimal ([d] ++ more) (bytesOf .plain rest) :=
      bytesOf_decimal (fun e he => hd e (by simp [he])) hlen hr
    have hbyte : decimalByte? (d :: more) = some (UInt8.ofNat (digitsValue (d :: more))) := if_pos hle
    show bytesOf .plain ('\\' :: d :: (more ++ rest)) = _
    rw [bytesOf_backslash, bytesOf, if_neg h1, if_neg h2, if_neg h3, simpleEscape?_digit hdigit]
    simp only [hdigit, if_true]
    rw [hmore, List.singleton_append, emitDecimal, hbyte]
    rfl

theorem LooseHex.bytesOf_eq {text rest : List Char} {bytes : List UInt8} (h : LooseHex text bytes rest) :
    bytesOf .plain (text ++ rest) = (bytes ++ ·) <$> bytesOf .plain rest := by
  cases h with
  | @plus b n _ hb =>
    have hpair : hexPair? '+' b = some (UInt8.ofNat n) := by simp [hexPair?, hb]
    exact bytesOf_hexPair hpair rest
  | @cutShort a n ha =>
    have hend : bytesOf .plain [] = .ok [] := rfl
    show bytesOf .plain ['\\', 'x', a] = _
    rw [hend, bytesOf_backslash, bytesOf, if_neg (by decide), if_neg (by decide), if_pos rfl, bytesOf, bytesOf, ha]
    rfl

theorem ReadsAs.bytesOf_eq {s : List Char} {bytes : List UInt8} (h : ReadsAs Accepted s bytes) :
    bytesOf .plain s = .ok bytes := by
  induction h with
  | nil => rfl
  | char hc _ ih => rw [bytesOf_plain hc, ih]; rfl
  | escape he _ ih =>
    rcases he with he | he
    · rw [he.bytesOf_eq, ih]; rfl
    · rw [he.bytesOf_eq, ih]; rfl

/-! ## What is read is made of escapes -/

/-- What is taken of an escape in each mode, and the bytes that are already out for it. -/
inductive Taken : Mode → List Char → List UInt8 → Prop
  | plain : Taken .plain [] []
  | escaped : Taken .escaped ['\\'] []
  | lineBreak : Taken .lineBreak ['\\', '\r'] [0x0A]
  | skipping {blanks : List Char} : (∀ c ∈ blanks, isBlank c = true) → Taken .skipping ('\\' :: 'z' :: blanks) []
  | hex : Taken (.hex none) ['\\', 'x'] []
  | hexDigit (a : Char) : Taken (.hex (some a)) ['\\', 'x', a] []
  | decimal {digits : List Char} :
    digits ≠ [] → (∀ d ∈ digits, d.isDigit = true) → digits.length ≤ 3 → Taken (.decimal digits) ('\\' :: digits) []

theorem exists_of_map_ok {ε α β : Type} {x : Except ε α} {f : α → β} {b : β} (h : f <$> x = .ok b) :
    ∃ a, x = .ok a ∧ f a = b := by
  cases x with
  | error e => cases h
  | ok a => exact ⟨a, rfl, Except.ok.inj h⟩

theorem exists_of_emitDecimal {digits : List Char} {rest : Except EscapeFault (List UInt8)} {bytes : List UInt8}
    (h : emitDecimal digits rest = .ok bytes) :
    digitsValue digits ≤ 255 ∧ ∃ more, rest = .ok more ∧ bytes = UInt8.ofNat (digitsValue digits) :: more := by
  unfold emitDecimal decimalByte? at h
  by_cases hle : digitsValue digits ≤ 255
  · rw [if_pos hle] at h
    obtain ⟨more, hmore, rfl⟩ := exists_of_map_ok h
    exact ⟨hle, more, hmore, rfl⟩
  · rw [if_neg hle] at h
    cases h

theorem accepted_hexPair {a b : Char} {byte : UInt8} (h : hexPair? a b = some byte) (rest : List Char) :
    Accepted ['\\', 'x', a, b] [byte] rest := by
  unfold hexPair? at h
  by_cases hplus : a = '+'
  · subst hplus
    cases hb : hexValue? b with
    | none => simp [hb] at h
    | some n =>
      simp [hb] at h
      subst h
      exact .inr (.plus hb)
  · rw [if_neg hplus] at h
    cases ha : hexValue? a with
    | none => simp [ha] at h
    | some m =>
      cases hb : hexValue? b with
      | none => simp [ha, hb] at h
      | some n =>
        simp only [ha, hb, Option.some.injEq] at h
        subst h
        exact .inl (.hex ha hb)

theorem Accepted.readsAs {text rest : List Char} {bytes more : List UInt8} (he : Accepted text bytes rest)
    (h : ReadsAs Accepted rest more) : ReadsAs Accepted (text ++ rest) (bytes ++ more) :=
  .escape he h

theorem Escape.readsAs {text rest : List Char} {bytes more : List UInt8} (he : Escape text bytes rest)
    (h : ReadsAs Accepted rest more) : ReadsAs Accepted (text ++ rest) (bytes ++ more) :=
  .escape (.inl he) h

theorem ReadsAs.of_end {mode : Mode} {taken : List Char} {out bytes : List UInt8} (h : bytesOf mode [] = .ok bytes)
    (ht : Taken mode taken out) : ReadsAs Accepted (taken ++ []) (out ++ bytes) := by
  cases ht with
  | plain =>
    cases h
    exact .nil
  | escaped => cases h
  | lineBreak =>
    cases h
    exact Escape.readsAs (.carriageReturn (by simp [Stops])) .nil
  | skipping hb =>
    cases h
    exact Escape.readsAs (.skip hb (by simp [Stops])) .nil
  | hex => cases h
  | hexDigit a =>
    cases ha : hexValue? a with
    | none => simp [bytesOf, ha] at h
    | some n =>
      simp only [bytesOf, ha, Except.ok.injEq] at h
      subst h
      have hloose : Accepted ['\\', 'x', a] [UInt8.ofNat n] [] := .inr (.cutShort ha)
      exact (hloose.readsAs .nil :)
  | decimal hne hd hlen =>
    obtain ⟨hle, more, hmore, rfl⟩ := exists_of_emitDecimal h
    cases hmore
    exact (Escape.readsAs (.decimal hne hd hlen (by simp [Stops]) hle) .nil :)

/-- What one more character does for an escape under way, with all bytes from the escape on: the escape
goes on, or it ends with the character, or it ended before it. -/
inductive Step (s : List Char) (c : Char) (taken : List Char) (bytes : List UInt8) : Prop
  | goesOn {mode : Mode} {out more : List UInt8} :
    Taken mode (taken ++ [c]) out → bytesOf mode s = .ok more → bytes = out ++ more → Step s c taken bytes
  | ends {denoted more : List UInt8} :
    Accepted (taken ++ [c]) denoted s → bytesOf .plain s = .ok more → bytes = denoted ++ more → Step s c taken bytes
  | ended {denoted more : List UInt8} :
    Accepted taken denoted (c :: s) → bytesOf .plain (c :: s) = .ok more → bytes = denoted ++ more →
    Step s c taken bytes

section
variable {c : Char} {s : List Char} {bytes : List UInt8}

theorem step_escaped (h : bytesOf .escaped (c :: s) = .ok bytes) : Step s c ['\\'] bytes := by
  rw [bytesOf] at h
  by_cases hr : c = '\r'
  · subst hr
    rw [if_pos rfl] at h
    obtain ⟨more, hmore, rfl⟩ := exists_of_map_ok h
    exact .goesOn .lineBreak hmore rfl
  rw [if_neg hr] at h
  by_cases hz : c = 'z'
  · subst hz
    rw [if_pos rfl] at h
    exact .goesOn (.skipping (List.forall_mem_nil _)) h rfl
  rw [if_neg hz] at h
  by_cases hx : c = 'x'
  · subst hx
    rw [if_pos rfl] at h
    exact .goesOn .hex h rfl
  rw [if_neg hx] at h
  cases hshort : simpleEscape? c with
  | some byte =>
    simp only [hshort] at h
    obtain ⟨more, hmore, rfl⟩ := exists_of_map_ok h
    exact .ends (.inl (.short (simpleEscape?_eq_some.mp hshort))) hmore rfl
  | none =>
    simp only [hshort] at h
    by_cases hd : c.isDigit = true
    · rw [if_pos hd] at h
      exact .goesOn (.decimal (List.cons_ne_nil c []) (by simpa using hd) (by simp)) h rfl
    · rw [if_neg hd] at h
      cases h

theorem step_lineBreak (h : bytesOf .lineBreak (c :: s) = .ok bytes) : Step s c ['\\', '\r'] (0x0A :: bytes) := by
  by_cases hn : c = '\n'
  · subst hn
    rw [bytesOf, if_pos rfl] at h
    exact .ends (.inl .lineBreak) h rfl
  · have hstops : Stops (· = '\n') (c :: s) := stops_cons s (by simpa using hn)
    rw [bytesOf_lineBreak hstops] at h
    exact .ended (.inl (.carriageReturn hstops)) h rfl

theorem step_skipping {blanks : List Char} (hb : ∀ c ∈ blanks, isBlank c = true)
    (h : bytesOf .skipping (c :: s) = .ok bytes) : Step s c ('\\' :: 'z' :: blanks) bytes := by
  by_cases hc : isBlank c = true
  · have hmore : ∀ d ∈ blanks ++ [c], isBlank d = true := by
      simp only [List.mem_append, List.mem_singleton]
      rintro d (hd | rfl)
      · exact hb d hd
      · exact hc
    rw [bytesOf, if_pos hc] at h
    exact .goesOn (.skipping hmore) h rfl
  · have hstops : Stops isBlank (c :: s) := stops_cons s (by simpa using hc)
    rw [← List.nil_append (c :: s), bytesOf_skipping (List.forall_mem_nil _) hstops] at h
    exact .ended (.inl (.skip hb hstops)) h rfl

theorem step_hexDigit {a : Char} (h : bytesOf (.hex (some a)) (c :: s) = .ok bytes) :
    Step s c ['\\', 'x', a] bytes := by
  rw [bytesOf] at h
  cases hpair : hexPair? a c with
  | none => simp [hpair] at h
  | some byte =>
    simp only [hpair] at h
    obtain ⟨more, hmore, rfl⟩ := exists_of_map_ok h
    exact .ends (accepted_hexPair hpair s) hmore rfl

theorem step_decimal {digits : List Char} (hne : digits ≠ []) (hd : ∀ d ∈ digits, d.isDigit = true)
    (hlen : digits.length ≤ 3) (h : bytesOf (.decimal digits) (c :: s) = .ok bytes) :
    Step s c ('\\' :: digits) bytes := by
  by_cases hmore : c.isDigit = true ∧ digits.length < 3
  · have hall : ∀ e ∈ digits ++ [c], e.isDigit = true := by
      simp only [List.mem_append, List.mem_singleton]
      rintro e (he | rfl)
      · exact hd e he
      · exact hmore.1
    rw [bytesOf, if_pos (by simpa using hmore)] at h
    exact .goesOn (.decimal (by simp) hall (by simp; omega)) h rfl
  · have hstops : digits.length < 3 → Stops Char.isDigit (c :: s) := by
      intro hlt
      apply stops_cons
      simpa using fun hc => hmore ⟨hc, hlt⟩
    rw [bytesOf, if_neg (by simpa using hmore)] at h
    obtain ⟨hle, more, hrest, rfl⟩ := exists_of_emitDecimal h
    exact .ended (.inl (.decimal hne hd hlen hstops hle)) hrest rfl

theorem Taken.step {mode : Mode} {taken : List Char} {out : List UInt8} (ht : Taken mode taken out)
    (hmode : mode ≠ .plain) (h : bytesOf mode (c :: s) = .ok bytes) : Step s c taken (out ++ bytes) := by
  cases ht with
  | plain => exact absurd rfl hmode
  | escaped => exact step_escaped h
  | lineBreak => exact step_lineBreak h
  | skipping hb => exact step_skipping hb h
  | hex =>
    rw [bytesOf] at h
    exact .goesOn (.hexDigit c) h rfl
  | hexDigit a => exact step_hexDigit h
  | decimal hne hd hlen => exact step_decimal hne hd hlen h

end

theorem ReadsAs.of_bytesOf : ∀ {s : List Char} {mode : Mode} {taken : List Char} {out bytes : List UInt8},
    bytesOf mode s = .ok bytes → Taken mode taken out → ReadsAs Accepted (taken ++ s) (out ++ bytes)
  | [], mode, taken, out, bytes, h, ht => .of_end h ht
  | c :: s, mode, taken, out, bytes, h, ht => by
    have hplain {bytes : List UInt8} (h : bytesOf .plain (c :: s) = .ok bytes) : ReadsAs Accepted (c :: s) bytes := by
      by_cases hc : c = '\\'
      · subst hc
        rw [bytesOf_backslash] at h
        exact ReadsAs.of_bytesOf h .escaped
      · rw [bytesOf_plain hc] at h
        obtain ⟨more, hmore, rfl⟩ := exists_of_map_ok h
        exact .char hc (ReadsAs.of_bytesOf hmore .plain)
    by_cases hmode : mode = .plain
    · subst hmode
      cases ht
      exact hplain h
    cases ht.step hmode h with
    | goesOn ht' hmore htotal =>
      rw [htotal, List.append_cons]
      exact ReadsAs.of_bytesOf hmore ht'
    | ends he hmore htotal =>
      rw [htotal, List.append_cons]
      exact he.readsAs (ReadsAs.of_bytesOf hmore .plain)
    | ended he hmore htotal =>
      -- where the escape is over, the character belongs to what follows
      rw [htotal]
      exact he.readsAs (hplain hmore)

theorem bytesOf_eq_ok_iff {s : List Char} {bytes : List UInt8} :
    bytesOf .plain s = .ok bytes ↔ ReadsAs Accepted s bytes :=
  ⟨fun h => ReadsAs.of_bytesOf h .plain, ReadsAs.bytesOf_eq⟩

/-! ## One way to read an escape -/

def afterEscape : List Char → List Char
  | [] => []
  | '\r' :: '\n' :: s => s
  | 'z' :: s => s.dropWhile isBlank
  | 'x' :: s => s.drop 2
  | c :: s => if c.isDigit then (c :: s).drop (min 3 ((c :: s).takeWhile Char.isDigit).length) else s

theorem afterEscape_carriageReturn {s : List Char} (h : Stops (· = '\n') s) : afterEscape ('\r' :: s) = s := by
  cases s with
  | nil => rfl
  | cons c s =>
    have hc : c ≠ '\n' := by simpa using h c rfl
    simp [afterEscape, hc]

theorem afterEscape_of_ne {c : Char} (hr : c ≠ '\r') (hz : c ≠ 'z') (hx : c ≠ 'x') (s : List Char) :
    afterEscape (c :: s) =
      if c.isDigit then (c :: s).drop (min 3 ((c :: s).takeWhile Char.isDigit).length) else s := by
  rw [afterEscape]
  · intro t h
    exact absurd h hr
  · exact hz
  · exact hx

theorem afterEscape_short {c : Char} {byte : UInt8} (h : (c, byte) ∈ shortEscapes) (s : List Char) :
    afterEscape (c :: s) = s := by
  obtain ⟨hr, hz, hx⟩ := shortEscapes_ne h
  have hdigit : ∀ e ∈ shortEscapes, e.1.isDigit = false := by decide
  rw [afterEscape_of_ne hr hz hx, hdigit _ h]
  rfl

theorem afterEscape_digits {digits rest : List Char} (hne : digits ≠ []) (hd : ∀ d ∈ digits, d.isDigit = true)
    (hlen : digits.length ≤ 3) (hr : digits.length < 3 → Stops Char.isDigit rest) :
    afterEscape (digits ++ rest) = rest := by
  have hcount : min 3 ((digits ++ rest).takeWhile Char.isDigit).length = digits.length := by
    by_cases hlt : digits.length < 3
    · rw [takeWhile_of_stops hd (hr hlt)]
      omega
    · rw [List.takeWhile_append_of_pos hd, List.length_append]
      omega
  obtain ⟨d, more, rfl⟩ := List.exists_cons_of_ne_nil hne
  have hdigit : d.isDigit = true := hd d (by simp)
  have h1 : d ≠ '\r' := isDigit_ne hdigit rfl
  have h2 : d ≠ 'z' := isDigit_ne hdigit rfl
  have h3 : d ≠ 'x' := isDigit_ne hdigit rfl
  have hdrop : ((d :: more) ++ rest).drop (d :: more).length = rest := List.drop_left
  rw [← hcount] at hdrop
  rw [List.cons_append, afterEscape_of_ne h1 h2 h3, if_pos hdigit]
  exact hdrop

theorem Escape.behind {text rest : List Char} {bytes : List UInt8} (h : Escape text bytes rest) :
    ∃ s, text ++ rest = '\\' :: s ∧ rest = afterEscape s := by
  cases h with
  | short hm => exact ⟨_, rfl, (afterEscape_short hm rest).symm⟩
  | carriageReturn hr => exact ⟨_, rfl, (afterEscape_carriageReturn hr).symm⟩
  | lineBreak => exact ⟨_, rfl, rfl⟩
  | skip hb hr => exact ⟨_, rfl, (dropWhile_of_stops hb hr).symm⟩
  | hex ha hb => exact ⟨_, rfl, rfl⟩
  | decimal hne hd hlen hr hle => exact ⟨_, rfl, (afterEscape_digits hne hd hlen hr).symm⟩

theorem Escape.two_digits {text rest s : List Char} {bytes : List UInt8} (h : Escape text bytes rest)
    (hs : text ++ rest = '\\' :: 'x' :: s) : ∃ a b, s = a :: b :: rest ∧ (hexValue? a).isSome ∧ (hexValue? b).isSome := by
  cases h with
  | short hm =>
    obtain ⟨-, -, hx⟩ := shortEscapes_ne hm
    cases hs
    exact absurd rfl hx
  | carriageReturn hr => cases hs
  | lineBreak => cases hs
  | skip hb hr => cases hs
  | @hex a b _ _ _ ha hb =>
    cases hs
    exact ⟨a, b, rfl, by simp [ha], by simp [hb]⟩
  | decimal hne hd hlen hr hle =>
    obtain ⟨d, more, rfl⟩ := List.exists_cons_of_ne_nil hne
    cases hs
    exact absurd (hd 'x' (by simp)) (by decide)

theorem LooseHex.not_escape {text rest text' rest' : List Char} {bytes bytes' : List UInt8}
    (h : LooseHex text bytes rest) (h' : Escape text' bytes' rest') : text ++ rest ≠ text' ++ rest' := by
  intro heq
  cases h with
  | plus hb =>
    obtain ⟨a, b, hs, ha, -⟩ := h'.two_digits heq.symm
    cases hs
    cases ha
  | cutShort ha =>
    obtain ⟨a, b, hs, -, -⟩ := h'.two_digits heq.symm
    cases hs

theorem ReadsAs.behind_char {c : Char} {s : List Char} {bytes : List UInt8} (hc : c ≠ '\\')
    (h : ReadsAs Escape (c :: s) bytes) : ∃ more, ReadsAs Escape s more := by
  generalize hs : c :: s = whole at h
  cases h with
  | nil => cases hs
  | char _ h =>
    cases hs
    exact ⟨_, h⟩
  | escape he h =>
    obtain ⟨t, ht, -⟩ := he.behind
    rw [ht] at hs
    exact absurd (List.cons.inj hs).1 hc

theorem ReadsAs.behind_backslash {s : List Char} {bytes : List UInt8} (h : ReadsAs Escape ('\\' :: s) bytes) :
    ∃ text first rest more, '\\' :: s = text ++ rest ∧ Escape text first rest ∧ ReadsAs Escape rest more := by
  generalize hs : '\\' :: s = whole at h
  cases h with
  | nil => cases hs
  | char hc _ =>
    cases hs
    exact absurd rfl hc
  | escape he h => exact ⟨_, _, _, _, rfl, he, h⟩

theorem LooseHex.backslash {text rest : List Char} {bytes : List UInt8} (h : LooseHex text bytes rest) :
    ∃ s, text ++ rest = '\\' :: s := by
  cases h with
  | plus => exact ⟨_, rfl⟩
  | cutShort => exact ⟨_, rfl⟩

theorem Loose.not_readsAs {s : List Char} (h : Loose s) : ∀ bytes, ¬ ReadsAs Escape s bytes := by
  induction h with
  | here hloose _ =>
    intro bytes hr
    obtain ⟨s, hs⟩ := hloose.backslash
    rw [hs] at hr
    obtain ⟨text, _, rest, _, heq, he, -⟩ := hr.behind_backslash
    exact hloose.not_escape he (hs.trans heq)
  | char hc _ ih =>
    intro bytes hr
    obtain ⟨more, hmore⟩ := hr.behind_char hc
    exact ih more hmore
  | escape he _ ih =>
    intro bytes hr
    obtain ⟨s, hs, hrest⟩ := he.behind
    rw [hs] at hr
    obtain ⟨text, _, rest, more, heq, he', hmore⟩ := hr.behind_backslash
    obtain ⟨s', hs', hrest'⟩ := he'.behind
    have hsame : s = s' := (List.cons.inj (heq.trans hs')).2
    rw [hrest', ← hsame, ← hrest] at hmore
    exact ih more hmore

theorem Loose.accepted {s : List Char} (h : Loose s) : ∃ bytes, ReadsAs Accepted s bytes := by
  induction h with
  | here hloose hr => exact ⟨_, .escape (.inr hloose) hr⟩
  | char hc _ ih =>
    obtain ⟨bytes, hr⟩ := ih
    exact ⟨_, .char hc hr⟩
  | escape he _ ih =>
    obtain ⟨bytes, hr⟩ := ih
    exact ⟨_, he.readsAs hr⟩

theorem ReadsAs.proper_or_loose {s : List Char} {bytes : List UInt8} (h : ReadsAs Accepted s bytes) :
    ReadsAs Escape s bytes ∨ Loose s := by
  induction h with
  | nil => exact .inl .nil
  | char hc _ ih =>
    rcases ih with ih | ih
    · exact .inl (.char hc ih)
    · exact .inr (.char hc ih)
  | escape he hr ih =>
    rcases he with he | he
    · rcases ih with ih | ih
      · exact .inl (.escape he ih)
      · exact .inr (.escape he ih)
    · exact .inr (.here he hr)

theorem ReadsAs.accepted {s : List Char} {bytes : List UInt8} (h : ReadsAs Escape s bytes) : ReadsAs Accepted s bytes := by
  induction h with
  | nil => exact .nil
  | char hc _ ih => exact .char hc ih
  | escape he _ ih => exact he.readsAs ih

theorem unescape_eq_ok_iff {s : List Char} {t : String} :
    unescape s = .ok t ↔ ∃ bytes, ReadsAs Accepted s bytes ∧ t = String.ofList (Utf8.decodeLossy bytes) := by
  constructor
  · intro h
    obtain ⟨bytes, hbytes, rfl⟩ := exists_of_map_ok h
    exact ⟨bytes, bytesOf_eq_ok_iff.mp hbytes, rfl⟩
  · rintro ⟨bytes, hbytes, rfl⟩
    rw [unescape, bytesOf_eq_ok_iff.mpr hbytes]
    rfl

/-- **Which bodies have a meaning.** A body is read exactly when it is made of plain characters and
accepted escapes, and every other body is a fault. The accepted escapes are the documented ones,
and so exactly these bodies are read, but for the bodies in which a hexadecimal escape is loose. -/
theorem unescape_accepts (s : List Char) :
    (∀ t, unescape s = .ok t ↔ ∃ bytes, ReadsAs Accepted s bytes ∧ t = String.ofList (Utf8.decodeLossy bytes)) ∧
    ((∃ fault, unescape s = .error fault) ↔ ¬ ∃ bytes, ReadsAs Accepted s bytes) ∧
    ((∀ t, unescape s = .ok t ↔ ∃ bytes, ReadsAs Escape s bytes ∧ t = String.ofList (Utf8.decodeLossy bytes)) ↔
      ¬ Loose s) := by
  refine ⟨fun t => unescape_eq_ok_iff, ?_, ?_⟩
  · constructor
    · rintro ⟨fault, h⟩ ⟨bytes, hbytes⟩
      have hok := unescape_eq_ok_iff.mpr ⟨bytes, hbytes, rfl⟩
      rw [h] at hok
      cases hok
    · intro h
      cases hread : unescape s with
      | error fault => exact ⟨fault, rfl⟩
      | ok t =>
        obtain ⟨bytes, hbytes, -⟩ := unescape_eq_ok_iff.mp hread
        exact absurd ⟨bytes, hbytes⟩ h
  · constructor
    · intro h hloose
      obtain ⟨bytes, hbytes⟩ := hloose.accepted
      obtain ⟨proper, hproper, -⟩ := (h _).mp (unescape_eq_ok_iff.mpr ⟨bytes, hbytes, rfl⟩)
      exact hloose.not_readsAs proper hproper
    · intro hloose t
      rw [unescape_eq_ok_iff]
      constructor
      · rintro ⟨bytes, hbytes, ht⟩
        rcases hbytes.proper_or_loose with hproper | h
        · exact ⟨bytes, hproper, ht⟩
        · exact absurd h hloose
      · rintro ⟨bytes, hbytes, ht⟩
        exact ⟨bytes, hbytes.accepted, ht⟩

/-- A plus sign and a lone digit at the end pass for hexadecimal digits, and no documented escape has them. -/
theorem unescape_loose :
    (unescape ['\\', 'x', '+', '4'] = .ok "\x04" ∧ ¬ ∃ bytes, ReadsAs Escape ['\\', 'x', '+', '4'] bytes) ∧
    (unescape ['\\', 'x', '4'] = .ok "\x04" ∧ ¬ ∃ bytes, ReadsAs Escape ['\\', 'x', '4'] bytes) := by
  have hdigit : hexValue? '4' = some 4 := rfl
  have hplus : Loose ['\\', 'x', '+', '4'] := (Loose.here (.plus hdigit) .nil :)
  have hshort : Loose ['\\', 'x', '4'] := (Loose.here (.cutShort hdigit) .nil :)
  refine ⟨⟨rfl, ?_⟩, rfl, ?_⟩
  · rintro ⟨bytes, h⟩
    exact hplus.not_readsAs bytes h
  · rintro ⟨bytes, h⟩
    exact hshort.not_readsAs bytes h

end RemoteConsole.Table
