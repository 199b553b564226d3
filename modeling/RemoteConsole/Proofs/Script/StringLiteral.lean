import RemoteConsole.Proofs.Script.Literal
import RemoteConsole.Proofs.Table.Escape

/-!
# String literals in scripts and in replies

A string of a script is checked by one reader and the body of a string in a reply is read by another. The check knows
of an escape only that a backslash protects the character behind it, so the two agree on where a literal ends, unless
an escape goes over a line feed further on: a carriage return that takes a line feed with it, or skipped blanks.
-/

namespace RemoteConsole.Script

open Text
open Table (Accepted ReadsAs unescape unescape_eq_ok_iff)

/-- A body is made of some plain characters and some escapes, both in their order. -/
inductive Pieces : List Char → List Char → List (List Char) → Prop
  | nil : Pieces [] [] []
  | char {c : Char} {s chars : List Char} {escapes : List (List Char)} :
    c ≠ '\\' → Pieces s chars escapes → Pieces (c :: s) (c :: chars) escapes
  | escape {text rest chars : List Char} {bytes : List UInt8} {escapes : List (List Char)} :
    Accepted text bytes rest → Pieces rest chars escapes → Pieces (text ++ rest) chars (text :: escapes)

/-- An escape with a line feed that does not stand right behind the backslash. -/
inductive GoesOverLine : List Char → Prop
  | carriageReturn : GoesOverLine ['\\', '\r', '\n']
  | skip {blanks : List Char} : '\n' ∈ blanks → GoesOverLine ('\\' :: 'z' :: blanks)

variable {text rest body chars : List Char} {bytes : List UInt8} {escapes : List (List Char)} {quote : Char}

theorem exists_pieces (h : ReadsAs Accepted body bytes) : ∃ chars escapes, Pieces body chars escapes := by
  induction h with
  | nil => exact ⟨[], [], .nil⟩
  | char hc _ ih =>
    obtain ⟨chars, escapes, h⟩ := ih
    exact ⟨_, _, .char hc h⟩
  | escape he _ ih =>
    obtain ⟨chars, escapes, h⟩ := ih
    exact ⟨_, _, .escape he h⟩

theorem Pieces.readsAs (h : Pieces body chars escapes) : ∃ bytes, ReadsAs Accepted body bytes := by
  induction h with
  | nil => exact ⟨[], .nil⟩
  | char hc _ ih =>
    obtain ⟨bytes, hbytes⟩ := ih
    exact ⟨_, .char hc hbytes⟩
  | escape he _ ih =>
    obtain ⟨bytes, hbytes⟩ := ih
    exact ⟨_, .escape he hbytes⟩

theorem unescape_pieces (body : List Char) :
    (∃ t, unescape body = .ok t) ↔ ∃ chars escapes, Pieces body chars escapes := by
  constructor
  · rintro ⟨t, ht⟩
    obtain ⟨bytes, hbytes, -⟩ := unescape_eq_ok_iff.mp ht
    exact exists_pieces hbytes
  · rintro ⟨chars, escapes, h⟩
    obtain ⟨bytes, hbytes⟩ := h.readsAs
    exact ⟨_, unescape_eq_ok_iff.mpr ⟨bytes, hbytes, rfl⟩⟩

/-! ## What an escape looks like -/

def goesOn (c : Char) : Bool := isBlank c || isHexDigit c || c == '+'

theorem goesOn_of_isDigit {c : Char} (h : c.isDigit = true) : goesOn c = true := by
  simp [goesOn, isHexDigit, hexValue?, h]

theorem goesOn_of_hexValue? {c : Char} {n : Nat} (h : hexValue? c = some n) : goesOn c = true := by
  simp [goesOn, isHexDigit, h]

theorem accepted_shape (h : Accepted text bytes rest) :
    ∃ c tail, text = '\\' :: c :: tail ∧ ∀ d ∈ tail, goesOn d = true := by
  rcases h with h | h
  · cases h with
    | short => exact ⟨_, [], rfl, by simp⟩
    | carriageReturn => exact ⟨'\r', [], rfl, by simp⟩
    | lineBreak => exact ⟨'\r', ['\n'], rfl, by simp; decide⟩
    | skip hblank _ => exact ⟨'z', _, rfl, fun d hd => by simp [goesOn, hblank d hd]⟩
    | hex ha hb => exact ⟨'x', _, rfl, by simp [goesOn_of_hexValue? ha, goesOn_of_hexValue? hb]⟩
    | decimal hne hdigits =>
      obtain ⟨d, more, rfl⟩ := List.exists_cons_of_ne_nil hne
      exact ⟨d, more, rfl, fun e he => goesOn_of_isDigit (hdigits e (List.mem_cons_of_mem _ he))⟩
  · cases h with
    | plus hb => exact ⟨'x', _, rfl, by simp [goesOn_of_hexValue? hb]; decide⟩
    | cutShort ha => exact ⟨'x', _, rfl, by simp [goesOn_of_hexValue? ha]⟩

theorem goesOverLine_iff (h : Accepted text bytes rest) : '\n' ∈ text.drop 2 ↔ GoesOverLine text := by
  constructor
  · intro hline
    rcases h with h | h
    · cases h with
      | short => simp at hline
      | carriageReturn => simp at hline
      | lineBreak => exact .carriageReturn
      | skip hblank _ => exact .skip (by simpa using hline)
      | hex ha hb =>
        simp at hline
        rcases hline with rfl | rfl
        · cases ha
        · cases hb
      | decimal _ hdigits =>
        have hdigit := hdigits '\n' (List.mem_of_mem_drop (by simpa using hline : '\n' ∈ List.drop 1 _))
        cases hdigit
    · cases h with
      | plus hb =>
        simp at hline
        subst hline
        cases hb
      | cutShort ha =>
        simp at hline
        subst hline
        cases ha
  · intro hline
    cases hline with
    | carriageReturn => simp
    | skip hblanks => exact hblanks

/-! ## The reader of the check -/

theorem quotedBody?_escaped (c : Char) (s : List Char) :
    quotedBody? quote ('\\' :: c :: s) = (quotedBody? quote s).map fun (body, rest) => ('\\' :: c :: body, rest) := by
  simp [quotedBody?]

theorem quotedBody?_plain {c : Char} (hc : c ≠ '\\') (hquote : c ≠ quote) (s : List Char) :
    quotedBody? quote (c :: s) =
      if c = '\n' then none else (quotedBody? quote s).map fun (body, rest) => (c :: body, rest) := by
  simp [quotedBody?, hc, hquote]

theorem quotedBody?_run {run : List Char} (h : ∀ c ∈ run, c ≠ '\\' ∧ c ≠ quote) (s : List Char) :
    quotedBody? quote (run ++ s) =
      if '\n' ∈ run then none else (quotedBody? quote s).map fun (body, rest) => (run ++ body, rest) := by
  induction run with
  | nil => simp
  | cons c run ih =>
    obtain ⟨hc, hquote⟩ := h c List.mem_cons_self
    rw [List.cons_append, quotedBody?_plain hc hquote, ih fun d hd => h d (List.mem_cons_of_mem _ hd)]
    by_cases hline : c = '\n'
    · simp [hline]
    · by_cases hlater : '\n' ∈ run
      · simp [hlater]
      · simp [hline, hlater, Ne.symm hline, Option.map_map, Function.comp_def]

theorem ne_of_goesOn (hquote : quote = '"' ∨ quote = '\'') {c : Char} (h : goesOn c = true) : c ≠ '\\' ∧ c ≠ quote := by
  have hne (d : Char) (hd : goesOn d = false) : c ≠ d := by
    rintro rfl
    rw [hd] at h
    cases h
  refine ⟨hne '\\' (by decide), ?_⟩
  rcases hquote with rfl | rfl
  · exact hne '"' (by decide)
  · exact hne '\'' (by decide)

theorem quotedBody?_accepted (h : Accepted text bytes rest) (hquote : quote = '"' ∨ quote = '\'') (s : List Char) :
    quotedBody? quote (text ++ s) =
      if '\n' ∈ text.drop 2 then none
      else (quotedBody? quote s).map fun (body, rest) => (text ++ body, rest) := by
  obtain ⟨c, tail, rfl, htail⟩ := accepted_shape h
  have hrun : ∀ d ∈ tail, d ≠ '\\' ∧ d ≠ quote := fun d hd => ne_of_goesOn hquote (htail d hd)
  rw [List.cons_append, List.cons_append, quotedBody?_escaped, quotedBody?_run hrun]
  by_cases hline : '\n' ∈ tail
  · simp [hline]
  · simp [hline, Option.map_map, Function.comp_def]

theorem Pieces.goesOverLine_iff (h : Pieces body chars escapes) {e : List Char} (he : e ∈ escapes) :
    '\n' ∈ e.drop 2 ↔ GoesOverLine e := by
  induction h with
  | nil => simp at he
  | char _ _ ih => exact ih he
  | escape haccepted _ ih =>
    rcases List.mem_cons.mp he with rfl | hlater
    · exact Script.goesOverLine_iff haccepted
    · exact ih hlater

theorem quotedBody?_pieces (h : Pieces body chars escapes) (hquote : quote = '"' ∨ quote = '\'') (hchars : quote ∉ chars)
    (hline : '\n' ∉ chars) (s : List Char) :
    quotedBody? quote (body ++ quote :: s) =
      if ∃ e ∈ escapes, '\n' ∈ e.drop 2 then none else some (body ++ [quote], s) := by
  induction h with
  | nil => rcases hquote with rfl | rfl <;> simp [quotedBody?]
  | @char c rest chars escapes hc _ ih =>
    simp only [List.mem_cons, not_or] at hchars hline
    rw [List.cons_append, quotedBody?_plain hc (Ne.symm hchars.1), if_neg (Ne.symm hline.1), ih hchars.2 hline.2]
    by_cases hover : ∃ e ∈ escapes, '\n' ∈ e.drop 2
    · simp only [if_pos hover, Option.map_none]
    · simp only [if_neg hover, Option.map_some, List.cons_append]
  | @escape text rest chars bytes escapes he _ ih =>
    rw [List.append_assoc, quotedBody?_accepted he hquote, ih hchars hline]
    simp only [List.exists_mem_cons_iff]
    by_cases hhere : '\n' ∈ text.drop 2
    · simp only [hhere, true_or, if_true]
    · by_cases hover : ∃ e ∈ escapes, '\n' ∈ e.drop 2
      · simp only [hhere, hover, or_true, if_true, if_false, Option.map_none]
      · simp only [hhere, hover, or_self, if_false, Option.map_some, List.append_assoc]

theorem check_pieces (h : Pieces body chars escapes) (hquote : quote = '"' ∨ quote = '\'') (hchars : quote ∉ chars)
    (hline : '\n' ∉ chars) :
    check (quote :: (body ++ [quote])) =
      if ∃ e ∈ escapes, '\n' ∈ e.drop 2 then .error ⟨1, .unfinished .string⟩ else .ok () := by
  have hlexeme := lexeme_quote hquote (body ++ [quote])
  rw [quotedBody?_pieces h hquote hchars hline []] at hlexeme
  by_cases hover : ∃ e ∈ escapes, '\n' ∈ e.drop 2
  · rw [if_pos hover] at hlexeme ⊢
    rw [check, tokens_error hlexeme]
    rfl
  · rw [if_neg hover] at hlexeme ⊢
    rw [check, tokens_cons hlexeme, tokens]
    rfl

/-- **Where the two readers of a string agree.** A body has a meaning if and only if it is made of plain characters and
escapes. If no plain character is a quote or a line feed, the literal passes the check if and only if none of its
escapes goes over a line feed further on, and it is unfinished otherwise. -/
theorem check_literal_iff (body : List Char) :
    ((∃ t, unescape body = .ok t) ↔ ∃ chars escapes, Pieces body chars escapes) ∧
    ∀ quote chars escapes, quote = '"' ∨ quote = '\'' → Pieces body chars escapes → quote ∉ chars → '\n' ∉ chars →
      (check (quote :: (body ++ [quote])) = .ok () ↔ ∀ e ∈ escapes, ¬ GoesOverLine e) ∧
      (check (quote :: (body ++ [quote])) = .error ⟨1, .unfinished .string⟩ ↔ ∃ e ∈ escapes, GoesOverLine e) := by
  refine ⟨unescape_pieces body, fun quote chars escapes hquote h hchars hline => ?_⟩
  have hover : (∃ e ∈ escapes, '\n' ∈ e.drop 2) ↔ ∃ e ∈ escapes, GoesOverLine e :=
    exists_congr fun e => and_congr_right fun he => h.goesOverLine_iff he
  have hnone : (∀ e ∈ escapes, ¬ GoesOverLine e) ↔ ¬ ∃ e ∈ escapes, GoesOverLine e := by simp
  rw [check_pieces h hquote hchars hline, hnone, ← hover]
  by_cases hbad : ∃ e ∈ escapes, '\n' ∈ e.drop 2
  · rw [if_pos hbad]
    exact ⟨iff_of_false nofun (not_not.mpr hbad), iff_of_true rfl hbad⟩
  · rw [if_neg hbad]
    exact ⟨iff_of_true rfl hbad, iff_of_false nofun hbad⟩

theorem check_literal_line :
    Pieces ['a', '\\', '\n'] ['a'] [['\\', '\n']] ∧ check ['"', 'a', '\\', '\n', '"'] = .ok () := by
  have hbreak : Table.Escape ['\\', '\n'] [0x0A] [] := .short (by decide)
  have hpieces : Pieces ['a', '\\', '\n'] ['a'] [['\\', '\n']] := .char (by decide) (.escape (.inl hbreak) .nil)
  refine ⟨hpieces, ((check_literal_iff _).2 '"' _ _ (.inl rfl) hpieces (by decide) (by decide)).1.mpr ?_⟩
  intro e he hover
  rw [List.mem_singleton.mp he] at hover
  cases hover

/-- A line break of two characters behind a backslash, and a skipped one, have a meaning and do not pass. -/
theorem check_literal_refused :
    (unescape ['\\', '\r', '\n'] = .ok "\n" ∧ Pieces ['\\', '\r', '\n'] [] [['\\', '\r', '\n']] ∧
      check ['"', '\\', '\r', '\n', '"'] = .error ⟨1, .unfinished .string⟩) ∧
    (unescape ['\\', 'z', '\n'] = .ok "" ∧ Pieces ['\\', 'z', '\n'] [] [['\\', 'z', '\n']] ∧
      check ['"', '\\', 'z', '\n', '"'] = .error ⟨1, .unfinished .string⟩) := by
  have hskip : Table.Escape ['\\', 'z', '\n'] [] [] := .skip (List.all_eq_true.mp rfl) (by simp [Stops])
  exact ⟨⟨rfl, .escape (.inl .lineBreak) .nil, by decide +kernel⟩,
    rfl, .escape (.inl hskip) .nil, by decide +kernel⟩

end RemoteConsole.Script
