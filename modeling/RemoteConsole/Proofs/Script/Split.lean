import RemoteConsole.Proofs.Text.Runs
import RemoteConsole.Script.Structure

/-!
# Splitting a script

What the lexemes of a script are, apart from how they are found: a lexeme is described by its own
characters and, where it could go on, by what does not follow it. `lexeme` finds the one lexeme
that a text starts with (`lexeme_eq_ok_iff`), so `tokens` finds the one splitting of a whole script
and fails where there is none.
-/

namespace RemoteConsole.Script

open Text (Stops stops_dropWhile takeWhile_of_stops dropWhile_of_stops isDigit_ne isAlpha_of_isDigit)

def longOpening (level : Nat) : List Char := '[' :: (List.replicate level '=' ++ ['['])

def longClosing (level : Nat) : List Char := ']' :: longCloser level

/-- The text ends with a closing long bracket of the level, and there is none before. -/
def ClosedBy (level : Nat) (text : List Char) : Prop :=
  (∃ body, text = body ++ longClosing level) ∧
    ∀ before after, text = before ++ longClosing level ++ after → after = []

inductive LongBracket : List Char → Prop
  | mk {level : Nat} {text : List Char} :
    ClosedBy level text → LongBracket (longOpening level ++ text)

/-- What stands after an opening quote, up to and with the closing one. -/
inductive Quoted (quote : Char) : List Char → Prop
  | close : Quoted quote [quote]
  | escaped (c : Char) {text : List Char} : Quoted quote text → Quoted quote ('\\' :: c :: text)
  | plain {c : Char} {text : List Char} :
    c ≠ '\\' → c ≠ '\n' → c ≠ quote → Quoted quote text → Quoted quote (c :: text)

def OpensLong (text : List Char) : Prop := ∃ level after, text = longOpening level ++ after

def marks : List Char := ['"', '\'', '(', '[', '{', ')', ']', '}']

/-- The text is one lexeme if this is what follows it. -/
inductive Lexes : List Char → Token → List Char → Prop
  | lineComment {body rest : List Char} :
    '\n' ∉ body → ¬ OpensLong (body ++ rest) → Stops (· ≠ '\n') rest → Lexes ("--".toList ++ body) .other rest
  | longComment {text rest : List Char} :
    LongBracket text → Lexes ("--".toList ++ text) .other rest
  | string {quote : Char} {text rest : List Char} :
    quote = '"' ∨ quote = '\'' → Quoted quote text → Lexes (quote :: text) .other rest
  | longString {text rest : List Char} : LongBracket text → Lexes text .other rest
  | opening {b : Bracket} {rest : List Char} :
    ¬ OpensLong (b.opener :: rest) → Lexes [b.opener] (.opening b) rest
  | closing {b : Bracket} {rest : List Char} : Lexes [b.closer] (.closing b) rest
  | word {c : Char} {body rest : List Char} :
    isWordStart c = true → (∀ d ∈ body, isWordChar d = true) → Stops isWordChar rest →
    Lexes (c :: body) (.word (c :: body)) rest
  | number {c : Char} {body rest : List Char} :
    c.isDigit = true → (∀ d ∈ body, isNumberChar d = true) → Stops isNumberChar rest →
    Lexes (c :: body) .other rest
  | single {c : Char} {rest : List Char} :
    c ∉ marks → isWordStart c = false → c.isDigit = false →
    (c = '-' → rest.head? ≠ some '-') → Lexes [c] .other rest

inductive Splits : List Char → List Token → Prop
  | nil : Splits [] []
  | cons {text rest : List Char} {t : Token} {ts : List Token} :
    Lexes text t rest → Splits rest ts → Splits (text ++ rest) (t :: ts)

/-! ## Long brackets -/

theorem longLevel?_eq_some {s : List Char} {level : Nat} :
    longLevel? s = some level ↔ ∃ after, '[' :: s = longOpening level ++ after := by
  simp only [longOpening, List.cons_append, List.cons.injEq, true_and]
  induction s generalizing level with
  | nil => simp [longLevel?]
  | cons c s ih =>
    by_cases hopen : c = '['
    · subst hopen
      cases level with
      | zero => simp [longLevel?]
      | succ level => simp [longLevel?, List.replicate_succ]
    · by_cases hequals : c = '='
      · subst hequals
        cases level with
        | zero => simp [longLevel?]
        | succ level => simp [longLevel?, List.replicate_succ, ih]
      · cases level with
        | zero => simp [longLevel?, hopen, hequals]
        | succ level => simp [longLevel?, hopen, hequals, List.replicate_succ]

theorem longLevel?_isSome {s : List Char} : (longLevel? s).isSome ↔ OpensLong ('[' :: s) := by
  simp only [Option.isSome_iff_exists, longLevel?_eq_some, OpensLong]

theorem longBody?_closedBy {level : Nat} {s text rest : List Char}
    (h : longBody? level s = some (text, rest)) : ClosedBy level text := by
  induction s generalizing text with
  | nil => simp [longBody?] at h
  | cons c s ih =>
    rw [longBody?] at h
    split at h
    · next r hr =>
      split at hr
      · next hc =>
        subst hc
        cases h
        refine ⟨⟨[], rfl⟩, fun before after heq => ?_⟩
        have hlen := congrArg List.length heq
        rw [← longClosing, List.length_append, List.length_append] at hlen
        exact List.length_eq_zero_iff.mp (by omega)
      · cases hr
    · next hnone =>
      cases hbody : longBody? level s with
      | none => simp [hbody] at h
      | some p =>
        obtain ⟨inner, r⟩ := p
        rw [hbody] at h
        cases h
        obtain ⟨⟨body, rfl⟩, hfirst⟩ := ih hbody
        refine ⟨⟨c :: body, rfl⟩, fun before after heq => ?_⟩
        cases before with
        | nil =>
          -- a closing bracket right here would have been found
          obtain ⟨rfl, hinner⟩ : c = ']' ∧ body ++ longClosing level = longCloser level ++ after := by
            simpa [longClosing] using heq
          have hs := longBody?_append hbody
          rw [hinner, List.append_assoc] at hs
          rw [if_pos rfl, ← hs, Text.after?_append] at hnone
          cases hnone
        | cons d before => exact hfirst before after (List.cons.inj heq).2

theorem longBody?_of_closedBy {level : Nat} {text : List Char} (h : ClosedBy level text)
    (rest : List Char) : longBody? level (text ++ rest) = some (text, rest) := by
  obtain ⟨⟨body, rfl⟩, hfirst⟩ := h
  induction body with
  | nil => simp [longBody?, longClosing, Text.after?_append]
  | cons c body ih =>
    have hlater : longBody? level (body ++ longClosing level ++ rest) =
        some (body ++ longClosing level, rest) :=
      ih fun before after heq => hfirst (c :: before) after (congrArg (c :: ·) heq)
    have hhere : (if c = ']' then Text.after? (longCloser level) (body ++ longClosing level ++ rest)
        else none) = none := by
      split
      · next hc =>
        subst hc
        cases hafter : Text.after? (longCloser level) (body ++ longClosing level ++ rest) with
        | none => rfl
        | some r =>
          have hclosing : longClosing level <+: ']' :: (body ++ longClosing level ++ rest) := by
            rw [Text.eq_append_of_after? hafter]
            exact ⟨r, rfl⟩
          have htext : ']' :: (body ++ longClosing level) <+:
              ']' :: (body ++ longClosing level ++ rest) := ⟨rest, rfl⟩
          obtain ⟨after, heq⟩ := List.prefix_of_prefix_length_le hclosing htext
            (by simp only [List.length_cons, List.length_append]; omega)
          have hnil := hfirst [] after heq.symm
          have hlen := congrArg List.length heq
          simp only [hnil, List.length_cons, List.length_append, List.length_nil] at hlen
          omega
      · rfl
    rw [List.cons_append, List.cons_append, longBody?, hhere, hlater]
    rfl

theorem longRest?_eq {level : Nat} (s : List Char) :
    longRest? level ((longOpening level).tail ++ s) =
      (longBody? level s).map fun (body, rest) => ((longOpening level).tail ++ body, rest) := by
  have hlen : (longOpening level).tail.length = level + 1 := by simp [longOpening]
  rw [longRest?, ← hlen, List.drop_left, List.take_left]

theorem longRest?_longBracket {level : Nat} {s body rest : List Char}
    (hlevel : longLevel? s = some level) (h : longRest? level s = some (body, rest)) :
    LongBracket ('[' :: body) := by
  obtain ⟨after, hafter⟩ := longLevel?_eq_some.mp hlevel
  obtain rfl : s = (longOpening level).tail ++ after := (List.cons.inj hafter).2
  rw [longRest?_eq] at h
  cases hbody : longBody? level after with
  | none => simp [hbody] at h
  | some p =>
    rw [hbody] at h
    cases h
    exact .mk (longBody?_closedBy hbody)

theorem longRest?_of_longBracket {text : List Char} (h : LongBracket text) (rest : List Char) :
    ∃ body level, text = '[' :: body ∧ longLevel? (body ++ rest) = some level ∧
      longRest? level (body ++ rest) = some (body, rest) := by
  cases h with
  | @mk level text hclosed =>
    refine ⟨(longOpening level).tail ++ text, level, rfl, ?_, ?_⟩
    · refine longLevel?_eq_some.mpr ⟨text ++ rest, ?_⟩
      rw [List.append_assoc]
      rfl
    · rw [List.append_assoc, longRest?_eq, longBody?_of_closedBy hclosed]
      rfl

/-! ## Strings -/

theorem quotedBody?_quoted {quote : Char} {s text rest : List Char}
    (h : quotedBody? quote s = some (text, rest)) : Quoted quote text := by
  fun_induction quotedBody? quote s generalizing text with
  | case1 => cases h
  | case2 => cases h
  | case3 c s ih =>
    cases hbody : quotedBody? quote s with
    | none => simp [hbody] at h
    | some p =>
      rw [hbody] at h
      cases h
      exact .escaped c (ih hbody)
  | case4 => cases h
  | case5 =>
    cases h
    exact .close
  | case6 c s hlast hescape hline hquote ih =>
    cases hbody : quotedBody? quote s with
    | none => simp [hbody] at h
    | some p =>
      rw [hbody] at h
      cases h
      have hplain : c ≠ '\\' := by
        intro hc
        subst hc
        cases s with
        | nil => exact hlast rfl rfl
        | cons d s => exact hescape d s rfl rfl
      exact .plain hplain hline hquote (ih hbody)

theorem quotedBody?_of_quoted {quote : Char} (hq : quote = '"' ∨ quote = '\'') {text : List Char}
    (h : Quoted quote text) (rest : List Char) :
    quotedBody? quote (text ++ rest) = some (text, rest) := by
  induction h with
  | close => rcases hq with rfl | rfl <;> simp [quotedBody?]
  | escaped c _ ih => simp [quotedBody?, ih]
  | plain hescape hline hquote _ ih => simp [quotedBody?, hescape, hline, hquote, ih]

/-! ## Lexemes -/

theorem commentRest_lexes {s body rest : List Char} (h : commentRest s = .ok (body, rest)) :
    Lexes ("--".toList ++ body) .other rest := by
  have hline (hs : ¬ OpensLong s) :
      Lexes ("--".toList ++ s.takeWhile (· ≠ '\n')) .other (s.dropWhile (· ≠ '\n')) := by
    refine .lineComment ?_ ?_ (stops_dropWhile _ s)
    · intro hmem
      simpa using List.mem_takeWhile_imp hmem
    · rwa [List.takeWhile_append_dropWhile]
  unfold commentRest at h
  split at h
  · next s =>
    cases hlevel : longLevel? s with
    | some level =>
      cases hlong : longRest? level s with
      | some p =>
        simp only [hlevel, hlong] at h
        cases h
        exact .longComment (longRest?_longBracket hlevel hlong)
      | none =>
        simp only [hlevel, hlong] at h
        cases h
    | none =>
      simp only [hlevel] at h
      cases h
      refine hline fun hopens => ?_
      rw [← longLevel?_isSome, hlevel] at hopens
      cases hopens
  · next hopen =>
    cases h
    refine hline ?_
    rintro ⟨level, after, rfl⟩
    exact hopen _ rfl

theorem commentRest_of_line {body rest : List Char} (hbody : '\n' ∉ body)
    (hopens : ¬ OpensLong (body ++ rest)) (hrest : Stops (· ≠ '\n') rest) :
    commentRest (body ++ rest) = .ok (body, rest) := by
  have hall : ∀ c ∈ body, decide (c ≠ '\n') = true := by
    intro c hc
    exact decide_eq_true fun heq => hbody (heq ▸ hc)
  have hline : Except.ok (ε := Unfinished)
      ((body ++ rest).takeWhile (· ≠ '\n'), (body ++ rest).dropWhile (· ≠ '\n')) =
      .ok (body, rest) := by
    rw [takeWhile_of_stops hall hrest, dropWhile_of_stops hall hrest]
  unfold commentRest
  split
  · next s hs =>
    cases hlevel : longLevel? s with
    | none => exact hs ▸ hline
    | some level =>
      rw [hs, ← longLevel?_isSome, hlevel] at hopens
      exact absurd rfl hopens
  · exact hline

theorem commentRest_of_longBracket {text : List Char} (h : LongBracket text) (rest : List Char) :
    commentRest (text ++ rest) = .ok (text, rest) := by
  obtain ⟨body, level, rfl, hlevel, hlong⟩ := longRest?_of_longBracket h rest
  simp only [List.cons_append, commentRest, hlevel, hlong]

theorem not_opensLong {c : Char} (hc : c ≠ '[') (s : List Char) : ¬ OpensLong (c :: s) := by
  rintro ⟨level, after, heq⟩
  exact hc (List.cons.inj heq).1

theorem lexes_square {s body rest : List Char} {t : Token} (h : lexeme '[' s = .ok (t, body, rest)) :
    Lexes ('[' :: body) t rest := by
  unfold lexeme at h
  rw [if_neg (by simp), if_neg (by decide), if_pos rfl] at h
  cases hlevel : longLevel? s with
  | none =>
    rw [hlevel] at h
    cases h
    refine .opening (b := .square) fun hopens => ?_
    rw [Bracket.opener, ← longLevel?_isSome, hlevel] at hopens
    cases hopens
  | some level =>
    cases hlong : longRest? level s with
    | none => simp [hlevel, hlong] at h
    | some p =>
      simp only [hlevel, hlong] at h
      cases h
      exact .longString (longRest?_longBracket hlevel hlong)

theorem lexeme_quote {quote : Char} (hquote : quote = '"' ∨ quote = '\'') (s : List Char) :
    lexeme quote s = match quotedBody? quote s with
      | some (body, rest) => .ok (.other, body, rest)
      | none => .error .string := by
  have hdash : quote ≠ '-' := by rcases hquote with rfl | rfl <;> decide
  unfold lexeme
  exact (if_neg fun h => hdash h.1).trans (if_pos hquote)

theorem lexes_quote {c : Char} {s body rest : List Char} {t : Token} (hquote : c = '"' ∨ c = '\'')
    (h : lexeme c s = .ok (t, body, rest)) : Lexes (c :: body) t rest := by
  rw [lexeme_quote hquote] at h
  cases hbody : quotedBody? c s with
  | none => simp [hbody] at h
  | some p =>
    rw [hbody] at h
    cases h
    exact .string hquote (quotedBody?_quoted hbody)

theorem lexeme_lexes {c : Char} {s body rest : List Char} {t : Token}
    (h : lexeme c s = .ok (t, body, rest)) : Lexes (c :: body) t rest := by
  by_cases hquote : c = '"' ∨ c = '\''
  · exact lexes_quote hquote h
  by_cases hsquare : c = '['
  · subst hsquare
    exact lexes_square h
  unfold lexeme at h
  by_cases hcomment : c = '-' ∧ s.head? = some '-'
  · rw [if_pos hcomment] at h
    obtain ⟨rfl, -⟩ := hcomment
    cases hrest : commentRest s.tail with
    | error e => simp [hrest, Except.map] at h
    | ok p =>
      rw [hrest] at h
      cases h
      exact commentRest_lexes hrest
  rw [if_neg hcomment, if_neg hquote, if_neg hsquare] at h
  split at h
  · next hc =>
    cases h
    exact hc ▸ .opening (b := .round) (not_opensLong (by decide) _)
  split at h
  · next hc =>
    cases h
    exact hc ▸ .opening (b := .curly) (not_opensLong (by decide) _)
  split at h
  · next hc =>
    cases h
    exact hc ▸ .closing (b := .round)
  split at h
  · next hc =>
    cases h
    exact hc ▸ .closing (b := .square)
  split at h
  · next hc =>
    cases h
    exact hc ▸ .closing (b := .curly)
  split at h
  · next hword =>
    cases h
    exact .word hword (fun d hd => List.mem_takeWhile_imp hd) (stops_dropWhile _ s)
  split at h
  · next hdigit =>
    cases h
    exact .number hdigit (fun d hd => List.mem_takeWhile_imp hd) (stops_dropWhile _ s)
  · next hround hcurly hround' hsquare' hcurly' hword hdigit =>
    cases h
    refine .single ?_ (by simpa using hword) (by simpa using hdigit) fun hc hnext =>
      hcomment ⟨hc, hnext⟩
    simp only [marks, List.mem_cons, List.not_mem_nil, or_false, not_or]
    exact ⟨fun e => hquote (.inl e), fun e => hquote (.inr e), hround, hsquare, hcurly, hround',
      hsquare', hcurly'⟩

theorem lexeme_unmarked {c : Char} {s : List Char} (hmarks : c ∉ marks)
    (hcomment : c = '-' → s.head? ≠ some '-') :
    lexeme c s =
      if isWordStart c then
        .ok (.word (c :: s.takeWhile isWordChar), s.takeWhile isWordChar, s.dropWhile isWordChar)
      else if c.isDigit then .ok (.other, s.takeWhile isNumberChar, s.dropWhile isNumberChar)
      else .ok (.other, [], s) := by
  simp only [marks, List.mem_cons, List.not_mem_nil, or_false, not_or] at hmarks
  obtain ⟨hdouble, hsingle, hround, hsquare, hcurly, hround', hsquare', hcurly'⟩ := hmarks
  have hdash : ¬ (c = '-' ∧ s.head? = some '-') := fun h => hcomment h.1 h.2
  simp only [lexeme, hdash, hdouble, hsingle, hround, hsquare, hcurly, hround', hsquare', hcurly',
    or_self, if_false]

theorem unmarked_of_isWordStart {c : Char} (h : isWordStart c = true) : c ∉ marks ∧ c ≠ '-' := by
  constructor
  · intro hc
    simp only [marks, List.mem_cons, List.not_mem_nil, or_false] at hc
    rcases hc with rfl | rfl | rfl | rfl | rfl | rfl | rfl | rfl <;> revert h <;> decide
  · rintro rfl
    revert h
    decide

theorem unmarked_of_isDigit {c : Char} (h : c.isDigit = true) :
    c ∉ marks ∧ c ≠ '-' ∧ isWordStart c = false := by
  have hne (d : Char) (hd : d.isDigit = false) : c ≠ d := isDigit_ne h hd
  refine ⟨?_, hne '-' rfl, ?_⟩
  · simp [marks, hne]
  · simp [isWordStart, isAlpha_of_isDigit h, hne]

theorem lexeme_of_lexes {text rest : List Char} {t : Token} (h : Lexes text t rest) :
    ∃ c body, text = c :: body ∧ lexeme c (body ++ rest) = .ok (t, body, rest) := by
  cases h with
  | @lineComment body _ hbody hopens hrest =>
    refine ⟨'-', '-' :: body, rfl, ?_⟩
    simp [lexeme, commentRest_of_line hbody hopens hrest, Except.map]
  | @longComment text _ hlong =>
    refine ⟨'-', '-' :: text, rfl, ?_⟩
    simp [lexeme, commentRest_of_longBracket hlong, Except.map]
  | @string quote text _ hquote hbody =>
    refine ⟨quote, text, rfl, ?_⟩
    have hdash : quote ≠ '-' := by rcases hquote with rfl | rfl <;> decide
    simp [lexeme, hdash, hquote, quotedBody?_of_quoted hquote hbody]
  | longString hlong =>
    obtain ⟨body, level, rfl, hlevel, hrest⟩ := longRest?_of_longBracket hlong rest
    exact ⟨'[', body, rfl, by simp [lexeme, hlevel, hrest]⟩
  | @opening b _ hopens =>
    refine ⟨b.opener, [], rfl, ?_⟩
    cases b with
    | round => rfl
    | square =>
      cases hlevel : longLevel? rest with
      | none => simp [lexeme, Bracket.opener, hlevel]
      | some level =>
        rw [Bracket.opener, ← longLevel?_isSome, hlevel] at hopens
        exact absurd rfl hopens
    | curly => rfl
  | @closing b => exact ⟨b.closer, [], rfl, by cases b <;> rfl⟩
  | @word c body _ hword hbody hrest =>
    obtain ⟨hmarks, hdash⟩ := unmarked_of_isWordStart hword
    refine ⟨c, body, rfl, ?_⟩
    rw [lexeme_unmarked hmarks fun e => absurd e hdash, if_pos hword,
      takeWhile_of_stops hbody hrest, dropWhile_of_stops hbody hrest]
  | @number c body _ hdigit hbody hrest =>
    obtain ⟨hmarks, hdash, hword⟩ := unmarked_of_isDigit hdigit
    refine ⟨c, body, rfl, ?_⟩
    rw [lexeme_unmarked hmarks fun e => absurd e hdash, hword, if_neg (by decide), if_pos hdigit,
      takeWhile_of_stops hbody hrest, dropWhile_of_stops hbody hrest]
  | @single c _ hmarks hword hdigit hdash =>
    refine ⟨c, [], rfl, ?_⟩
    rw [List.nil_append, lexeme_unmarked hmarks hdash, hword, hdigit]
    rfl

/-! ## The whole script -/

theorem tokens_cons {c : Char} {s body rest : List Char} {t : Token}
    (h : lexeme c s = .ok (t, body, rest)) (line : Nat) :
    tokens line (c :: s) =
      ((t, line) :: (tokens (line + (c :: body).count '\n') rest).1,
        (tokens (line + (c :: body).count '\n') rest).2) := by
  rw [tokens]
  split
  · next what hwhat =>
    rw [hwhat] at h
    cases h
  · next t' body' rest' h' =>
    rw [h'] at h
    cases h
    rfl

theorem tokens_error {c : Char} {s : List Char} {what : Unfinished} (h : lexeme c s = .error what) (line : Nat) :
    tokens line (c :: s) = ([], some ⟨line, .unfinished what⟩) := by
  rw [tokens]
  split
  · next what' hwhat =>
    rw [hwhat] at h
    cases h
    rfl
  · next hlexeme =>
    rw [hlexeme] at h
    cases h

theorem splits_of_tokens {line : Nat} {s : List Char} (h : (tokens line s).2 = none) :
    Splits s ((tokens line s).1.map Prod.fst) := by
  fun_induction tokens line s with
  | case1 => exact .nil
  | case2 => cases h
  | case3 line c s t body rest hlexeme _ later issue hlater ih =>
    rw [hlater] at ih
    rw [← lexeme_append hlexeme, ← List.cons_append]
    exact .cons (lexeme_lexes hlexeme) (ih h)

theorem tokens_of_splits {s : List Char} {ts : List Token} (h : Splits s ts) (line : Nat) :
    (tokens line s).2 = none ∧ (tokens line s).1.map Prod.fst = ts := by
  induction h generalizing line with
  | nil => simp [tokens]
  | cons hlexes _ ih =>
    obtain ⟨c, body, rfl, hlexeme⟩ := lexeme_of_lexes hlexes
    obtain ⟨hnone, hts⟩ := ih (line + (c :: body).count '\n')
    rw [List.cons_append, tokens_cons hlexeme]
    exact ⟨hnone, congrArg _ hts⟩

/-- **A script is cut to its end into given tokens exactly when it splits into them.** -/
theorem tokens_eq_iff (line : Nat) (s : List Char) (ts : List Token) :
    (tokens line s).2 = none ∧ (tokens line s).1.map Prod.fst = ts ↔ Splits s ts := by
  constructor
  · rintro ⟨hnone, rfl⟩
    exact splits_of_tokens hnone
  · intro h
    exact tokens_of_splits h line

end RemoteConsole.Script
