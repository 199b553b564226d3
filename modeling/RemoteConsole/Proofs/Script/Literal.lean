import RemoteConsole.Proofs.Script.Check
import RemoteConsole.Proofs.Table.Literal

/-!
# Literals in scripts

The literal of a value is cut into lexemes that leave the open constructs of a script as they were.
Strings end at their own quote and brackets enclose what is neutral again; only the end of a literal
can be lost, when what follows continues its last word or number.
-/

namespace RemoteConsole

def Value.IsNumeral : Value → Prop
  | .integer _ => True
  | .number (.finite _ _) => True
  | _ => False

namespace Script

open Text (Stops stops_dropWhile stops_cons stops_append dropWhile_stops Digits)
open Table (signed joined literalItems_joined literalEntries_joined)

/-- The tokens leave any open constructs as they were. -/
def Neutral (ts : List Token) : Prop := ∀ stack, Run ts stack stack

theorem neutral_nil : Neutral [] := fun _ => .nil

theorem Neutral.append {ts us : List Token} (h : Neutral ts) (h' : Neutral us) : Neutral (ts ++ us) :=
  fun stack => (h stack).append (h' stack)

theorem neutral_plain {t : Token} (h : t.Plain) : Neutral [t] := fun _ => .cons (.plain h) .nil

theorem Neutral.enclosed (b : Bracket) {ts : List Token} (h : Neutral ts) :
    Neutral (.opening b :: ts ++ [.closing b]) :=
  fun _ => .enclosed (.bracket b) (.bracket b) (by simp) (h _)

/-- From a text to its rest the check finds neutral tokens only. -/
def Passes (s rest : List Char) : Prop :=
  ∀ us, Splits rest us → ∃ ts, Neutral ts ∧ Splits s (ts ++ us)

theorem Passes.refl (s : List Char) : Passes s s := fun _ h => ⟨[], neutral_nil, h⟩

theorem Passes.trans {s t u : List Char} (h : Passes s t) (h' : Passes t u) : Passes s u := by
  intro us hu
  obtain ⟨later, hlater, ht⟩ := h' us hu
  obtain ⟨ts, hts, hs⟩ := h _ ht
  refine ⟨ts ++ later, hts.append hlater, ?_⟩
  rwa [List.append_assoc]

instance : Trans Passes Passes Passes := ⟨Passes.trans⟩

theorem check_of_run {s : List Char} {ts : List Token} (hs : Splits s ts) (h : Run ts [] []) : check s = .ok () := by
  obtain ⟨hnone, hts⟩ := (tokens_eq_iff 1 s ts).mpr hs
  rw [check_eq_ok_iff]
  refine ⟨hnone, (foldlM_step_eq_nil_iff _).mpr ?_⟩
  rw [hts]
  exact (run_nil_iff ts).mp h

theorem run_of_check {s : List Char} (h : check s = .ok ()) : ∃ ts, Splits s ts ∧ Run ts [] [] := by
  obtain ⟨hnone, hfold⟩ := (check_eq_ok_iff s).mp h
  refine ⟨_, splits_of_tokens hnone, (run_nil_iff _).mpr ?_⟩
  exact (foldlM_step_eq_nil_iff _).mp hfold

theorem check_of_passes {s : List Char} (h : Passes s []) : check s = .ok () := by
  obtain ⟨ts, hneutral, hsplits⟩ := h [] .nil
  rw [List.append_nil] at hsplits
  exact check_of_run hsplits (hneutral [])

/-! ## Single lexemes -/

variable {rest : List Char}

theorem passes_lexeme {text : List Char} {t : Token} (h : Lexes text t rest) (ht : t.Plain) :
    Passes (text ++ rest) rest :=
  fun _ hrest => ⟨[t], neutral_plain ht, .cons h hrest⟩

theorem passes_enclosed (b : Bracket) {body : List Char} (hopen : ¬ OpensLong (b.opener :: body))
    (h : Passes body (b.closer :: rest)) : Passes (b.opener :: body) rest := by
  intro us hrest
  have hclose : Splits ([b.closer] ++ rest) (.closing b :: us) := .cons .closing hrest
  obtain ⟨ts, hts, hbody⟩ := h _ hclose
  refine ⟨.opening b :: ts ++ [.closing b], hts.enclosed b, ?_⟩
  have hwhole : Splits ([b.opener] ++ body) (.opening b :: (ts ++ .closing b :: us)) := .cons (.opening hopen) hbody
  rwa [List.append_assoc]

theorem passes_round {body : List Char} (h : Passes body (')' :: rest)) : Passes ('(' :: body) rest :=
  passes_enclosed .round (not_opensLong (by decide) _) h

theorem passes_curly {body : List Char} (h : Passes body ('}' :: rest)) : Passes ('{' :: body) rest :=
  passes_enclosed .curly (not_opensLong (by decide) _) h

theorem passes_word {c : Char} {body : List Char} (hc : isWordStart c = true) (hbody : body.all isWordChar = true)
    (hplain : c :: body ∉ structuralWords) (hrest : Stops isWordChar rest) : Passes (c :: body ++ rest) rest :=
  passes_lexeme (.word hc (List.all_eq_true.mp hbody) hrest) hplain

theorem passes_single {c : Char} (hmarks : c ∉ marks) (hword : isWordStart c = false) (hdigit : c.isDigit = false)
    (hdash : c = '-' → rest.head? ≠ some '-') : Passes (c :: rest) rest :=
  have hlexes : Lexes [c] .other rest := .single hmarks hword hdigit hdash
  passes_lexeme hlexes trivial

theorem passes_symbol {c : Char} (h : c ∉ marks ∧ c ≠ '-' ∧ isWordStart c = false ∧ c.isDigit = false) :
    Passes (c :: rest) rest := by
  obtain ⟨hmarks, hdash, hword, hdigit⟩ := h
  exact passes_single hmarks hword hdigit fun h => absurd h hdash

theorem passes_dash (h : rest.head? ≠ some '-') : Passes ('-' :: rest) rest :=
  passes_single (by decide) (by decide) (by decide) fun _ => h

theorem quoted_escapeChar (c : Char) {text : List Char} (h : Quoted '"' text) : Quoted '"' (escapeChar c ++ text) := by
  rcases Table.escapeChar_cases c with ⟨d, _, he, -⟩ | ⟨-, he⟩ | ⟨he, hescape, hquote⟩
  · rw [he]
    exact .escaped d h
  · have hdigit (k : Nat) {s : List Char} (hs : Quoted '"' s) : Quoted '"' (Nat.digitChar (k % 10) :: s) := by
      have hd := Table.isDigit_digitChar_mod k
      exact .plain (Text.isDigit_ne hd rfl) (Text.isDigit_ne hd rfl) (Text.isDigit_ne hd rfl) hs
    rw [he, threeDigits]
    exact .escaped _ (hdigit _ (hdigit _ h))
  · have hline : c ≠ '\n' := by
      rintro rfl
      cases he
    rw [he]
    exact .plain hescape hline hquote h

theorem passes_quote (s rest : List Char) : Passes (quote s ++ rest) rest := by
  have hbody : Quoted '"' (s.flatMap escapeChar ++ ['"']) := by
    induction s with
    | nil => exact .close
    | cons c s ih =>
      rw [List.flatMap_cons, List.append_assoc]
      exact quoted_escapeChar c ih
  exact passes_lexeme (.string (.inl rfl) hbody) trivial

/-! ## Fixed texts -/

def plainText : List Char → Bool
  | [] => true
  | c :: s => c ∉ marks && c ≠ '-' && !c.isDigit && (c :: s).takeWhile isWordChar ∉ structuralWords && plainText s

theorem plainText_dropWhile (p : Char → Bool) {s : List Char} (h : plainText s = true) :
    plainText (s.dropWhile p) = true := by
  induction s with
  | nil => exact h
  | cons c s ih =>
    rw [List.dropWhile_cons]
    split
    · simp only [plainText, Bool.and_eq_true] at h
      exact ih h.2
    · exact h

theorem isWordChar_of_isWordStart {c : Char} (h : isWordStart c = true) : isWordChar c = true := by
  simp only [isWordStart, isWordChar, Char.isAlphanum, Bool.or_eq_true] at h ⊢
  tauto

theorem passes_plain {s : List Char} (h : plainText s = true) (hrest : Stops isWordChar rest) : Passes (s ++ rest) rest := by
  match s with
  | [] => exact .refl rest
  | c :: s =>
    have hplain := h
    simp only [plainText, Bool.and_eq_true, Bool.not_eq_true', decide_eq_true_eq] at hplain
    obtain ⟨⟨⟨⟨hmarks, hdash⟩, hdigit⟩, hword⟩, hs⟩ := hplain
    by_cases hstart : isWordStart c = true
    · have hc := isWordChar_of_isWordStart hstart
      rw [List.takeWhile_cons_of_pos hc] at hword
      have hstops := stops_append (stops_dropWhile isWordChar s) hrest
      have hhere := passes_word hstart List.all_takeWhile hword hstops
      rw [List.cons_append, ← List.append_assoc, List.takeWhile_append_dropWhile] at hhere
      exact hhere.trans (passes_plain (plainText_dropWhile isWordChar hs) hrest)
    · rw [Bool.not_eq_true] at hstart
      have hhere : Passes (c :: (s ++ rest)) (s ++ rest) := passes_symbol ⟨hmarks, hdash, hstart, hdigit⟩
      exact hhere.trans (passes_plain hs hrest)
termination_by s.length
decreasing_by
  · have hle := (List.dropWhile_suffix isWordChar (l := s)).length_le
    exact Nat.lt_succ_of_le hle
  · exact Nat.lt_succ_self _

theorem passes_fixed {s : List Char} (h : plainText s = true) (hrest : Stops isWordChar rest) :
    Passes ((String.ofList s).toList ++ rest) rest := by
  rw [String.toList_ofList]
  exact passes_plain h hrest

/-! ## Numbers -/

theorem isNumberChar_of_isWordChar {c : Char} (h : isWordChar c = true) : isNumberChar c = true := by
  simp only [isWordChar, isNumberChar, Bool.or_eq_true] at h ⊢
  tauto

theorem stops_word (h : Stops isNumberChar rest) : Stops isWordChar rest := by
  intro c hc
  by_contra hword
  rw [Bool.not_eq_false] at hword
  have hnumber := h c hc
  rw [isNumberChar_of_isWordChar hword] at hnumber
  cases hnumber

theorem isNumberChar_of_isDigit {c : Char} (h : c.isDigit = true) : isNumberChar c = true := by
  simp [isNumberChar, Char.isAlphanum, h]

inductive NumberRun : List Char → Prop
  | mk {c : Char} {body : List Char} : c.isDigit = true → (∀ d ∈ body, isNumberChar d = true) → NumberRun (c :: body)

theorem NumberRun.append {s t : List Char} (h : NumberRun s) (ht : ∀ c ∈ t, isNumberChar c = true) : NumberRun (s ++ t) := by
  cases h with
  | mk hc hbody =>
    refine .mk hc fun d hd => ?_
    rcases List.mem_append.mp hd with hd | hd
    · exact hbody d hd
    · exact ht d hd

theorem numberRun_digits {s : List Char} (hne : s ≠ []) (hs : Digits s) : NumberRun s := by
  obtain ⟨c, body, rfl⟩ := List.exists_cons_of_ne_nil hne
  exact .mk (hs c List.mem_cons_self) fun d hd => isNumberChar_of_isDigit (hs d (List.mem_cons_of_mem _ hd))

theorem NumberRun.chars {s : List Char} (h : NumberRun s) : ∀ c ∈ s, isNumberChar c = true := by
  intro d hd
  cases h with
  | mk hc hbody =>
    rcases List.mem_cons.mp hd with rfl | hd
    · exact isNumberChar_of_isDigit hc
    · exact hbody d hd

theorem NumberRun.passes {s : List Char} (h : NumberRun s) (rest : List Char) :
    Passes (s ++ rest) (rest.dropWhile isNumberChar) := by
  have hrun := h.append fun c hc => List.mem_takeWhile_imp (p := isNumberChar) (l := rest) hc
  rw [← List.takeWhile_append_dropWhile (p := isNumberChar) (l := rest), ← List.append_assoc,
    List.takeWhile_append_dropWhile]
  generalize s ++ rest.takeWhile isNumberChar = run at hrun
  cases hrun with
  | mk hc hbody => exact passes_lexeme (.number hc hbody (stops_dropWhile _ rest)) trivial

theorem NumberRun.dropWhile_append {s : List Char} (h : NumberRun s) (rest : List Char) :
    (s ++ rest).dropWhile isNumberChar = rest.dropWhile isNumberChar := List.dropWhile_append_of_pos h.chars

theorem NumberRun.head_ne {s : List Char} (h : NumberRun s) (rest : List Char) : (s ++ rest).head? ≠ some '-' := by
  cases h with
  | mk hc hbody =>
    intro heq
    exact Text.isDigit_ne hc rfl (Option.some.inj heq)

/-- A negative exponent cuts a numeral into two numbers. -/
theorem numberRun_text (n : Numeral) :
    NumberRun n.text ∨ ∃ s t, n.text = s ++ '-' :: t ∧ NumberRun s ∧ NumberRun t := by
  have hfraction : ∀ c ∈ Numeral.fractionText n.fraction, isNumberChar c = true := by
    intro c hc
    cases hf : n.fraction with
    | nil =>
      rw [hf] at hc
      cases hc
    | cons d f =>
      rw [hf, Numeral.fractionText] at hc
      rcases List.mem_cons.mp hc with rfl | hc
      · rfl
      · exact isNumberChar_of_isDigit (n.fraction_digits c (hf ▸ hc))
  have hmantissa := (numberRun_digits n.whole_ne_nil n.whole_digits).append hfraction
  have htext : n.text = n.whole ++ Numeral.fractionText n.fraction ++ Numeral.exponentText n.exponent := by
    rw [Numeral.text, List.append_assoc]
  rw [htext]
  cases he : n.exponent with
  | none => exact .inl (hmantissa.append (by simp [Numeral.exponentText]))
  | some p =>
    obtain ⟨negative, digits⟩ := p
    obtain ⟨hne, hdigits⟩ := n.exponent_digits _ he
    have hrun := numberRun_digits hne hdigits
    cases negative with
    | true =>
      refine .inr ⟨n.whole ++ Numeral.fractionText n.fraction ++ ['e'], digits, ?_, hmantissa.append ?_, hrun⟩
      · simp [Numeral.exponentText]
      · simp only [List.forall_mem_singleton]
        rfl
    | false =>
      refine .inl (hmantissa.append fun c hc => ?_)
      rcases List.mem_cons.mp hc with rfl | hc
      · rfl
      · exact hrun.chars c hc

theorem passes_text (n : Numeral) (rest : List Char) : Passes (n.text ++ rest) (rest.dropWhile isNumberChar) := by
  rcases numberRun_text n with hrun | ⟨s, t, htext, hs, ht⟩
  · exact hrun.passes rest
  · rw [htext, List.append_assoc]
    calc Passes (s ++ '-' :: (t ++ rest)) ('-' :: (t ++ rest)) := hs.passes _
      Passes _ (t ++ rest) := passes_dash (ht.head_ne rest)
      Passes _ (rest.dropWhile isNumberChar) := ht.passes rest

theorem passes_dropWhile_text (n : Numeral) (rest : List Char) :
    Passes ((n.text ++ rest).dropWhile isNumberChar) (rest.dropWhile isNumberChar) := by
  rcases numberRun_text n with hrun | ⟨s, t, htext, hs, ht⟩
  · rw [hrun.dropWhile_append]
    exact .refl _
  · rw [htext, List.append_assoc, hs.dropWhile_append]
    calc Passes ('-' :: (t ++ rest)) (t ++ rest) := passes_dash (ht.head_ne rest)
      Passes _ (rest.dropWhile isNumberChar) := ht.passes rest

theorem passes_signed (negative : Bool) (n : Numeral) (rest : List Char) :
    Passes (signed negative n.text ++ rest) (rest.dropWhile isNumberChar) := by
  cases negative with
  | false => exact passes_text n rest
  | true =>
    obtain ⟨c, s, htext, hc⟩ := n.text_head
    have hhead : (n.text ++ rest).head? ≠ some '-' := by
      rw [htext]
      intro heq
      exact Text.isDigit_ne hc rfl (Option.some.inj heq)
    exact (passes_dash hhead).trans (passes_text n rest)

/-! ## Literals -/

theorem numeral_literal {v : Value} (h : v.IsNumeral) :
    ∃ (negative : Bool) (n : Numeral), v.literal = signed negative n.text := by
  cases v with
  | integer i =>
    obtain ⟨negative, n, htext, -⟩ := Table.intText_numeral i.toInt
    exact ⟨negative, n, htext⟩
  | number d =>
    cases d with
    | finite negative place =>
      obtain ⟨n, htext, -⟩ := Double.literal_numeral negative place
      exact ⟨negative, n, htext⟩
    | _ => exact h.elim
  | _ => exact h.elim

theorem passes_numeral {v : Value} (h : v.IsNumeral) (rest : List Char) :
    Passes (v.literal ++ rest) (rest.dropWhile isNumberChar) := by
  obtain ⟨negative, n, hliteral⟩ := numeral_literal h
  rw [hliteral]
  exact passes_signed negative n rest

theorem literal_cons (v : Value) : ∃ c s, v.literal = c :: s ∧ c ≠ '[' ∧ c ≠ '=' := by
  have hnumeral (h : v.IsNumeral) : ∃ c s, v.literal = c :: s ∧ c ≠ '[' ∧ c ≠ '=' := by
    obtain ⟨negative, n, hliteral⟩ := numeral_literal h
    obtain ⟨c, s, htext, hc⟩ := n.text_head
    rw [hliteral, htext]
    cases negative with
    | true => exact ⟨'-', c :: s, rfl, by decide, by decide⟩
    | false => exact ⟨c, s, rfl, Text.isDigit_ne hc rfl, Text.isDigit_ne hc rfl⟩
  cases v with
  | nil => exact ⟨'n', _, rfl, by decide, by decide⟩
  | boolean b =>
    cases b with
    | true => exact ⟨'t', _, rfl, by decide, by decide⟩
    | false => exact ⟨'f', _, rfl, by decide, by decide⟩
  | integer i => exact hnumeral trivial
  | number d =>
    cases d with
    | nan => exact ⟨'(', _, rfl, by decide, by decide⟩
    | infinite negative =>
      cases negative with
      | true => exact ⟨'-', _, rfl, by decide, by decide⟩
      | false => exact ⟨'m', _, rfl, by decide, by decide⟩
    | finite negative place => exact hnumeral trivial
  | string s => exact ⟨'"', _, rfl, by decide, by decide⟩
  | list items => exact ⟨'{', _, rfl, by decide, by decide⟩
  | map entries => exact ⟨'{', _, rfl, by decide, by decide⟩

theorem passes_huge (h : Stops isWordChar rest) : Passes ("math.huge".toList ++ rest) rest :=
  calc Passes ("math".toList ++ '.' :: ("huge".toList ++ rest)) ('.' :: ("huge".toList ++ rest)) := by
        refine passes_word (by decide) (by decide) (by decide) fun c hc => ?_
        cases hc
        rfl
    Passes _ ("huge".toList ++ rest) := passes_symbol (by decide)
    Passes _ rest := passes_word (by decide) (by decide) (by decide) h

theorem not_opensLong_quote (s t : List Char) : ¬ OpensLong ('[' :: (quote s ++ t)) := by
  rw [← longLevel?_isSome]
  intro h
  cases h

theorem passes_index (s : String) (rest : List Char) : Passes ('[' :: (quote s.toList ++ ']' :: rest)) rest :=
  passes_enclosed .square (not_opensLong_quote _ _) (passes_quote _ _)

theorem passes_joined {texts : List (List Char)}
    (h : ∀ text ∈ texts, ∀ rest, Stops isNumberChar rest → Passes (text ++ rest) rest) (hrest : Stops isNumberChar rest) :
    Passes (joined texts ++ rest) rest := by
  induction texts with
  | nil => exact .refl rest
  | cons text texts ih =>
    cases texts with
    | nil => exact h text List.mem_cons_self rest hrest
    | cons next texts =>
      have hlater := ih fun t ht => h t (List.mem_cons_of_mem _ ht)
      have htext : joined (text :: next :: texts) ++ rest = text ++ ',' :: ' ' :: (joined (next :: texts) ++ rest) := by
        simp [joined]
      rw [htext]
      generalize joined (next :: texts) ++ rest = later at hlater ⊢
      calc Passes (text ++ ',' :: ' ' :: later) (',' :: ' ' :: later) := h text List.mem_cons_self _ (stops_cons _ rfl)
        Passes _ (' ' :: later) := passes_symbol (by decide)
        Passes _ later := passes_symbol (by decide)
        Passes _ rest := hlater

theorem passes_table {texts : List (List Char)}
    (h : ∀ text ∈ texts, ∀ rest, Stops isNumberChar rest → Passes (text ++ rest) rest) (rest : List Char) :
    Passes ('{' :: (joined texts ++ ['}']) ++ rest) rest := by
  rw [List.cons_append, List.append_assoc]
  exact passes_curly (passes_joined h (stops_cons rest rfl))

theorem passes_entry {key : String} {v : Value}
    (hv : Passes (v.literal ++ rest) rest) : Passes (literalEntry (key, v) ++ rest) rest := by
  have htext : literalEntry (key, v) ++ rest =
      '[' :: (quote key.toList ++ ']' :: ' ' :: '=' :: ' ' :: (v.literal ++ rest)) := by
    simp [literalEntry]
  rw [htext]
  calc Passes ('[' :: (quote key.toList ++ ']' :: ' ' :: '=' :: ' ' :: (v.literal ++ rest)))
          (' ' :: '=' :: ' ' :: (v.literal ++ rest)) := passes_index key _
    Passes _ ('=' :: ' ' :: (v.literal ++ rest)) := passes_symbol (by decide)
    Passes _ (' ' :: (v.literal ++ rest)) := passes_symbol (by decide)
    Passes _ (v.literal ++ rest) := passes_symbol (by decide)
    Passes _ rest := hv

theorem passes_number {d : Double} (hword : Stops isWordChar rest) (hnumeral : (Value.number d).IsNumeral → Stops isNumberChar rest) :
    Passes (d.literal ++ rest) rest := by
  cases d with
  | nan =>
    have hzero (s : List Char) (hs : Stops isNumberChar s) : Passes ('0' :: s) s := by
      have hrun : NumberRun ['0'] := .mk rfl (List.forall_mem_nil _)
      have hpasses := hrun.passes s
      rwa [dropWhile_stops hs] at hpasses
    apply passes_round
    calc Passes ('0' :: '/' :: '0' :: ')' :: rest) ('/' :: '0' :: ')' :: rest) := hzero _ (stops_cons _ rfl)
      Passes _ ('0' :: ')' :: rest) := passes_symbol (by decide)
      Passes _ (')' :: rest) := hzero _ (stops_cons _ rfl)
  | infinite negative =>
    cases negative with
    | true =>
      have hdash : Passes ('-' :: ("math.huge".toList ++ rest)) ("math.huge".toList ++ rest) := passes_dash (by simp)
      exact hdash.trans (passes_huge hword)
    | false => exact passes_huge hword
  | finite negative place =>
    have hpasses := passes_numeral (v := .number (.finite negative place)) trivial rest
    rwa [dropWhile_stops (hnumeral trivial)] at hpasses

/-- **A literal is neutral to the check**, unless its last word or number goes on behind it. -/
theorem passes_literal (v : Value) (hword : Stops isWordChar rest) (hnumeral : v.IsNumeral → Stops isNumberChar rest) :
    Passes (v.literal ++ rest) rest := by
  induction v using Value.ind generalizing rest with
  | hnil => exact passes_word (c := 'n') (by decide) (by decide) (by decide) hword
  | hboolean b =>
    cases b with
    | true => exact passes_word (c := 't') (by decide) (by decide) (by decide) hword
    | false => exact passes_word (c := 'f') (by decide) (by decide) (by decide) hword
  | hinteger i =>
    have hpasses := passes_numeral (v := .integer i) trivial rest
    rwa [dropWhile_stops (hnumeral trivial)] at hpasses
  | hnumber d => exact passes_number hword hnumeral
  | hstring s => exact passes_quote s.toList rest
  | hlist items ih =>
    rw [Value.literal, literalItems_joined]
    refine passes_table (fun text htext rest hrest => ?_) rest
    obtain ⟨v, hv, rfl⟩ := List.mem_map.mp htext
    exact ih v hv (stops_word hrest) fun _ => hrest
  | hmap entries ih =>
    rw [Value.literal, literalEntries_joined]
    refine passes_table (fun text htext rest hrest => ?_) rest
    obtain ⟨⟨key, v⟩, he, rfl⟩ := List.mem_map.mp htext
    exact passes_entry (ih _ he (stops_word hrest) fun _ => hrest)

theorem passes_literalItems (items : List Value) (hrest : Stops isNumberChar rest) :
    Passes (literalItems items ++ rest) rest := by
  rw [literalItems_joined]
  refine passes_joined (fun text htext rest hrest => ?_) hrest
  obtain ⟨v, -, rfl⟩ := List.mem_map.mp htext
  exact passes_literal v (stops_word hrest) fun _ => hrest

end Script

end RemoteConsole
