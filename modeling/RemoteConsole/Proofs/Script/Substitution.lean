import RemoteConsole.Proofs.Script.Template

/-!
# Substitution and the check

A template that passes the check still passes it once it is filled, as long as the check meets every
placeholder as a word. Two seams have to be kept apart from a literal: a minus in front of one that
begins with a minus makes a comment of both, and a numeral goes on into what follows it, which must
not be a word that opens or closes a block.
-/

namespace RemoteConsole.Script

open Text (Stops stops_cons dropWhile_stops)

variable {params : List Value} {content before run after text rest out s u : List Char} {v : Value} {t : Token} {ts : List Token}

/-! ## Where lexemes begin -/

/-- Going through a text lexeme by lexeme one comes to this rest. -/
inductive Reaches : List Char → List Char → Prop
  | here (s : List Char) : Reaches s s
  | later {text rest u : List Char} {t : Token} : Lexes text t rest → Reaches rest u → Reaches (text ++ rest) u

theorem Reaches.trans (h : Reaches content s) (h' : Reaches s u) : Reaches content u := by
  induction h with
  | here => exact h'
  | later hlexes _ ih => exact .later hlexes (ih h')

theorem Reaches.length_le (h : Reaches s u) : u.length ≤ s.length := by
  induction h with
  | here => exact Nat.le_refl _
  | later hlexes _ ih =>
    rw [List.length_append]
    omega

theorem Lexes.ne_nil (h : Lexes text t rest) : text ≠ [] := by
  obtain ⟨c, body, rfl, -⟩ := lexeme_of_lexes h
  exact List.cons_ne_nil c body

theorem Lexes.unique {text' rest' : List Char} {t' : Token} (h : Lexes text t rest) (h' : Lexes text' t' rest')
    (heq : text ++ rest = text' ++ rest') : text = text' ∧ t = t' ∧ rest = rest' := by
  obtain ⟨c, body, rfl, hlexeme⟩ := lexeme_of_lexes h
  obtain ⟨c', body', rfl, hlexeme'⟩ := lexeme_of_lexes h'
  rw [List.cons_append, List.cons_append, List.cons.injEq] at heq
  obtain ⟨rfl, hs⟩ := heq
  rw [hs, hlexeme'] at hlexeme
  cases hlexeme
  exact ⟨rfl, rfl, rfl⟩

theorem Reaches.between (hs : Reaches content s) (hu : Reaches content u) (hle : u.length ≤ s.length) : Reaches s u := by
  induction hs with
  | here => exact hu
  | @later text rest s t hlexes hs ih =>
    have hpos := List.length_pos_iff.mpr hlexes.ne_nil
    have hshort := hs.length_le
    generalize hwhole : text ++ rest = whole at hu
    cases hu with
    | here =>
      have hlen := congrArg List.length hwhole
      rw [List.length_append] at hlen
      omega
    | later hlexes' hu' =>
      obtain ⟨-, -, rfl⟩ := hlexes.unique hlexes' hwhole
      exact ih hu' hle

theorem Reaches.eq_of_longer (h : Reaches (text ++ rest) u) (hlexes : Lexes text t rest) (hlonger : rest.length < u.length) :
    u = text ++ rest := by
  generalize hwhole : text ++ rest = whole at h
  cases h with
  | here => rfl
  | later hlexes' h' =>
    obtain ⟨-, -, rfl⟩ := hlexes.unique hlexes' hwhole
    have hle := h'.length_le
    omega

def behind : Nat → List Char → Option (List Char)
  | 0, s => some s
  | _ + 1, [] => none
  | n + 1, c :: s => match lexeme c s with
    | .ok (_, _, rest) => behind n rest
    | .error _ => none

theorem reaches_of_behind {n : Nat} (h : behind n s = some u) : Reaches s u := by
  induction n generalizing s with
  | zero =>
    cases h
    exact .here _
  | succ n ih =>
    cases s with
    | nil => cases h
    | cons c s =>
      rw [behind] at h
      split at h
      · next t body rest hlexeme =>
        rw [← lexeme_append hlexeme]
        exact .later (lexeme_lexes hlexeme) (ih h)
      · cases h

def MeetsWord (content word after : List Char) : Prop := Reaches content (word ++ after) ∧ Lexes word (.word word) after

/-! ## Templates that may be filled -/

/-- No word that opens or closes a block is met where a number would go on. -/
def Spared (content s : List Char) : Prop :=
  ∀ front word after, s = front ++ word ++ after → (∀ c ∈ front, isNumberChar c = true) →
    MeetsWord content word after → word ∉ structuralWords

/-- Every placeholder is met as a word. -/
def MeetsPlaceholders (params : List Value) (content : List Char) : Prop :=
  ∀ before run after v, content = before ++ run ++ after → Placeholder params before run after v →
    MeetsWord content run after

theorem Placeholder.lexes (h : Placeholder params before run after v) : Lexes run (.word run) after := by
  obtain ⟨digits, -, rfl, -, hdigits, -⟩ := h.name
  refine .word (c := 'a') rfl (fun d hd => ?_) fun c hc => ?_
  · rcases List.mem_append.mp hd with hd | hd
    · have hletters : ['r', 'g'].all isWordChar = true := by decide
      exact List.all_eq_true.mp hletters d hd
    · simp [isWordChar, Char.isAlphanum, hdigits d hd]
  · have hends := h.ends c hc
    simp only [Text.isWordChar, Bool.or_eq_false_iff] at hends
    simp [isWordChar, hends.1.1, hends.1.2]

theorem meetsPlaceholders_sole {front back : List Char} (hfront : 'a' ∉ front) (hback : 'a' ∉ back)
    (hreach : Reaches (front ++ 'a' :: back) ('a' :: back)) : MeetsPlaceholders params (front ++ 'a' :: back) := by
  intro before run after v heq hplace
  obtain ⟨t, ht⟩ := hplace.head
  rw [ht, List.append_assoc, List.cons_append] at heq
  obtain ⟨-, -, hrun⟩ := (List.append_cons_inj_of_notMem hfront hback).mp heq
  refine ⟨?_, hplace.lexes⟩
  rwa [ht, List.cons_append, ← hrun]

/-- No literal that begins with a minus comes behind a minus. -/
def DashesApart (params : List Value) (content : List Char) : Prop :=
  ∀ before run after v, content = before ++ run ++ after → Placeholder params before run after v →
    before.getLast? = some '-' → v.literal.head? ≠ some '-'

/-- No numeral comes in front of a word that opens or closes a block and that it would swallow. -/
def NumeralsApart (params : List Value) (content : List Char) : Prop :=
  ∀ before run after v, content = before ++ run ++ after → Placeholder params before run after v →
    v.IsNumeral → Spared content after

theorem Spared.later (h : Spared content (text ++ rest)) (htext : ∀ c ∈ text, isNumberChar c = true) : Spared content rest := by
  intro front word after heq hfront hmeets
  refine h (text ++ front) word after (by rw [heq]; simp only [List.append_assoc]) (fun c hc => ?_) hmeets
  rcases List.mem_append.mp hc with hc | hc
  · exact htext c hc
  · exact hfront c hc

/-! ## Lexemes that stay -/

theorem Lexes.fill (h : Lexes text t rest)
    (hdash : text = ['-'] → rest.head? ≠ some '-' → (fill params before rest).head? ≠ some '-') : Lexes text t (fill params before rest) := by
  cases h with
  | lineComment hbody hopens hrest => exact .lineComment hbody (not_opensLong_fill hopens) (stops_fill rfl hrest)
  | longComment hlong => exact .longComment hlong
  | string hquote hbody => exact .string hquote hbody
  | longString hlong => exact .longString hlong
  | @opening b _ hopens =>
    have hopens' : ¬ OpensLong ([b.opener] ++ fill params before rest) := not_opensLong_fill hopens
    exact .opening hopens'
  | closing => exact .closing
  | word hc hbody hrest => exact .word hc hbody (stops_fill rfl hrest)
  | number hc hbody hrest => exact .number hc hbody (stops_fill rfl hrest)
  | single hmarks hword hdigit hnext => exact .single hmarks hword hdigit fun hc => hdash (by rw [hc]) (hnext hc)

theorem Lexes.number_cases (h : Lexes text t rest) :
    ((∀ c ∈ text, isNumberChar c = true) ∧ (t = .word text ∨ t = .other)) ∨ Stops isNumberChar text := by
  cases h with
  | lineComment => exact .inr (stops_cons _ rfl)
  | longComment => exact .inr (stops_cons _ rfl)
  | string hquote => exact .inr (stops_cons _ (by rcases hquote with rfl | rfl <;> rfl))
  | longString hlong =>
    cases hlong with
    | mk => exact .inr (stops_cons _ rfl)
  | @opening b => exact .inr (stops_cons _ (by cases b <;> rfl))
  | @closing b => exact .inr (stops_cons _ (by cases b <;> rfl))
  | word hc hbody =>
    refine .inl ⟨fun d hd => ?_, .inl rfl⟩
    rcases List.mem_cons.mp hd with rfl | hd
    · exact isNumberChar_of_isWordChar (isWordChar_of_isWordStart hc)
    · exact isNumberChar_of_isWordChar (hbody d hd)
  | number hc hbody => exact .inl ⟨(NumberRun.mk hc hbody).chars, .inr rfl⟩
  | @single c =>
    by_cases hc : isNumberChar c = true
    · exact .inl ⟨List.forall_mem_singleton.mpr hc, .inr rfl⟩
    · exact .inr (stops_cons [] (Bool.eq_false_iff.mpr hc))

/-! ## The filled template -/

/-- The text has the effect of the tokens on open constructs. -/
def Acts (s : List Char) (ts : List Token) : Prop :=
  ∃ us, Splits s us ∧ ∀ stack last, Run ts stack last → Run us stack last

theorem Acts.of_passes (hpasses : Passes s rest) (h : Acts rest ts) : Acts s ts := by
  obtain ⟨us, hsplits, hrun⟩ := h
  obtain ⟨front, hneutral, hs⟩ := hpasses us hsplits
  exact ⟨front ++ us, hs, fun stack last hts => (hneutral stack).append (hrun stack last hts)⟩

theorem Acts.cons (hlexes : Lexes text t rest) (h : Acts rest ts) : Acts (text ++ rest) (t :: ts) := by
  obtain ⟨us, hsplits, hrun⟩ := h
  refine ⟨t :: us, .cons hlexes hsplits, fun stack last hts => ?_⟩
  cases hts with
  | cons hmoves hlater => exact .cons hmoves (hrun _ _ hlater)

theorem Moves.eq_of_plain {stack next : List Construct} (h : Moves t stack next) (ht : t.Plain) : next = stack := by
  cases h with
  | plain => rfl
  | opens hopens =>
    cases hopens with
    | bracket => exact ht.elim
    | _ => exact absurd (by decide) ht
  | turns => exact absurd (by decide) ht
  | closes hcloses =>
    cases hcloses with
    | bracket => exact ht.elim
    | _ => exact absurd (by decide) ht

theorem Acts.plain (ht : t.Plain) (h : Acts s ts) : Acts s (t :: ts) := by
  obtain ⟨us, hsplits, hrun⟩ := h
  refine ⟨us, hsplits, fun stack last hts => ?_⟩
  cases hts with
  | cons hmoves hlater =>
    rw [hmoves.eq_of_plain ht] at hlater
    exact hrun _ _ hlater

theorem passes_dropWhile_literal (v : Value) (hrest : Stops isWordChar rest) :
    Passes ((v.literal ++ rest).dropWhile isNumberChar) rest ∨
      Passes ((v.literal ++ rest).dropWhile isNumberChar) (rest.dropWhile isNumberChar) := by
  -- a word goes away whole with what continues it, a mark stops the number, and a numeral does either
  have hword {w : List Char} (hw : w.all isNumberChar = true) :
      Passes ((w ++ rest).dropWhile isNumberChar) (rest.dropWhile isNumberChar) := by
    rw [List.dropWhile_append_of_pos (List.all_eq_true.mp hw)]
    exact .refl _
  have hmark (hv : ¬ v.IsNumeral) (hstops : Stops isNumberChar (v.literal ++ rest)) :
      Passes ((v.literal ++ rest).dropWhile isNumberChar) rest := by
    rw [dropWhile_stops hstops]
    exact passes_literal v hrest fun h => absurd h hv
  have hnumeral (hv : v.IsNumeral) :
      Passes ((v.literal ++ rest).dropWhile isNumberChar) (rest.dropWhile isNumberChar) := by
    obtain ⟨negative, n, hliteral⟩ := numeral_literal hv
    rw [hliteral]
    cases negative with
    | true =>
      have hdash : Stops isNumberChar (Table.signed true n.text ++ rest) := stops_cons (n.text ++ rest) rfl
      rw [dropWhile_stops hdash]
      exact passes_signed true n rest
    | false => exact passes_dropWhile_text n rest
  cases v with
  | nil => exact .inr (hword (by decide))
  | boolean b =>
    cases b with
    | true => exact .inr (hword (by decide))
    | false => exact .inr (hword (by decide))
  | integer i => exact .inr (hnumeral trivial)
  | number d =>
    cases d with
    | nan => exact .inl (hmark id (stops_cons _ rfl))
    | infinite negative =>
      cases negative with
      | true => exact .inl (hmark id (stops_cons _ rfl))
      | false => exact .inr (hword (by decide))
    | finite negative place => exact .inr (hnumeral trivial)
  | string s => exact .inl (hmark id (stops_cons _ rfl))
  | list items => exact .inl (hmark id (stops_cons _ rfl))
  | map entries => exact .inl (hmark id (stops_cons _ rfl))

theorem MeetsPlaceholders.eq_lexeme (hmet : MeetsPlaceholders params content) (hcontent : content = before ++ (text ++ rest))
    (hreach : Reaches content (text ++ rest)) (hlexes : Lexes text t rest) {front back : List Char}
    (htext : text = front ++ back) (hne : back ≠ []) (heq : back ++ rest = run ++ after)
    (hplace : Placeholder params (before ++ front) run after v) : front = [] ∧ run = text ∧ after = rest ∧ t = .word text := by
  have hwhole : content = before ++ front ++ run ++ after := by
    rw [hcontent, htext, List.append_assoc, heq]
    simp only [List.append_assoc]
  obtain ⟨hmeets, hword⟩ := hmet _ run after v hwhole hplace
  have hlen := congrArg List.length heq
  have hpos := List.length_pos_iff.mpr hne
  simp only [List.length_append] at hlen
  have hthere := hreach.between hmeets (by rw [htext]; simp only [List.length_append]; omega)
  have hsame := hthere.eq_of_longer hlexes (by simp only [List.length_append]; omega)
  obtain ⟨rfl, rfl, rfl⟩ := hword.unique hlexes hsame
  have hfront := congrArg List.length (hsame.trans (congrArg (· ++ after) htext))
  simp only [List.length_append] at hfront hlen
  exact ⟨List.length_eq_zero_iff.mp (by omega), rfl, rfl, rfl⟩

theorem DashesApart.fill_head (hdashes : DashesApart params content) (hcontent : content = before ++ s)
    (hlast : before.getLast? = some '-') (hs : s.head? ≠ some '-') : (fill params before s).head? ≠ some '-' := by
  cases s with
  | nil =>
    rw [fill_nil]
    exact hs
  | cons c s =>
    rcases fill_cases params before c s with heq | ⟨run, after, v, heq, hplace, hfill⟩
    · rw [heq]
      exact hs
    · have hliteral := hdashes before run after v (by rw [hcontent, heq, List.append_assoc]) hplace hlast
      obtain ⟨d, u, hcons, -⟩ := literal_cons v
      rw [hfill, hcons]
      rw [hcons] at hliteral
      exact hliteral

/-- What becomes of a text has the effect of its tokens, also behind a number that goes on into it. -/
def Keeps (content s out : List Char) (ts : List Token) : Prop :=
  Acts out ts ∧ (Spared content s → Acts (out.dropWhile isNumberChar) ts)

theorem Keeps.placeholder (h : Keeps content after out ts) (hplace : Placeholder params before run after v)
    (hlexes : Lexes run (.word run) after) (hstops : Stops isWordChar out) (hspared : v.IsNumeral → Spared content after) :
    Keeps content (run ++ after) (v.literal ++ out) (.word run :: ts) := by
  have hplain : (Token.word run).Plain := by
    obtain ⟨t, rfl⟩ := hplace.head
    simp [Token.Plain, structuralWords]
  constructor
  · apply Acts.plain hplain
    by_cases hv : v.IsNumeral
    · exact .of_passes (passes_numeral hv out) (h.2 (hspared hv))
    · exact .of_passes (passes_literal v hstops fun hnumeral => absurd hnumeral hv) h.1
  · intro hrun
    apply Acts.plain hplain
    have hchars : ∀ c ∈ run, isNumberChar c = true := by
      rcases hlexes.number_cases with ⟨hchars, -⟩ | hstops
      · exact hchars
      · obtain ⟨t, rfl⟩ := hplace.head
        cases hstops 'a' rfl
    rcases passes_dropWhile_literal v hstops with hpasses | hpasses
    · exact .of_passes hpasses h.1
    · exact .of_passes hpasses (h.2 (hrun.later hchars))

theorem Keeps.lexeme (h : Keeps content rest out ts) (hreach : Reaches content (text ++ rest))
    (hlexes : Lexes text t rest) (hfilled : Lexes text t out) : Keeps content (text ++ rest) (text ++ out) (t :: ts) := by
  refine ⟨.cons hfilled h.1, fun hspared => ?_⟩
  -- a number in front takes the whole lexeme with it, or ends before it
  rcases hlexes.number_cases with ⟨hchars, ht⟩ | hstops
  · rw [List.dropWhile_append_of_pos hchars]
    apply Acts.plain
    · rcases ht with rfl | rfl
      · exact hspared [] text rest rfl (List.forall_mem_nil _) ⟨hreach, hlexes⟩
      · trivial
    · exact h.2 (hspared.later hchars)
  · have hwhole : Stops isNumberChar (text ++ out) := by
      obtain ⟨c, body, rfl, -⟩ := lexeme_of_lexes hlexes
      exact stops_cons _ (hstops c rfl)
    rw [dropWhile_stops hwhole]
    exact .cons hfilled h.1

/-- Filled from a lexeme on, a template keeps the effect of its tokens. -/
theorem keeps_fill (hmet : MeetsPlaceholders params content) (hdashes : DashesApart params content)
    (hnumerals : NumeralsApart params content) (hs : Splits s ts) (hreach : Reaches content s)
    (hcontent : content = before ++ s) : Keeps content s (fill params before s) ts := by
  induction hs generalizing before with
  | nil =>
    rw [fill_nil]
    have hnil : Acts [] [] := ⟨[], .nil, fun _ _ h => h⟩
    exact ⟨hnil, fun _ => hnil⟩
  | @cons text rest t ts hlexes _ ih =>
    have hlater : content = before ++ text ++ rest := by rw [hcontent, List.append_assoc]
    have hrest := ih (hreach.trans (.later hlexes (.here rest))) hlater
    -- the lexeme is a placeholder, or no placeholder begins in it
    by_cases hplace : ∃ v, Placeholder params before text rest v
    · obtain ⟨v, hplace⟩ := hplace
      obtain ⟨t', -, -, rfl⟩ := hmet.eq_lexeme hcontent hreach hlexes (List.nil_append text).symm hlexes.ne_nil rfl
        (by rwa [List.append_nil])
      rw [fill_placeholder hplace]
      have hstops : Stops isWordChar rest := by
        cases hlexes with
        | word _ _ hrest => exact hrest
      exact hrest.placeholder hplace hlexes (stops_fill rfl hstops) (hnumerals before text rest v hlater hplace)
    · have hstays : fill params before (text ++ rest) = text ++ fill params (before ++ text) rest := by
        apply fill_append
        intro front back run after v htext hne heq hfits
        obtain ⟨rfl, rfl, rfl, -⟩ := hmet.eq_lexeme hcontent hreach hlexes htext hne heq hfits
        rw [List.append_nil] at hfits
        exact hplace ⟨v, hfits⟩
      rw [hstays]
      refine hrest.lexeme hreach hlexes (hlexes.fill fun htext hnext => ?_)
      subst htext
      exact hdashes.fill_head hlater List.getLast?_concat hnext

/-- **A filled template passes the check that the template has passed**, if the check meets its
placeholders as words, none of them makes a comment with a minus before it, and no number goes on
into a word that opens or closes a block. -/
theorem check_substitute (hcheck : check content = .ok ()) (hmet : MeetsPlaceholders params content)
    (hdashes : DashesApart params content) (hnumerals : NumeralsApart params content) :
    check (substitute content params) = .ok () := by
  obtain ⟨ts, hs, hrun⟩ := run_of_check hcheck
  obtain ⟨⟨us, hus, hacts⟩, -⟩ := keeps_fill hmet hdashes hnumerals hs (.here content) (List.nil_append content).symm
  exact check_of_run hus (hacts [] [] hrun)

theorem check_substitute_number :
    check "f(-arg1..x)".toList = .ok () ∧ MeetsPlaceholders [.integer 5] "f(-arg1..x)".toList ∧
      DashesApart [.integer 5] "f(-arg1..x)".toList ∧ NumeralsApart [.integer 5] "f(-arg1..x)".toList ∧
      check (substitute "f(-arg1..x)".toList [.integer 5]) = .ok () := by
  have hcheck : check "f(-arg1..x)".toList = .ok () := by decide +kernel
  have htext : "f(-arg1..x)".toList = "f(-".toList ++ 'a' :: "rg1..x)".toList := by
    rw [String.toList_ofList, String.toList_ofList, String.toList_ofList]
    rfl
  have hmet : MeetsPlaceholders [.integer 5] "f(-arg1..x)".toList := by
    rw [htext]
    exact meetsPlaceholders_sole (by decide) (by decide) (reaches_of_behind (n := 3) (by decide +kernel))
  have hvalue {before run after v} (h : Placeholder [.integer 5] before run after v) : v = .integer 5 := by
    obtain ⟨-, n, -, -, -, -, hv⟩ := h.name
    exact List.mem_singleton.mp (List.mem_of_getElem? hv)
  have hdashes : DashesApart [.integer 5] "f(-arg1..x)".toList := by
    intro before run after v _ hplace _
    rw [hvalue hplace]
    decide +kernel
  have hnumerals : NumeralsApart [.integer 5] "f(-arg1..x)".toList := by
    intro before run after v heq _ _ front word rest hafter _ _ hword
    have hinfix : word <:+: "f(-arg1..x)".toList := ⟨before ++ run ++ front, rest, by rw [heq, hafter]; simp⟩
    have hnone : ∀ w ∈ structuralWords, ¬ w <:+: "f(-arg1..x)".toList := by decide +kernel
    exact hnone word hword hinfix
  exact ⟨hcheck, hmet, hdashes, hnumerals, check_substitute hcheck hmet hdashes hnumerals⟩

/-- The seams: a minus before a negative number, and a number before a block word that it swallows. -/
theorem check_substitute_seams :
    (check "f(-arg1)".toList = .ok () ∧ MeetsPlaceholders [.integer (-5)] "f(-arg1)".toList ∧
      check (substitute "f(-arg1)".toList [.integer (-5)]) ≠ .ok ()) ∧
    (check "x=arg1..function()end".toList = .ok () ∧ MeetsPlaceholders [.integer 5] "x=arg1..function()end".toList ∧
      check (substitute "x=arg1..function()end".toList [.integer 5]) ≠ .ok ()) := by
  have hdash : "f(-arg1)".toList = "f(-".toList ++ 'a' :: "rg1)".toList := by
    rw [String.toList_ofList, String.toList_ofList, String.toList_ofList]
    rfl
  have hnumber : "x=arg1..function()end".toList = "x=".toList ++ 'a' :: "rg1..function()end".toList := by
    rw [String.toList_ofList, String.toList_ofList, String.toList_ofList]
    rfl
  refine ⟨⟨by decide +kernel, ?_, by decide +kernel⟩, by decide +kernel, ?_, by decide +kernel⟩
  · rw [hdash]
    exact meetsPlaceholders_sole (by decide) (by decide) (reaches_of_behind (n := 3) (by decide +kernel))
  · rw [hnumber]
    exact meetsPlaceholders_sole (by decide) (by decide) (reaches_of_behind (n := 2) (by decide +kernel))

end RemoteConsole.Script
