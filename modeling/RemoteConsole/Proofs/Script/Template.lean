import Mathlib.Data.List.SplitBy
import RemoteConsole.Proofs.Script.Literal
import RemoteConsole.Script.Template

/-!
# Templates from left to right

A template is filled run by run. Read from left to right, every placeholder gives way to the literal
of its parameter and every other character stays; of the text before only its last character
matters, which may have begun a word.
-/

namespace RemoteConsole.Script

open Text (Stops Digits digitsValue stops_dropWhile stops_cons dropWhile_stops)

variable {params : List Value} {before run after s : List Char} {v : Value}

/-- A whole word of a text that names a parameter, with what stands before and after it. -/
structure Placeholder (params : List Value) (before run after : List Char) (v : Value) : Prop where
  name : ∃ digits n, run = "arg".toList ++ digits ∧ digits ≠ [] ∧ Digits digits ∧ digitsValue digits = n + 1 ∧
    params[n]? = some v
  starts : ∀ c ∈ before.getLast?, Text.isWordChar c = false
  ends : Stops Text.isWordChar after

theorem placeholder?_eq_some {k : Nat} : placeholder? run = some k ↔
    ∃ digits, run = "arg".toList ++ digits ∧ digits ≠ [] ∧ Digits digits ∧ digitsValue digits = k := by
  have hempty (digits : List Char) : (digits.isEmpty || !digits.all Char.isDigit) = false ↔ digits ≠ [] ∧ Digits digits := by
    simp [Digits]
  unfold placeholder?
  constructor
  · intro h
    split at h
    · next digits hafter =>
      split at h
      · cases h
      · next hdigits =>
        obtain ⟨hne, hall⟩ := (hempty digits).mp (Bool.eq_false_iff.mpr hdigits)
        exact ⟨digits, Text.eq_append_of_after? hafter, hne, hall, Option.some.inj h⟩
    · cases h
  · rintro ⟨digits, rfl, hne, hall, rfl⟩
    rw [Text.after?_append]
    exact if_neg (Bool.eq_false_iff.mp ((hempty digits).mpr ⟨hne, hall⟩))

theorem parameter?_eq_some : parameter? params run = some v ↔
    ∃ digits n, run = "arg".toList ++ digits ∧ digits ≠ [] ∧ Digits digits ∧ digitsValue digits = n + 1 ∧
      params[n]? = some v := by
  unfold parameter?
  constructor
  · intro h
    split at h
    · next n hnumber =>
      obtain ⟨digits, hrun, hne, hdigits, hvalue⟩ := placeholder?_eq_some.mp hnumber
      exact ⟨digits, n, hrun, hne, hdigits, hvalue, h⟩
    · cases h
  · rintro ⟨digits, n, hrun, hne, hdigits, hvalue, hv⟩
    rw [placeholder?_eq_some.mpr ⟨digits, hrun, hne, hdigits, hvalue⟩]
    exact hv

theorem Placeholder.parameter (h : Placeholder params before run after v) : parameter? params run = some v :=
  parameter?_eq_some.mpr h.name

theorem Placeholder.head (h : Placeholder params before run after v) : ∃ s, run = 'a' :: s := by
  obtain ⟨digits, -, hrun, -⟩ := h.name
  exact ⟨'r' :: 'g' :: digits, hrun⟩

theorem arg_wordChars {digits : List Char} (h : ∀ c ∈ digits, Text.isWordChar c = true) :
    ∀ c ∈ "arg".toList ++ digits, Text.isWordChar c = true := by
  have harg : "arg".toList.all Text.isWordChar = true := by decide
  exact List.forall_mem_append.mpr ⟨List.all_eq_true.mp harg, h⟩

theorem Placeholder.wordChars (h : Placeholder params before run after v) : ∀ c ∈ run, Text.isWordChar c = true := by
  obtain ⟨digits, -, rfl, -, hdigits, -⟩ := h.name
  exact arg_wordChars fun c hc => by simp [Text.isWordChar, Char.isAlphanum, hdigits c hc]

/-! ## Runs -/

theorem substitute_append {t : List Char}
    (h : ∀ c ∈ s.getLast?, ∀ d ∈ t.head?, Text.isWordChar c ≠ Text.isWordChar d) :
    substitute (s ++ t) params = substitute s params ++ substitute t params := by
  have hruns : runs (s ++ t) = runs s ++ runs t :=
    List.splitBy_append fun c hc d hd => beq_false_of_ne (h c hc d hd)
  rw [substitute, hruns, List.flatMap_append]
  rfl

theorem substitute_uniform {b : Bool} (hne : s ≠ []) (h : ∀ c ∈ s, Text.isWordChar c = b) :
    substitute s params = substituteRun params s := by
  have hruns : runs s = [s] := by
    apply List.splitBy_of_isChain hne
    apply List.Pairwise.isChain
    apply List.pairwise_of_forall_mem_list
    intro c hc d hd
    rw [h c hc, h d hd, beq_self_eq_true]
  rw [substitute, hruns, List.flatMap_singleton]

theorem substituteRun_of_none (h : parameter? params run = none) : substituteRun params run = run := by
  rw [substituteRun, h]
  rfl

theorem substitute_plain (h : ∀ c ∈ s, Text.isWordChar c = false) : substitute s params = s := by
  cases s with
  | nil => rfl
  | cons c s =>
    rw [substitute_uniform (List.cons_ne_nil c s) h]
    apply substituteRun_of_none
    cases hv : parameter? params (c :: s) with
    | none => rfl
    | some v =>
      obtain ⟨digits, -, hrun, -⟩ := parameter?_eq_some.mp hv
      have hc := h c List.mem_cons_self
      rw [(List.cons.inj hrun).1] at hc
      cases hc

theorem substitute_dropWhile {p : Char → Bool} (hp : ∀ c d, p c ≠ p d → Text.isWordChar c ≠ Text.isWordChar d)
    (s : List Char) :
    substitute s params = substitute (s.takeWhile p) params ++ substitute (s.dropWhile p) params := by
  conv_lhs => rw [← List.takeWhile_append_dropWhile (p := p) (l := s)]
  apply substitute_append
  intro c hc d hd
  apply hp
  rw [List.mem_takeWhile_imp (List.mem_of_getLast? hc), stops_dropWhile p s d hd]
  decide

theorem substitute_cons {c : Char} (hc : Text.isWordChar c = false) (s : List Char) :
    substitute (c :: s) params = c :: substitute s params := by
  let p (c : Char) : Bool := !Text.isWordChar c
  have hp (c d : Char) (h : p c ≠ p d) : Text.isWordChar c ≠ Text.isWordChar d := fun heq => h (congrArg not heq)
  have hplain (s : List Char) : substitute (s.takeWhile p) params = s.takeWhile p := by
    apply substitute_plain
    intro d hd
    have hd : p d = true := List.mem_takeWhile_imp hd
    exact (Bool.not_eq_true' _).mp hd
  have hnot : p c = true := (Bool.not_eq_true' _).mpr hc
  rw [substitute_dropWhile hp (c :: s), substitute_dropWhile hp s, hplain, hplain, List.takeWhile_cons_of_pos hnot,
    List.dropWhile_cons_of_pos hnot, List.cons_append]

/-! ## Character by character -/

/-- What a text becomes behind another one. A word that has begun there is no placeholder. -/
def fill (params : List Value) (before s : List Char) : List Char :=
  if before.getLast?.any Text.isWordChar then
    s.takeWhile Text.isWordChar ++ substitute (s.dropWhile Text.isWordChar) params
  else substitute s params

theorem not_begun_iff : before.getLast?.any Text.isWordChar = false ↔ ∀ c ∈ before.getLast?, Text.isWordChar c = false := by
  cases before.getLast? with
  | none => simp
  | some c => simp

theorem fill_nil (params : List Value) (before : List Char) : fill params before [] = [] := by
  unfold fill
  split <;> rfl

theorem fill_snoc (params : List Value) (before : List Char) (c : Char) (s : List Char) :
    fill params (before ++ [c]) s =
      if Text.isWordChar c then s.takeWhile Text.isWordChar ++ substitute (s.dropWhile Text.isWordChar) params
      else substitute s params := by
  rw [fill, List.getLast?_concat, Option.any_some]

theorem fill_cons {c : Char} (h : ∀ run after v, c :: s = run ++ after → ¬ Placeholder params before run after v) :
    fill params before (c :: s) = c :: fill params (before ++ [c]) s := by
  rw [fill_snoc]
  by_cases hc : Text.isWordChar c = true
  · have hwhole : (c :: s).takeWhile Text.isWordChar ++ substitute ((c :: s).dropWhile Text.isWordChar) params =
        c :: (s.takeWhile Text.isWordChar ++ substitute (s.dropWhile Text.isWordChar) params) := by
      rw [List.takeWhile_cons_of_pos hc, List.dropWhile_cons_of_pos hc, List.cons_append]
    rw [if_pos hc, ← hwhole, fill]
    split
    · rfl
    · next hbefore =>
      have hne : (c :: s).takeWhile Text.isWordChar ≠ [] := by simp [hc]
      have hnone : parameter? params ((c :: s).takeWhile Text.isWordChar) = none := by
        cases hv : parameter? params ((c :: s).takeWhile Text.isWordChar) with
        | none => rfl
        | some v =>
          have hplace : Placeholder params before ((c :: s).takeWhile Text.isWordChar) ((c :: s).dropWhile Text.isWordChar) v :=
            ⟨parameter?_eq_some.mp hv, not_begun_iff.mp (Bool.eq_false_iff.mpr hbefore), stops_dropWhile _ _⟩
          exact absurd hplace (h _ _ v List.takeWhile_append_dropWhile.symm)
      rw [substitute_dropWhile (fun c d h => h), substitute_uniform hne fun c hc => List.mem_takeWhile_imp hc,
        substituteRun_of_none hnone]
  · rw [Bool.not_eq_true] at hc
    have hstops : Stops Text.isWordChar (c :: s) := stops_cons s hc
    have htake : (c :: s).takeWhile Text.isWordChar = [] := List.takeWhile_cons_of_neg (by simp [hc])
    have heither : fill params before (c :: s) = substitute (c :: s) params := by
      rw [fill, htake, dropWhile_stops hstops, List.nil_append, ite_self]
    rw [heither, substitute_cons hc, hc]
    rfl

theorem last_wordChar {word : List Char} (hne : word ≠ []) (hword : ∀ c ∈ word, Text.isWordChar c = true)
    (before : List Char) : (before ++ word).getLast?.any Text.isWordChar = true := by
  rw [List.getLast?_append_of_ne_nil _ hne, List.getLast?_eq_getLast_of_ne_nil hne, Option.any_some]
  exact hword _ (List.getLast_mem hne)

theorem fill_placeholder (h : Placeholder params before run after v) :
    fill params before (run ++ after) = v.literal ++ fill params (before ++ run) after := by
  obtain ⟨s, hs⟩ := h.head
  have hne : run ≠ [] := by simp [hs]
  have hbegun : before.getLast?.any Text.isWordChar = false := not_begun_iff.mpr h.starts
  have hlast := last_wordChar hne h.wordChars before
  have hcut : substitute (run ++ after) params = substitute run params ++ substitute after params := by
    apply substitute_append
    intro c hc d hd
    rw [h.wordChars c (List.mem_of_getLast? hc), h.ends d hd]
    decide
  have htake : after.takeWhile Text.isWordChar = [] := Text.takeWhile_of_stops (List.forall_mem_nil _) h.ends
  rw [fill, hbegun, fill, hlast, if_pos rfl, htake, dropWhile_stops h.ends, List.nil_append, if_neg (by decide), hcut,
    substitute_uniform hne h.wordChars, substituteRun, h.parameter]
  rfl

theorem fill_append {text rest : List Char}
    (h : ∀ front back run after v, text = front ++ back → back ≠ [] → back ++ rest = run ++ after →
      ¬ Placeholder params (before ++ front) run after v) :
    fill params before (text ++ rest) = text ++ fill params (before ++ text) rest := by
  induction text generalizing before with
  | nil => rw [List.append_nil, List.nil_append, List.nil_append]
  | cons c text ih =>
    have hlater : fill params (before ++ [c]) (text ++ rest) = text ++ fill params (before ++ [c] ++ text) rest := by
      apply ih
      intro front back run after v htext hne hback
      rw [List.append_assoc]
      exact h (c :: front) back run after v (by rw [htext, List.cons_append]) hne hback
    have hhere : fill params before (c :: (text ++ rest)) = c :: fill params (before ++ [c]) (text ++ rest) := by
      apply fill_cons
      intro run after v heq
      have hno := h [] (c :: text) run after v rfl (List.cons_ne_nil c text) heq
      rwa [List.append_nil] at hno
    rw [List.cons_append, hhere, hlater, List.append_assoc, List.cons_append, List.cons_append, List.nil_append]

theorem fill_cases (params : List Value) (before : List Char) (c : Char) (s : List Char) :
    fill params before (c :: s) = c :: fill params (before ++ [c]) s ∨
      ∃ run after v, c :: s = run ++ after ∧ Placeholder params before run after v ∧
        fill params before (c :: s) = v.literal ++ fill params (before ++ run) after := by
  by_cases h : ∃ run after v, c :: s = run ++ after ∧ Placeholder params before run after v
  · obtain ⟨run, after, v, heq, hplace⟩ := h
    exact .inr ⟨run, after, v, heq, hplace, by rw [heq, fill_placeholder hplace]⟩
  · exact .inl (fill_cons fun run after v heq hplace => h ⟨run, after, v, heq, hplace⟩)

/-! ## What is kept at the front -/

theorem stops_fill {p : Char → Bool} (hp : p 'a' = true) (h : Stops p s) : Stops p (fill params before s) := by
  cases s with
  | nil =>
    rw [fill_nil]
    exact h
  | cons c s =>
    have hc : p c = false := h c rfl
    rcases fill_cases params before c s with heq | ⟨run, after, v, heq, hplace, -⟩
    · rw [heq]
      exact stops_cons _ hc
    · obtain ⟨t, rfl⟩ := hplace.head
      rw [(List.cons.inj heq).1, hp] at hc
      cases hc

theorem longLevel?_fill (params : List Value) (before s : List Char) : longLevel? (fill params before s) = longLevel? s := by
  induction s generalizing before with
  | nil => rw [fill_nil]
  | cons c s ih =>
    rcases fill_cases params before c s with heq | ⟨run, after, v, heq, hplace, hfill⟩
    · rw [heq]
      by_cases hequals : c = '='
      · subst hequals
        rw [longLevel?, longLevel?, ih]
      · by_cases hopen : c = '['
        · subst hopen
          rfl
        · simp [longLevel?, hequals, hopen]
    · obtain ⟨t, rfl⟩ := hplace.head
      obtain ⟨d, u, hliteral, hopen, hequals⟩ := literal_cons v
      rw [hfill, hliteral, heq]
      simp [longLevel?, hopen, hequals]

theorem opensLong_cons {c : Char} : OpensLong (c :: s) ↔ c = '[' ∧ (longLevel? s).isSome := by
  constructor
  · intro h
    have hc : c = '[' := by
      by_contra hne
      exact not_opensLong hne s h
    subst hc
    exact ⟨rfl, longLevel?_isSome.mpr h⟩
  · rintro ⟨rfl, h⟩
    exact longLevel?_isSome.mp h

theorem longLevel?_append {t : List Char} (h : longLevel? s = longLevel? t) (front : List Char) :
    longLevel? (front ++ s) = longLevel? (front ++ t) := by
  induction front with
  | nil => exact h
  | cons c front ih =>
    by_cases hequals : c = '='
    · subst hequals
      simp [longLevel?, ih]
    · by_cases hopen : c = '['
      · subst hopen
        rfl
      · simp [longLevel?, hequals, hopen]

theorem not_opensLong_fill {front : List Char} (h : ¬ OpensLong (front ++ s)) :
    ¬ OpensLong (front ++ fill params before s) := by
  cases front with
  | cons c front =>
    rw [List.cons_append, opensLong_cons] at h ⊢
    rwa [longLevel?_append (longLevel?_fill params before s)]
  | nil =>
    cases s with
    | nil => rwa [fill_nil]
    | cons c s =>
      rw [List.nil_append] at h ⊢
      rcases fill_cases params before c s with heq | ⟨run, after, v, heq, hplace, hfill⟩
      · rw [heq, opensLong_cons, longLevel?_fill, ← opensLong_cons]
        exact h
      · obtain ⟨d, u, hliteral, hopen, -⟩ := literal_cons v
        rw [hfill, hliteral]
        exact not_opensLong hopen _

end RemoteConsole.Script
