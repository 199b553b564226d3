import RemoteConsole.Proofs.Script.Template
import RemoteConsole.Proofs.Text.CharSet

/-!
# Whole words are replaced at once

A template is filled in two ways with one outcome. Cut into its words and what stands between them, each
piece is a placeholder or stays; searched from left to right for `arg` and digits between boundaries of
words, each occurrence is replaced and the search goes on behind it. Digits are word characters, so an
occurrence is a whole word, and one with digits that give no number stays.
-/

namespace RemoteConsole.Script

open Text (Stops Digits digitsValue isDecimalDigit readNat? takeWhile_of_stops)

variable {params : List Value} {bits : Nat} {before run after digits content s out piece : List Char}
  {pieces outs : List (List Char)} {c : Char} {v : Value}

/-! ## Pieces -/

def Uniform (piece : List Char) : Prop := ∃ b, ∀ c ∈ piece, Text.isWordChar c = b

def Apart (piece next : List Char) : Prop := ∀ c ∈ piece, ∀ d ∈ next, Text.isWordChar c ≠ Text.isWordChar d

/-- The text cut into its words and what stands between them. -/
structure Cut (s : List Char) (pieces : List (List Char)) : Prop where
  whole : s = pieces.flatten
  nonempty : [] ∉ pieces
  uniform : ∀ piece ∈ pieces, Uniform piece
  alternate : pieces.IsChain Apart

def Names (params : List Value) (piece : List Char) (v : Value) : Prop :=
  ∃ digits n, piece = "arg".toList ++ digits ∧ digits ≠ [] ∧ Digits digits ∧ digitsValue digits = n + 1 ∧
    params[n]? = some v

/-- What a piece becomes. -/
inductive Becomes (params : List Value) : List Char → List Char → Prop
  | filled {piece : List Char} {v : Value} (h : Names params piece v) : Becomes params piece v.literal
  | kept {piece : List Char} (h : ∀ v, ¬ Names params piece v) : Becomes params piece piece

theorem uniform_iff : Uniform piece ↔ piece.IsChain fun c d => (Text.isWordChar c == Text.isWordChar d) = true := by
  have htrans : Trans (fun c d : Char => (Text.isWordChar c == Text.isWordChar d) = true)
      (fun c d => (Text.isWordChar c == Text.isWordChar d) = true) (fun c d => (Text.isWordChar c == Text.isWordChar d) = true) :=
    ⟨fun h h' => beq_iff_eq.mpr ((beq_iff_eq.mp h).trans (beq_iff_eq.mp h'))⟩
  rw [List.isChain_iff_pairwise]
  constructor
  · rintro ⟨b, hb⟩
    apply List.pairwise_of_forall_mem_list
    intro c hc d hd
    rw [hb c hc, hb d hd, beq_self_eq_true]
  · intro h
    cases piece with
    | nil => exact ⟨true, List.forall_mem_nil _⟩
    | cons c rest =>
      refine ⟨Text.isWordChar c, fun d hd => ?_⟩
      rcases List.mem_cons.mp hd with rfl | hd
      · rfl
      · exact (beq_iff_eq.mp (List.rel_of_pairwise_cons h hd)).symm

theorem apart_iff {next : List Char} (hpiece : Uniform piece) (hnext : Uniform next) (hne : piece ≠ []) (hne' : next ≠ []) :
    Apart piece next ↔
      ∃ (h : piece ≠ []) (h' : next ≠ []), (Text.isWordChar (piece.getLast h) == Text.isWordChar (next.head h')) = false := by
  obtain ⟨b, hb⟩ := hpiece
  obtain ⟨b', hb'⟩ := hnext
  constructor
  · exact fun h => ⟨hne, hne', beq_false_of_ne (h _ (List.getLast_mem hne) _ (List.head_mem hne'))⟩
  · rintro ⟨_, _, h⟩ c hc d hd
    have hends : Text.isWordChar (piece.getLast hne) ≠ Text.isWordChar (next.head hne') := by simpa using h
    rw [hb c hc, hb' d hd]
    rwa [hb _ (List.getLast_mem hne), hb' _ (List.head_mem hne')] at hends

theorem runs_eq_iff : runs s = pieces ↔ Cut s pieces := by
  have hchain (hne : [] ∉ pieces) (huniform : ∀ piece ∈ pieces, Uniform piece) : pieces.IsChain Apart ↔
      pieces.IsChain fun p q => ∃ h h', (Text.isWordChar (p.getLast h) == Text.isWordChar (q.head h')) = false := by
    apply List.IsChain.iff_of_mem_imp
    intro p q hp hq
    exact apart_iff (huniform p hp) (huniform q hq) (fun h => hne (h ▸ hp)) (fun h => hne (h ▸ hq))
  rw [runs, List.splitBy_eq_iff]
  constructor
  · rintro ⟨hwhole, hne, hpieces, halternate⟩
    have huniform : ∀ piece ∈ pieces, Uniform piece := fun p hp => uniform_iff.mpr (hpieces p hp)
    exact ⟨hwhole, hne, huniform, (hchain hne huniform).mpr halternate⟩
  · rintro ⟨hwhole, hne, huniform, halternate⟩
    exact ⟨hwhole, hne, fun p hp => uniform_iff.mp (huniform p hp), (hchain hne huniform).mp halternate⟩

theorem becomes_iff : Becomes params piece out ↔ substituteRun params piece = out := by
  rw [substituteRun]
  cases h : parameter? params piece with
  | some v =>
    have hv : Names params piece v := parameter?_eq_some.mp h
    constructor
    · intro hout
      cases hout with
      | @filled w hw =>
        have hw : parameter? params piece = some w := parameter?_eq_some.mpr hw
        rw [← Option.some.inj (h.symm.trans hw)]
        rfl
      | kept hnone => exact absurd hv (hnone v)
    · rintro rfl
      exact .filled hv
  | none =>
    have hnone (v : Value) : ¬ Names params piece v := by
      intro hv
      have hv : parameter? params piece = some v := parameter?_eq_some.mpr hv
      rw [h] at hv
      cases hv
    constructor
    · intro hout
      cases hout with
      | filled hv => exact absurd hv (hnone _)
      | kept => rfl
    · rintro rfl
      exact .kept hnone

theorem substitute_pieces :
    substitute content params = out ↔
      ∃ pieces outs, Cut content pieces ∧ List.Forall₂ (Becomes params) pieces outs ∧ outs.flatten = out := by
  have hbecomes (pieces outs : List (List Char)) :
      List.Forall₂ (Becomes params) pieces outs ↔ pieces.map (substituteRun params) = outs := by
    have hpiece : Becomes params = fun piece out => substituteRun params piece = out :=
      funext₂ fun _ _ => propext becomes_iff
    rw [hpiece, ← List.forall₂_map_left_iff (R := Eq), List.forall₂_eq_eq_eq]
  simp only [hbecomes, ← runs_eq_iff, exists_and_left, exists_eq_left', substitute, List.flatMap_def]

/-! ## Occurrences -/

/-- A word begins or ends between the two texts. -/
def Boundary (before after : List Char) : Prop := before.getLast?.any Text.isWordChar ≠ after.head?.any Text.isWordChar

/-- Between two boundaries stands `arg` with decimal digits of any script. -/
structure Occurs (before digits after : List Char) : Prop where
  begins : Boundary before ("arg".toList ++ digits ++ after)
  nonempty : digits ≠ []
  decimal : ∀ c ∈ digits, isDecimalDigit c = true
  ends : Boundary (before ++ ("arg".toList ++ digits)) after

def numbered? (bits : Nat) (params : List Value) (digits : List Char) : Option Value :=
  (readNat? bits digits).bind fun number => if number = 0 then none else params[number - 1]?

/-- Occurrences are replaced from left to right, and what has been replaced is not searched again. -/
inductive Replaced (bits : Nat) (params : List Value) : List Char → List Char → List Char → Prop
  | nil {before : List Char} : Replaced bits params before [] []
  | skip {before s out : List Char} {c : Char} (hnone : ∀ digits after, c :: s = "arg".toList ++ digits ++ after →
      ¬ Occurs before digits after) (hrest : Replaced bits params (before ++ [c]) s out) :
      Replaced bits params before (c :: s) (c :: out)
  | found {before digits after out : List Char} (h : Occurs before digits after)
      (hrest : Replaced bits params (before ++ ("arg".toList ++ digits)) after out) :
      Replaced bits params before ("arg".toList ++ digits ++ after)
        (((numbered? bits params digits).map Value.literal).getD ("arg".toList ++ digits) ++ out)

theorem Occurs.wordChars (h : Occurs before digits after) : ∀ c ∈ "arg".toList ++ digits, Text.isWordChar c = true :=
  arg_wordChars fun c hc => Text.isWordChar_of_isDecimalDigit (h.decimal c hc)

theorem Occurs.starts (h : Occurs before digits after) : ∀ c ∈ before.getLast?, Text.isWordChar c = false := by
  have hhead : ("arg".toList ++ digits ++ after).head?.any Text.isWordChar = true := rfl
  have hbegins := h.begins
  rw [Boundary, hhead, ne_eq, Bool.not_eq_true] at hbegins
  exact not_begun_iff.mp hbegins

theorem Occurs.stops (h : Occurs before digits after) : Stops Text.isWordChar after := by
  have hends := h.ends
  have hlast := last_wordChar (List.append_ne_nil_of_left_ne_nil (by decide) digits) h.wordChars before
  rw [Boundary, hlast, ne_eq, eq_comm, Bool.not_eq_true] at hends
  intro c hc
  rw [Option.mem_def.mp hc] at hends
  exact hends

theorem Occurs.unique {digits' after' : List Char} (h : Occurs before digits after) (h' : Occurs before digits' after')
    (heq : "arg".toList ++ digits ++ after = "arg".toList ++ digits' ++ after') : digits = digits' ∧ after = after' := by
  have hword := congrArg (List.takeWhile Text.isWordChar) heq
  rw [takeWhile_of_stops h.wordChars h.stops, takeWhile_of_stops h'.wordChars h'.stops] at hword
  have hdigits : digits = digits' := List.append_cancel_left hword
  subst hdigits
  exact ⟨rfl, List.append_cancel_left heq⟩

theorem numbered?_eq_some (hne : digits ≠ []) (hdigits : ∀ c ∈ digits, isDecimalDigit c = true)
    (hparams : params.length < 2 ^ bits) :
    numbered? bits params digits = some v ↔ Digits digits ∧ ∃ n, digitsValue digits = n + 1 ∧ params[n]? = some v := by
  have hread : readNat? bits digits =
      if digits.isEmpty || !digits.all Char.isDigit then none
      else if digitsValue digits < 2 ^ bits then some (digitsValue digits) else none := by
    unfold readNat?
    split
    · next rest => exact absurd (hdigits '+' List.mem_cons_self) (by decide +kernel)
    · rfl
  constructor
  · intro h
    obtain ⟨number, hnumber, hv⟩ := Option.bind_eq_some_iff.mp h
    rw [hread] at hnumber
    split at hnumber
    · cases hnumber
    · next hall =>
      split at hnumber
      · cases hnumber
        split at hv
        · cases hv
        · exact ⟨by simpa [hne, Digits] using hall, digitsValue digits - 1, by omega, hv⟩
      · cases hnumber
  · rintro ⟨hall, n, hvalue, hv⟩
    have hn : n < params.length := (List.getElem?_eq_some_iff.mp hv).1
    have hempty : (digits.isEmpty || !digits.all Char.isDigit) = false := by simpa [hne, Digits] using hall
    rw [numbered?, hread, hempty, if_neg (by decide), if_pos (by omega), Option.bind_some, if_neg (by omega), hvalue,
      Nat.add_sub_cancel]
    exact hv

/-! ## From left to right -/

theorem placeholder_iff (hparams : params.length < 2 ^ bits) :
    Placeholder params before ("arg".toList ++ digits) after v ↔
      Occurs before digits after ∧ numbered? bits params digits = some v := by
  constructor
  · intro h
    obtain ⟨digits', n, heq, hne, hdigits, hvalue, hv⟩ := h.name
    obtain rfl : digits = digits' := List.append_cancel_left heq
    have hdecimal : ∀ c ∈ digits, isDecimalDigit c = true := fun c hc => Bool.or_eq_true_iff.mpr (.inl (hdigits c hc))
    have hbegun : before.getLast?.any Text.isWordChar = false := not_begun_iff.mpr h.starts
    have hlast := last_wordChar (List.append_ne_nil_of_left_ne_nil (by decide) digits) h.wordChars before
    have hends : after.head?.any Text.isWordChar = false := by
      cases after with
      | nil => rfl
      | cons c after => exact h.ends c rfl
    refine ⟨⟨?_, hne, hdecimal, ?_⟩, (numbered?_eq_some hne hdecimal hparams).mpr ⟨hdigits, n, hvalue, hv⟩⟩
    · rw [Boundary, hbegun]
      exact Bool.false_ne_true
    · rw [Boundary, hlast, hends]
      exact Bool.true_eq_false_eq_False
  · rintro ⟨h, hv⟩
    obtain ⟨hdigits, n, hvalue, hv⟩ := (numbered?_eq_some h.nonempty h.decimal hparams).mp hv
    exact ⟨⟨digits, n, rfl, h.nonempty, hdigits, hvalue, hv⟩, h.starts, h.stops⟩

theorem fill_found (hparams : params.length < 2 ^ bits) (h : Occurs before digits after) :
    fill params before ("arg".toList ++ digits ++ after) =
      ((numbered? bits params digits).map Value.literal).getD ("arg".toList ++ digits) ++
        fill params (before ++ ("arg".toList ++ digits)) after := by
  cases hv : numbered? bits params digits with
  | some v => exact fill_placeholder ((placeholder_iff hparams).mpr ⟨h, hv⟩)
  | none =>
    apply fill_append
    intro front back run after' v htext hne heq hplace
    cases front with
    | nil =>
      obtain ⟨digits', -, rfl, -⟩ := hplace.name
      rw [List.append_nil] at hplace
      rw [List.nil_append] at htext
      rw [← htext] at heq
      obtain ⟨hoccurs, hnumber⟩ := (placeholder_iff hparams).mp hplace
      obtain ⟨rfl, -⟩ := h.unique hoccurs heq
      rw [hv] at hnumber
      cases hnumber
    | cons c front =>
      -- a placeholder would begin within the word
      have hword : ∀ d ∈ c :: front, Text.isWordChar d = true :=
        fun d hd => h.wordChars d (htext ▸ List.mem_append_left back hd)
      have hlast := last_wordChar (List.cons_ne_nil c front) hword before
      rw [not_begun_iff.mpr hplace.starts] at hlast
      cases hlast

theorem fill_skip (hparams : params.length < 2 ^ bits) (h : ∀ digits after, c :: s = "arg".toList ++ digits ++ after →
    ¬ Occurs before digits after) : fill params before (c :: s) = c :: fill params (before ++ [c]) s := by
  apply fill_cons
  intro run after v heq hplace
  obtain ⟨digits, -, rfl, -⟩ := hplace.name
  exact h digits after heq ((placeholder_iff hparams).mp hplace).1

theorem replaced_fill (hparams : params.length < 2 ^ bits) (before s : List Char) :
    Replaced bits params before s (fill params before s) := by
  cases s with
  | nil =>
    rw [fill_nil]
    exact .nil
  | cons c s =>
    by_cases h : ∃ digits after, c :: s = "arg".toList ++ digits ++ after ∧ Occurs before digits after
    · obtain ⟨digits, after, heq, hoccurs⟩ := h
      have hshorter : after.length < s.length + 1 := by
        have hlength := congrArg List.length heq
        simp only [List.length_cons, List.length_append] at hlength
        have harg : "arg".toList.length = 3 := rfl
        omega
      rw [heq, fill_found hparams hoccurs]
      exact .found hoccurs (replaced_fill hparams _ after)
    · have hnone : ∀ digits after, c :: s = "arg".toList ++ digits ++ after → ¬ Occurs before digits after :=
        fun digits after heq hoccurs => h ⟨digits, after, heq, hoccurs⟩
      rw [fill_skip hparams hnone]
      exact .skip hnone (replaced_fill hparams _ s)
termination_by s.length

theorem replaced_iff (hparams : params.length < 2 ^ bits) : Replaced bits params before s out ↔ fill params before s = out := by
  constructor
  · intro h
    induction h with
    | nil => exact fill_nil _ _
    | skip hnone _ ih => rw [fill_skip hparams hnone, ih]
    | found hoccurs _ ih => rw [fill_found hparams hoccurs, ih]
  · rintro rfl
    exact replaced_fill hparams before s

/-- **Filling replaces whole words at once.** A text is the filled template exactly when it is put together
from what the pieces of the template become; and exactly when all occurrences have been replaced from left to
right, if numbers of that many bits count the parameters. -/
theorem substitute_simultaneous (content : List Char) (params : List Value) (out : List Char) :
    (substitute content params = out ↔
      ∃ pieces outs, Cut content pieces ∧ List.Forall₂ (Becomes params) pieces outs ∧ outs.flatten = out) ∧
    ∀ bits, params.length < 2 ^ bits → (substitute content params = out ↔ Replaced bits params [] content out) := by
  refine ⟨substitute_pieces, fun bits hparams => ?_⟩
  have hfill : fill params [] content = substitute content params := rfl
  rw [replaced_iff hparams, hfill]

/-- Words with a placeholder in them, leading zeros, digits of another script, and a parameter that is the text
of a placeholder. -/
theorem substitute_simultaneous_words :
    let content := "cargo1 arg1x arg10 f(arg01, arg2)+arg٢ arg0".toList
    let params : List Value := [.string "arg2", .integer 5]
    let out := "cargo1 arg1x arg10 f(\"arg2\", 5)+arg٢ arg0".toList
    params.length < 2 ^ 64 ∧ substitute content params = out ∧ Replaced 64 params [] content out ∧
      ∃ pieces outs, Cut content pieces ∧ List.Forall₂ (Becomes params) pieces outs ∧ outs.flatten = out := by
  intro content params out
  have hlength : params.length < 2 ^ 64 := by decide
  have hout : substitute content params = out := by decide +kernel
  obtain ⟨hpieces, hreplaced⟩ := substitute_simultaneous content params out
  exact ⟨hlength, hout, (hreplaced 64 hlength).mp hout, hpieces.mp hout⟩

end RemoteConsole.Script
