import RemoteConsole.Proofs.Script.Block
import RemoteConsole.Proofs.Script.Split

/-!
# The check of a script

`check` accepts a script exactly when it splits into tokens and the block grammar derives them.
Every line it can report comes from a token or from where a string or comment was begun, so an
issue always lies within the script.
-/

namespace RemoteConsole.Script

/-- The lines from one on, as far as the line feeds of a text lead. -/
def Within (first : Nat) (s : List Char) (line : Nat) : Prop :=
  first ≤ line ∧ line ≤ first + s.count '\n'

theorem Within.later {first line : Nat} {c : Char} {s body rest : List Char}
    (hs : body ++ rest = s) (h : Within (first + (c :: body).count '\n') rest line) :
    Within first (c :: s) line := by
  obtain ⟨hlow, hhigh⟩ := h
  have hcount : (c :: s).count '\n' = (c :: body).count '\n' + rest.count '\n' := by
    rw [← hs, ← List.cons_append, List.count_append]
  constructor <;> omega

theorem tokens_within (first : Nat) (s : List Char) :
    (∀ token ∈ (tokens first s).1, Within first s token.2) ∧
    ∀ issue, (tokens first s).2 = some issue → Within first s issue.line := by
  fun_induction tokens first s with
  | case1 => simp
  | case2 first c s what hwhat =>
    refine ⟨by simp, fun issue h => ?_⟩
    cases h
    exact ⟨Nat.le_refl _, Nat.le_add_right _ _⟩
  | case3 first c s t body rest hlexeme _ later issue hlater ih =>
    rw [hlater] at ih
    have hs := lexeme_append hlexeme
    constructor
    · intro token htoken
      rcases List.mem_cons.mp htoken with rfl | hin
      · exact ⟨Nat.le_refl _, Nat.le_add_right _ _⟩
      · exact .later hs (ih.1 token hin)
    · intro issue' hissue
      exact .later hs (ih.2 issue' hissue)

/-! ## The lines of a step -/

def Lines (P : Nat → Prop) : Except Issue Stack → Prop
  | .ok stack => ∀ opened ∈ stack, P opened.2
  | .error issue => P issue.line

theorem stepWord_lines {P : Nat → Prop} {stack : Stack} {line : Nat} (word : List Char)
    (hs : ∀ opened ∈ stack, P opened.2) (hline : P line) : Lines P (stepWord stack line word) := by
  have hpush (what : Construct) : Lines P (.ok ((what, line) :: stack)) := by
    intro opened hopened
    rcases List.mem_cons.mp hopened with rfl | hin
    · exact hline
    · exact hs opened hin
  unfold stepWord
  split
  · exact hpush _
  split
  · exact hpush _
  split
  · exact hpush _
  split
  · exact hpush _
  split
  · split
    · intro opened hopened
      rcases List.mem_cons.mp hopened with rfl | hin
      · exact hs (.loopHead, _) List.mem_cons_self
      · exact hs opened (List.mem_cons_of_mem _ hin)
    · exact hpush _
  split
  · split
    any_goals exact hline
    all_goals exact fun opened hin => hs opened (List.mem_cons_of_mem _ hin)
  split
  · split
    any_goals exact hline
    exact fun opened hin => hs opened (List.mem_cons_of_mem _ hin)
  · exact hs

theorem step_lines {P : Nat → Prop} {stack : Stack} {token : Token × Nat}
    (hs : ∀ opened ∈ stack, P opened.2) (hline : P token.2) : Lines P (step stack token) := by
  obtain ⟨t, line⟩ := token
  cases t with
  | word word => exact stepWord_lines word hs hline
  | opening b =>
    intro opened hopened
    rcases List.mem_cons.mp hopened with rfl | hin
    · exact hline
    · exact hs opened hin
  | closing b =>
    cases stack with
    | nil => exact hline
    | cons top rest =>
      obtain ⟨what, opened⟩ := top
      simp only [step]
      split
      · exact fun opened hin => hs opened (List.mem_cons_of_mem _ hin)
      · exact hline
  | other => exact hs

theorem foldlM_step_lines {P : Nat → Prop} {found : List (Token × Nat)} {stack : Stack}
    (hs : ∀ opened ∈ stack, P opened.2) (hfound : ∀ token ∈ found, P token.2) :
    Lines P (found.foldlM step stack) := by
  induction found generalizing stack with
  | nil => exact hs
  | cons token found ih =>
    have hnext := step_lines hs (hfound token List.mem_cons_self)
    rw [List.foldlM_cons]
    cases hstep : step stack token with
    | error issue =>
      rw [hstep] at hnext
      exact hnext
    | ok next =>
      rw [hstep] at hnext
      exact ih hnext fun token' hin => hfound token' (List.mem_cons_of_mem _ hin)

/-! ## The check -/

theorem check_eq_ok_iff (source : List Char) :
    check source = .ok () ↔
      (tokens 1 source).2 = none ∧ (tokens 1 source).1.foldlM step [] = .ok [] := by
  rw [check]
  cases hrun : (tokens 1 source).1.foldlM step [] with
  | error issue => simp [hrun, bind, Except.bind]
  | ok stack =>
    cases hend : (tokens 1 source).2 with
    | some issue => simp [hrun, hend, bind, Except.bind]
    | none => cases stack <;> simp [hrun, hend, bind, Except.bind]

theorem foldlM_step_eq_nil_iff (found : List (Token × Nat)) :
    found.foldlM step [] = .ok [] ↔ Block (found.map Prod.fst) := by
  rw [← run_nil_iff]
  constructor
  · intro h
    exact foldlM_step_run h
  · intro h
    have hrun : Run (found.map Prod.fst) (([] : Stack).map Prod.fst) [] := h
    obtain ⟨stack, hfold, hstack⟩ := foldlM_step_of_run hrun
    rw [hfold, List.map_eq_nil_iff.mp hstack]

theorem check_line {source : List Char} {issue : Issue} (h : check source = .error issue) :
    Within 1 source issue.line := by
  obtain ⟨htokens, hissue⟩ := tokens_within 1 source
  have hfold : Lines (Within 1 source) ((tokens 1 source).1.foldlM step []) :=
    foldlM_step_lines (by simp) htokens
  rw [check] at h
  cases hrun : (tokens 1 source).1.foldlM step [] with
  | error issue' =>
    rw [hrun] at hfold
    simp only [hrun, bind, Except.bind] at h
    cases h
    exact hfold
  | ok stack =>
    rw [hrun] at hfold
    cases hend : (tokens 1 source).2 with
    | some issue' =>
      simp only [hrun, hend, bind, Except.bind] at h
      cases h
      exact hissue issue hend
    | none =>
      cases stack with
      | nil => simp [hrun, hend, bind, Except.bind] at h
      | cons top rest =>
        simp only [hrun, hend, bind, Except.bind] at h
        cases h
        exact hfold top List.mem_cons_self

/-- **A script passes exactly when it splits completely into tokens that the block grammar
derives, and an issue has the number of a line of the script.** -/
theorem check_accepts (source : List Char) :
    (check source = .ok () ↔ ∃ ts, Splits source ts ∧ Block ts) ∧
    ∀ issue, check source = .error issue →
      1 ≤ issue.line ∧ issue.line ≤ 1 + source.count '\n' := by
  refine ⟨?_, fun issue h => check_line h⟩
  rw [check_eq_ok_iff, foldlM_step_eq_nil_iff]
  constructor
  · rintro ⟨hnone, hblock⟩
    exact ⟨_, splits_of_tokens hnone, hblock⟩
  · rintro ⟨ts, hsplits, hblock⟩
    obtain ⟨hnone, rfl⟩ := (tokens_eq_iff 1 source ts).mpr hsplits
    exact ⟨hnone, hblock⟩

end RemoteConsole.Script
