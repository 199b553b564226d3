import RemoteConsole.Proofs.Script.Check

/-!
# One script after another

A line feed ends whatever lexeme could go on at the end of a script, and a script that passes leaves nothing open.
So a second script, put on the lines behind such a one, is checked as it is alone, and its lines are counted on.
-/

namespace RemoteConsole.Script

open Text (Stops stops_cons stops_append)

/-! ## Lines counted on -/

def onLater {α : Type} (k : Nat) (x : α × Nat) : α × Nat := (x.1, x.2 + k)

def Fault.later (k : Nat) : Fault → Fault
  | .mismatch closer what line => .mismatch closer what (line + k)
  | fault => fault

def Issue.later (k : Nat) (issue : Issue) : Issue := ⟨issue.line + k, issue.fault.later k⟩

def outcomeLater (k : Nat) : Except Issue Stack → Except Issue Stack
  | .ok stack => .ok (stack.map (onLater k))
  | .error issue => .error (issue.later k)

theorem tokens_later (k line : Nat) (s : List Char) :
    tokens (line + k) s = ((tokens line s).1.map (onLater k), (tokens line s).2.map (Issue.later k)) := by
  fun_induction tokens line s with
  | case1 => simp [tokens]
  | case2 line c s what hwhat =>
    rw [tokens_error hwhat]
    rfl
  | case3 line c s t body rest hlexeme _ later issue hlater ih =>
    have hline : line + k + (c :: body).count '\n' = line + (c :: body).count '\n' + k := Nat.add_right_comm ..
    rw [tokens_cons hlexeme, hline, ih, hlater]
    rfl

theorem stepWord_later (k : Nat) (stack : Stack) (line : Nat) (word : List Char) :
    stepWord (stack.map (onLater k)) (line + k) word = outcomeLater k (stepWord stack line word) := by
  unfold stepWord
  split_ifs
  -- `do`, `end` and `until` look at what is innermost
  any_goals rfl
  all_goals
    cases stack with
    | nil => rfl
    | cons top rest =>
      obtain ⟨what, opened⟩ := top
      cases what <;> rfl

theorem step_later (k : Nat) (stack : Stack) (token : Token × Nat) :
    step (stack.map (onLater k)) (onLater k token) = outcomeLater k (step stack token) := by
  obtain ⟨t, line⟩ := token
  cases t with
  | word word => exact stepWord_later k stack line word
  | opening b => rfl
  | closing b =>
    cases stack with
    | nil => rfl
    | cons top rest =>
      obtain ⟨what, opened⟩ := top
      by_cases hwhat : what = .bracket b
      · simp [step, onLater, outcomeLater, hwhat]
      · simp [step, onLater, outcomeLater, hwhat, Issue.later, Fault.later]
  | other => rfl

theorem foldlM_step_later (k : Nat) (found : List (Token × Nat)) (stack : Stack) :
    (found.map (onLater k)).foldlM step (stack.map (onLater k)) = outcomeLater k (found.foldlM step stack) := by
  induction found generalizing stack with
  | nil => rfl
  | cons token found ih =>
    rw [List.map_cons, List.foldlM_cons, List.foldlM_cons, step_later]
    cases step stack token with
    | error issue => rfl
    | ok next => exact ih next

def verdict (found : List (Token × Nat) × Option Issue) : Except Issue Unit := do
  let stack ← found.1.foldlM step []
  match found.2, stack with
  | some issue, _ => .error issue
  | none, (what, opened) :: _ => .error ⟨opened, .neverClosed what⟩
  | none, [] => .ok ()

theorem check_eq_verdict (source : List Char) : check source = verdict (tokens 1 source) := rfl

theorem verdict_later (k : Nat) (found : List (Token × Nat) × Option Issue) :
    verdict (found.1.map (onLater k), found.2.map (Issue.later k)) = (verdict found).mapError (Issue.later k) := by
  obtain ⟨ts, issue⟩ := found
  have hfold : (ts.map (onLater k)).foldlM step [] = outcomeLater k (ts.foldlM step []) := foldlM_step_later k ts []
  unfold verdict
  rw [hfold]
  cases ts.foldlM step [] with
  | error e => rfl
  | ok stack =>
    cases issue with
    | some e => rfl
    | none =>
      cases stack with
      | nil => rfl
      | cons top rest => rfl

/-! ## A line feed between -/

variable {s text rest : List Char} {t : Token}

theorem OpensLong.of_line {b : List Char} (h : OpensLong (s ++ '\n' :: b)) : OpensLong s := by
  obtain ⟨level, after, h⟩ := h
  rcases List.append_eq_append_iff.mp h with ⟨more, hopening, hmore⟩ | ⟨more, hs, -⟩
  · cases more with
    | nil => exact ⟨level, [], by simpa using hopening.symm⟩
    | cons d more =>
      have hfeed : '\n' ∈ longOpening level := by
        rw [hopening, (List.cons.inj hmore).1]
        simp
      simp [longOpening] at hfeed
  · exact ⟨level, more, hs⟩

theorem Lexes.line (h : Lexes text t rest) (b : List Char) : Lexes text t (rest ++ '\n' :: b) := by
  cases h with
  | lineComment hbody hopens hrest =>
    refine .lineComment hbody (fun hlong => hopens ?_) (stops_append hrest (stops_cons b rfl))
    rw [← List.append_assoc] at hlong
    exact hlong.of_line
  | longComment hlong => exact .longComment hlong
  | string hquote hbody => exact .string hquote hbody
  | longString hlong => exact .longString hlong
  | @opening bracket _ hopens =>
    have hopens' : ¬ OpensLong ((bracket.opener :: rest) ++ '\n' :: b) := fun hlong => hopens hlong.of_line
    exact .opening hopens'
  | closing => exact .closing
  | word hc hbody hrest => exact .word hc hbody (stops_append hrest (stops_cons b rfl))
  | number hc hbody hrest => exact .number hc hbody (stops_append hrest (stops_cons b rfl))
  | single hmarks hword hdigit hnext =>
    refine .single hmarks hword hdigit fun hc => ?_
    cases rest with
    | nil => simp
    | cons d rest => exact hnext hc

theorem tokens_line (line : Nat) (b : List Char) :
    tokens line ('\n' :: b) = ((.other, line) :: (tokens (line + 1) b).1, (tokens (line + 1) b).2) := by
  have hlexeme : lexeme '\n' b = .ok (.other, [], b) := rfl
  exact tokens_cons hlexeme line

theorem tokens_append {a : List Char} {line : Nat} (h : (tokens line a).2 = none) (b : List Char) :
    tokens line (a ++ '\n' :: b) =
      ((tokens line a).1 ++ (tokens (line + a.count '\n') ('\n' :: b)).1,
        (tokens (line + a.count '\n') ('\n' :: b)).2) := by
  fun_induction tokens line a with
  | case1 => rfl
  | case2 => cases h
  | case3 line c s t body rest hlexeme _ later issue hlater ih =>
    rw [hlater] at ih
    obtain ⟨_, _, htext, hlexeme'⟩ := lexeme_of_lexes ((lexeme_lexes hlexeme).line b)
    obtain ⟨rfl, rfl⟩ := List.cons.inj htext
    have hs := lexeme_append hlexeme
    have hcount : line + (c :: s).count '\n' = line + (c :: body).count '\n' + rest.count '\n' := by
      rw [← hs, ← List.cons_append, List.count_append, Nat.add_assoc]
    rw [← List.append_assoc, hs] at hlexeme'
    rw [List.cons_append, tokens_cons hlexeme', ih h, hcount]
    rfl

theorem check_append {a : List Char} (h : check a = .ok ()) (b : List Char) :
    check (a ++ '\n' :: b) = (check b).mapError (Issue.later (a.count '\n' + 1)) := by
  obtain ⟨hend, hfold⟩ := (check_eq_ok_iff a).mp h
  have hline : 1 + a.count '\n' + 1 = 1 + (a.count '\n' + 1) := Nat.add_assoc ..
  have hstart (later : List (Token × Nat)) (issue : Option Issue) :
      verdict ((tokens 1 a).1 ++ (.other, 1 + a.count '\n') :: later, issue) = verdict (later, issue) := by
    simp only [verdict, List.foldlM_append, hfold]
    rfl
  calc check (a ++ '\n' :: b)
      = verdict (tokens 1 (a ++ '\n' :: b)) := check_eq_verdict _
    _ = verdict (tokens (1 + a.count '\n' + 1) b) := by rw [tokens_append hend, tokens_line, hstart]
    _ = (verdict (tokens 1 b)).mapError (Issue.later (a.count '\n' + 1)) := by
      rw [hline, tokens_later, verdict_later]

/-- **Scripts that pass can be put one after the other.** Behind a script that passes, and a line feed, another one
passes if and only if it does alone; where it does not, the issue is the same, on the line that is further down by the
lines in front. -/
theorem check_append_iff {a : List Char} (h : check a = .ok ()) (b : List Char) :
    (check (a ++ '\n' :: b) = .ok () ↔ check b = .ok ()) ∧
    ∀ issue, check b = .error issue →
      check (a ++ '\n' :: b) = .error (issue.later (a.count '\n' + 1)) := by
  rw [check_append h b]
  cases check b with
  | error e => simp [Except.mapError]
  | ok => simp [Except.mapError]

theorem check_append_mismatch :
    check "f() -- one\nx=5 --[=".toList = .ok () ∧
    check "if x\nf(a\nend".toList = .error ⟨3, .mismatch "end" (.bracket .round) 2⟩ ∧
    check ("f() -- one\nx=5 --[=".toList ++ '\n' :: "if x\nf(a\nend".toList) =
      .error ⟨5, .mismatch "end" (.bracket .round) 4⟩ := by
  have hfirst : check "f() -- one\nx=5 --[=".toList = .ok () := by decide +kernel
  have hsecond : check "if x\nf(a\nend".toList = .error ⟨3, .mismatch "end" (.bracket .round) 2⟩ := by decide +kernel
  exact ⟨hfirst, hsecond, (check_append_iff hfirst _).2 _ hsecond⟩

end RemoteConsole.Script
