import RemoteConsole.Proofs.Script.Append
import RemoteConsole.Proofs.Text.Search

/-!
# Where a long bracket ends

The check walks over a script one lexeme at a time. At a long bracket its next step goes right behind
the first closing bracket of the level, whatever stands in between, or there is none and the bracket
is the issue. On the way every line feed is counted once.
-/

namespace RemoteConsole.Script

open Text (FirstAt after? cutFirst? cutFirst?_eq_none cutFirst?_eq_some)

/-! ## The walk over a script -/

/-- Where the check stands: behind what it has consumed and before the rest, with the number of the line and what is
open. -/
@[ext] structure Position where
  consumed : List Char
  line : Nat
  stack : Stack
  rest : List Char

namespace Position

def start (source : List Char) : Position := ⟨[], 1, [], source⟩

def past (p : Position) (text rest : List Char) : Position :=
  ⟨p.consumed ++ text, p.line + text.count '\n', p.stack, rest⟩

/-- One lexeme further, or the issue that is met; at the end there is nothing more. -/
def next? (p : Position) : Option (Except Issue Position) :=
  match p.rest with
  | [] => none
  | c :: s => some <| match lexeme c s with
    | .error what => .error ⟨p.line, .unfinished what⟩
    | .ok (token, body, rest) =>
      (step p.stack (token, p.line)).map fun stack => { p.past (c :: body) rest with stack }

end Position

/-- The check of a script comes to a position. -/
inductive Reached (source : List Char) : Position → Prop
  | start : Reached source (.start source)
  | next {p q : Position} : Reached source p → p.next? = some (.ok q) → Reached source q

variable {source s : List Char} {p q : Position}

theorem Position.next?_cons {c : Char} (h : p.rest = c :: s) : p.next? = some (match lexeme c s with
    | .error what => .error ⟨p.line, .unfinished what⟩
    | .ok (token, body, rest) =>
      (step p.stack (token, p.line)).map fun stack => { p.past (c :: body) rest with stack }) := by
  rw [next?, h]

theorem Position.exists_of_next? (h : p.next? = some (.ok q)) :
    ∃ c s token body, p.rest = c :: s ∧ lexeme c s = .ok (token, body, q.rest) ∧
      step p.stack (token, p.line) = .ok q.stack ∧ q = { p.past (c :: body) q.rest with stack := q.stack } := by
  cases hrest : p.rest with
  | nil => simp [next?, hrest] at h
  | cons c s =>
    rw [next?_cons hrest] at h
    cases hlexeme : lexeme c s with
    | error what => simp [hlexeme] at h
    | ok found =>
      obtain ⟨token, body, rest⟩ := found
      simp only [hlexeme, Option.some.injEq] at h
      cases hstep : step p.stack (token, p.line) with
      | error issue => simp [hstep, Except.map] at h
      | ok stack =>
        rw [hstep] at h
        cases h
        exact ⟨c, s, token, body, rfl, hlexeme, hstep, rfl⟩

theorem Reached.whole (h : Reached source p) : p.consumed ++ p.rest = source := by
  induction h with
  | start => rfl
  | next _ hnext ih =>
    obtain ⟨c, s, token, body, hrest, hlexeme, -, hq⟩ := Position.exists_of_next? hnext
    rw [← ih, hrest, ← lexeme_append hlexeme, hq]
    simp [Position.past]

theorem Reached.line (h : Reached source p) : p.line = 1 + p.consumed.count '\n' := by
  induction h with
  | start => rfl
  | next _ hnext ih =>
    obtain ⟨c, s, token, body, -, -, -, hq⟩ := Position.exists_of_next? hnext
    rw [hq, Position.past, List.count_append, ih, Nat.add_assoc]

/-- With the lines counted, a position further on is known by its text and its rest. -/
theorem Reached.past_eq (h : Reached source p) {text : List Char} (hconsumed : q.consumed = p.consumed ++ text)
    (hline : q.line = 1 + q.consumed.count '\n') (hstack : q.stack = p.stack) : p.past text q.rest = q := by
  refine Position.ext hconsumed.symm ?_ hstack.symm rfl
  rw [hline, hconsumed, List.count_append, ← Nat.add_assoc, ← h.line]
  rfl

/-- What the check makes of the rest. -/
def Position.verdict (p : Position) : Except Issue Unit := do
  let stack ← (tokens p.line p.rest).1.foldlM step p.stack
  match (tokens p.line p.rest).2, stack with
  | some issue, _ => .error issue
  | none, (what, opened) :: _ => .error ⟨opened, .neverClosed what⟩
  | none, [] => .ok ()

theorem Position.verdict_start (source : List Char) : (start source).verdict = check source := rfl

theorem Position.verdict_next {result : Except Issue Position} (h : p.next? = some result) :
    p.verdict = result.bind verdict := by
  cases hrest : p.rest with
  | nil => simp [next?, hrest] at h
  | cons c s =>
    rw [next?_cons hrest, Option.some.injEq] at h
    rw [verdict, hrest]
    cases hlexeme : lexeme c s with
    | error what =>
      rw [hlexeme] at h
      subst h
      rw [tokens_error hlexeme]
      rfl
    | ok found =>
      obtain ⟨token, body, rest⟩ := found
      simp only [hlexeme] at h
      rw [tokens_cons hlexeme, List.foldlM_cons]
      cases hstep : step p.stack (token, p.line) with
      | error issue =>
        rw [hstep] at h
        subst h
        rfl
      | ok stack =>
        rw [hstep] at h
        subst h
        rfl

/-- The check of the script is that of the rest, wherever it stands. -/
theorem Reached.check_eq (h : Reached source p) : check source = p.verdict := by
  induction h with
  | start => exact (Position.verdict_start source).symm
  | next _ hnext ih => exact ih.trans (Position.verdict_next hnext)

/-! ## Long brackets -/

/-- What a long bracket is written for. -/
inductive LongKind where
  | string | comment

def LongKind.opening (level : Nat) : LongKind → List Char
  | string => longOpening level
  | comment => "--".toList ++ longOpening level

def LongKind.unfinished : LongKind → Unfinished
  | string => .longString
  | comment => .longComment

theorem longBody?_eq (level : Nat) (s : List Char) : longBody? level s =
    (cutFirst? (longClosing level) s).map fun (front, rest) => (front ++ longClosing level, rest) := by
  induction s with
  | nil => rfl
  | cons c s ih =>
    have hhere : after? (longClosing level) (c :: s) = if c = ']' then after? (longCloser level) s else none := by
      rw [longClosing, after?]
      simp only [eq_comm]
    rw [longBody?, cutFirst?, hhere, ih]
    cases hfound : (if c = ']' then after? (longCloser level) s else none) with
    | some rest =>
      obtain rfl : c = ']' := by
        by_contra hc
        rw [if_neg hc] at hfound
        cases hfound
      rfl
    | none => cases cutFirst? (longClosing level) s <;> rfl

/-- A long bracket is a lexeme up to its first closing bracket. -/
theorem lexeme_long (kind : LongKind) (level : Nat) (s : List Char) :
    ∃ c tail, kind.opening level = c :: tail ∧
      lexeme c (tail ++ s) = match cutFirst? (longClosing level) s with
        | some (front, rest) => .ok (.other, tail ++ (front ++ longClosing level), rest)
        | none => .error kind.unfinished := by
  have hlevel : longLevel? ((longOpening level).tail ++ s) = some level := longLevel?_eq_some.mpr ⟨s, rfl⟩
  have hlong : longRest? level ((longOpening level).tail ++ s) = (cutFirst? (longClosing level) s).map
      fun (front, rest) => ((longOpening level).tail ++ (front ++ longClosing level), rest) := by
    rw [longRest?_eq, longBody?_eq, Option.map_map]
    rfl
  cases kind with
  | string =>
    refine ⟨'[', (longOpening level).tail, rfl, ?_⟩
    unfold lexeme
    rw [if_neg (by simp), if_neg (by decide), if_pos rfl]
    simp only [hlevel, hlong]
    cases cutFirst? (longClosing level) s <;> rfl
  | comment =>
    have hcomment : commentRest ('[' :: ((longOpening level).tail ++ s)) = match cutFirst? (longClosing level) s with
        | some (front, rest) => .ok (longOpening level ++ (front ++ longClosing level), rest)
        | none => .error .longComment := by
      simp only [commentRest, hlevel, hlong]
      cases cutFirst? (longClosing level) s <;> rfl
    refine ⟨'-', '-' :: longOpening level, rfl, ?_⟩
    unfold lexeme
    rw [if_pos ⟨rfl, rfl⟩]
    refine (congrArg _ hcomment).trans ?_
    cases cutFirst? (longClosing level) s <;> rfl

/-- The next step at a long bracket goes behind its first closing bracket. -/
theorem Position.next?_long (kind : LongKind) {level : Nat} (h : p.rest = kind.opening level ++ s) :
    p.next? = some (match cutFirst? (longClosing level) s with
      | some (front, rest) => .ok (p.past (kind.opening level ++ (front ++ longClosing level)) rest)
      | none => .error ⟨p.line, .unfinished kind.unfinished⟩) := by
  obtain ⟨c, tail, hopening, hlexeme⟩ := lexeme_long kind level s
  rw [hopening, List.cons_append] at h
  rw [next?_cons h, hlexeme, hopening]
  cases cutFirst? (longClosing level) s <;> rfl

/-- **A long bracket ends at the first closing bracket of its level.** Wherever the check comes to one, the next step
consumes the bracket up to and with the first closing one and no more, with all line feeds up to there counted, and the
check goes on behind it. The bracket is reported as unfinished if and only if there is no closing one. -/
theorem longBracket_ends (kind : LongKind) (level : Nat) (hp : Reached source p) (h : p.rest = kind.opening level ++ s) :
    p.consumed ++ p.rest = source ∧ p.line = 1 + p.consumed.count '\n' ∧
    (∀ q, p.next? = some (.ok q) ↔ ∃ front, FirstAt (longClosing level) s front q.rest ∧
      q.consumed = p.consumed ++ (kind.opening level ++ (front ++ longClosing level)) ∧
      q.line = 1 + q.consumed.count '\n' ∧ q.stack = p.stack) ∧
    (∀ q, p.next? = some (.ok q) → check source = q.verdict) ∧
    (∀ issue, p.next? = some (.error issue) ↔
      ¬ longClosing level <:+: s ∧ issue = ⟨p.line, .unfinished kind.unfinished⟩) ∧
    (¬ longClosing level <:+: s → check source = .error ⟨p.line, .unfinished kind.unfinished⟩) := by
  have hnext := Position.next?_long kind h
  refine ⟨hp.whole, hp.line, fun q => ⟨fun hq => ?_, ?_⟩, fun q hq => (hp.next hq).check_eq, fun issue => ?_,
    fun hnone => ?_⟩
  · have hline := (hp.next hq).line
    rw [hnext] at hq
    cases hcut : cutFirst? (longClosing level) s with
    | none => simp [hcut] at hq
    | some found =>
      rw [hcut] at hq
      cases hq
      exact ⟨found.1, cutFirst?_eq_some.mp hcut, rfl, hline, rfl⟩
  · rintro ⟨front, hfirst, hconsumed, hline, hstack⟩
    rw [hnext, cutFirst?_eq_some.mpr hfirst, ← hp.past_eq hconsumed hline hstack]
    rfl
  · rw [hnext, ← cutFirst?_eq_none]
    cases cutFirst? (longClosing level) s with
    | none => simp [eq_comm]
    | some found => simp
  · rw [hp.check_eq, Position.verdict_next hnext, cutFirst?_eq_none.mpr hnone]
    rfl

/-- Closing brackets may share characters, and opening ones inside or closing ones of other levels mean nothing. -/
theorem longBracket_ends_overlapping :
    let source := "x\n--[=[a\n]][=[]==]=]=]y".toList
    let p : Position := ⟨"x\n".toList, 2, [], "--[=[a\n]][=[]==]=]=]y".toList⟩
    Reached source p ∧ p.rest = LongKind.comment.opening 1 ++ "a\n]][=[]==]=]=]y".toList ∧
    p.next? = some (.ok ⟨"x\n--[=[a\n]][=[]==]=]".toList, 3, [], "=]y".toList⟩) ∧
    ¬ longClosing 1 <:+: "]]]==]=".toList ∧ check "[=[]]]==]=".toList = .error ⟨1, .unfinished .longString⟩ := by
  intro source p
  have hword : Reached source ⟨['x'], 1, [], "\n--[=[a\n]][=[]==]=]=]y".toList⟩ := .next .start (by rfl)
  have hp : Reached source p := .next hword (by rfl)
  have hfirst : FirstAt (longClosing 1) "a\n]][=[]==]=]=]y".toList "a\n]][=[]==".toList "=]y".toList :=
    cutFirst?_eq_some.mp (by rfl)
  have hnone : ¬ longClosing 1 <:+: "]]]==]=".toList := cutFirst?_eq_none.mp (by rfl)
  have hstart : Reached "[=[]]]==]=".toList (.start _) := .start
  obtain ⟨-, -, hstep, -⟩ := longBracket_ends .comment 1 hp rfl
  obtain ⟨-, -, -, -, -, hreport⟩ := longBracket_ends .string 1 hstart rfl
  exact ⟨hp, rfl, (hstep _).mpr ⟨_, hfirst, rfl, rfl, rfl⟩, hnone, hreport hnone⟩

end RemoteConsole.Script
