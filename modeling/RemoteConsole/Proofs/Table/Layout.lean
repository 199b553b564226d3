import RemoteConsole.Proofs.Table.Literal

/-!
# Layout

Layout is blanks and comments in any mix. A comment runs to the next line break, which is itself a
blank; only before the end of the text may it have none. `skip` takes the longest layout there is:
whatever precedes a token is layout, and layout before a token does not matter.
-/

namespace RemoteConsole.Table

def NoBreak (text : List Char) : Prop := ∀ c ∈ text, isLineBreak c = false

inductive Layout : List Char → Prop
  | nil : Layout []
  | blank {c : Char} {layout : List Char} :
    isLayout c = true → Layout layout → Layout (c :: layout)
  | comment {text layout : List Char} {c : Char} :
    NoBreak text → isLineBreak c = true → Layout layout →
    Layout ("--".toList ++ text ++ c :: layout)

/-- Layout at the end of a text, where the last comment may run to the end. -/
inductive Trailing : List Char → Prop
  | layout {layout : List Char} : Layout layout → Trailing layout
  | comment {layout text : List Char} :
    Layout layout → NoBreak text → Trailing (layout ++ ("--".toList ++ text))

/-! ## Skipping what is layout -/

theorem skipFrom_comment {text : List Char} (h : NoBreak text) (s : List Char) :
    skipFrom true (text ++ s) = skipFrom true s := by
  induction text with
  | nil => rfl
  | cons c text ih =>
    have hc : isLineBreak c = false := h c List.mem_cons_self
    rw [List.cons_append, skipFrom, hc]
    exact ih fun d hd => h d (List.mem_cons_of_mem _ hd)

theorem skip_blank {c : Char} (hc : isLayout c = true) (s : List Char) : skip (c :: s) = skip s := by
  unfold skip
  rw [skipFrom.eq_def]
  simp only [hc, if_true]

theorem skip_dashes (s : List Char) : skip ("--".toList ++ s) = skipFrom true s := rfl

theorem skip_layout {layout : List Char} (h : Layout layout) (s : List Char) :
    skip (layout ++ s) = skip s := by
  induction h with
  | nil => rfl
  | blank hc _ ih =>
    rw [List.cons_append, skip_blank hc]
    exact ih
  | comment htext hc _ ih =>
    rw [List.append_assoc, List.append_assoc, skip_dashes, skipFrom_comment htext, List.cons_append,
      skipFrom, hc]
    exact ih

theorem skip_trailing {tail : List Char} (h : Trailing tail) : skip tail = [] := by
  cases h with
  | layout h =>
    have := skip_layout h []
    rwa [List.append_nil] at this
  | @comment layout text h htext =>
    rw [skip_layout h, skip_dashes, ← List.append_nil text, skipFrom_comment htext]
    rfl

/-! ## What is skipped is layout -/

inductive Commented : List Char → Prop
  | mk {text layout : List Char} {c : Char} :
    NoBreak text → isLineBreak c = true → Layout layout → Commented (text ++ c :: layout)

def Skipped : Bool → List Char → Prop
  | false, layout => Layout layout
  | true, layout => Commented layout

theorem Commented.cons {c : Char} {layout : List Char} (hc : isLineBreak c = false)
    (h : Commented layout) : Commented (c :: layout) := by
  cases h with
  | @mk text layout d htext hbreak hlayout =>
    have htext' : NoBreak (c :: text) := List.forall_mem_cons.mpr ⟨hc, htext⟩
    exact .mk htext' hbreak hlayout

theorem skipped_comment {c : Char} {layout : List Char} (h : Skipped (!isLineBreak c) layout) :
    Skipped true (c :: layout) := by
  cases hc : isLineBreak c with
  | true =>
    rw [hc] at h
    have hnone : NoBreak [] := by simp [NoBreak]
    exact .mk hnone hc h
  | false =>
    rw [hc] at h
    exact .cons hc h

theorem skipped_dashes {layout : List Char} (h : Skipped true layout) :
    Skipped false ('-' :: '-' :: layout) := by
  cases h with
  | mk htext hbreak hlayout => exact .comment htext hbreak hlayout

theorem exists_skipped {inComment : Bool} {s : List Char} (h : skipFrom inComment s ≠ []) :
    ∃ layout, Skipped inComment layout ∧ s = layout ++ skipFrom inComment s := by
  fun_induction skipFrom inComment s with
  | case1 => exact absurd rfl h
  | case2 c s ih =>
    obtain ⟨layout, hlayout, hs⟩ := ih h
    exact ⟨c :: layout, skipped_comment hlayout, congrArg (c :: ·) hs⟩
  | case3 c s hc ih =>
    obtain ⟨layout, hlayout, hs⟩ := ih h
    exact ⟨c :: layout, .blank hc hlayout, congrArg (c :: ·) hs⟩
  | case4 s hc ih =>
    obtain ⟨layout, hlayout, hs⟩ := ih h
    exact ⟨'-' :: '-' :: layout, skipped_dashes hlayout, congrArg ('-' :: '-' :: ·) hs⟩
  | case5 => exact ⟨[], .nil, rfl⟩

theorem exists_layout {s : List Char} (h : skip s ≠ []) :
    ∃ layout, Layout layout ∧ s = layout ++ skip s := exists_skipped h

def SkippedToEnd : Bool → List Char → Prop
  | false, tail => Trailing tail
  | true, tail => NoBreak tail ∨ ∃ text c rest, tail = text ++ c :: rest ∧ NoBreak text ∧
      isLineBreak c = true ∧ Trailing rest

theorem Trailing.cons {c : Char} {tail : List Char} (hc : isLayout c = true) (h : Trailing tail) :
    Trailing (c :: tail) := by
  cases h with
  | layout h => exact .layout (.blank hc h)
  | comment h htext => exact .comment (.blank hc h) htext

theorem trailing_dashes {tail : List Char} (h : SkippedToEnd true tail) :
    Trailing ('-' :: '-' :: tail) := by
  rcases h with htext | ⟨text, c, rest, rfl, htext, hbreak, hrest⟩
  · exact .comment .nil htext
  · have hcomment {layout : List Char} (hlayout : Layout layout) :
        Layout ('-' :: '-' :: (text ++ c :: layout)) := .comment htext hbreak hlayout
    cases hrest with
    | layout hlayout => exact .layout (hcomment hlayout)
    | comment hlayout hlast =>
      have := Trailing.comment (hcomment hlayout) hlast
      simpa using this

theorem skippedToEnd {inComment : Bool} {s : List Char} (h : skipFrom inComment s = []) :
    SkippedToEnd inComment s := by
  fun_induction skipFrom inComment s with
  | case1 inComment =>
    cases inComment with
    | false => exact .layout .nil
    | true => exact .inl (by simp [NoBreak])
  | case2 c s ih =>
    cases hc : isLineBreak c with
    | true =>
      rw [hc] at ih h
      exact .inr ⟨[], c, s, rfl, by simp [NoBreak], hc, ih h⟩
    | false =>
      rw [hc] at ih h
      have hcons {text : List Char} (htext : NoBreak text) : NoBreak (c :: text) :=
        List.forall_mem_cons.mpr ⟨hc, htext⟩
      rcases ih h with htext | ⟨text, d, rest, rfl, htext, hbreak, hrest⟩
      · exact .inl (hcons htext)
      · exact .inr ⟨c :: text, d, rest, rfl, hcons htext, hbreak, hrest⟩
  | case3 c s hc ih => exact (ih h).cons hc
  | case4 s hc ih => exact trailing_dashes (ih h)
  | case5 => cases h

theorem trailing_of_skip {s : List Char} (h : skip s = []) : Trailing s := skippedToEnd h

/-! ## What may follow a token -/

theorem ends_layout {layout s : List Char} (h : Layout layout) (hs : Ends s) : Ends (layout ++ s) := by
  cases h with
  | nil => exact hs
  | blank hc _ =>
    refine ends_cons _ ?_
    simp only [isLayout, Bool.or_eq_true, beq_iff_eq] at hc
    rcases hc with ((rfl | rfl) | rfl) | rfl <;> decide
  | comment => exact ends_cons _ (by decide)

theorem ends_trailing {tail : List Char} (h : Trailing tail) : Ends tail := by
  cases h with
  | layout h =>
    have := ends_layout h ends_nil
    rwa [List.append_nil] at this
  | comment h => exact ends_layout h (ends_cons _ (by decide))

end RemoteConsole.Table
