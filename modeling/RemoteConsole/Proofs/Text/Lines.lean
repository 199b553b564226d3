import RemoteConsole.Proofs.Text.Search
import RemoteConsole.Proofs.Text.Trim

/-!
# Pieces and lines

A text is its pieces with separators between them, so no character is lost but the separators; the
lines of a text are its pieces less blanks.
-/

namespace RemoteConsole.Text

variable {s piece : List Char} {sep : Char → Bool}

theorem flatten_splitAt (sep : Char → Bool) (s : List Char) : (splitAt sep s).flatten = s.filter (!sep ·) := by
  induction s with
  | nil => rfl
  | cons c s ih =>
    rw [splitAt]
    by_cases hc : sep c = true
    · rw [if_pos hc, List.flatten_cons, List.nil_append, ih, List.filter_cons_of_neg (by simp [hc])]
    · rw [if_neg hc, List.filter_cons_of_pos (by simp [hc]), ← ih]
      cases hpieces : splitAt sep s with
      | nil => exact absurd hpieces (splitAt_ne_nil sep s)
      | cons piece pieces => rfl

theorem blank_of_mem_splitAt (hs : Blank s) (hpiece : piece ∈ splitAt sep s) : Blank piece := by
  intro c hc
  have hin : c ∈ s.filter (!sep ·) := flatten_splitAt sep s ▸ List.mem_flatten_of_mem hpiece hc
  exact hs c (List.mem_of_mem_filter hin)

theorem blank_of_splitAt (hsep : ∀ c, sep c = true → isBlank c = true) (h : ∀ piece ∈ splitAt sep s, Blank piece) :
    Blank s := by
  intro c hc
  by_cases hsepc : sep c = true
  · exact hsep c hsepc
  · have hin : c ∈ (splitAt sep s).flatten := by
      rw [flatten_splitAt]
      exact List.mem_filter.mpr ⟨hc, by simp [hsepc]⟩
    obtain ⟨piece, hpiece, hmem⟩ := List.mem_flatten.mp hin
    exact h piece hpiece c hmem

theorem blank_lines : (∀ line ∈ lines s, Blank line) ↔ Blank s := by
  have hended (piece : List Char) : Blank ((before? ['\r'] piece).getD piece) ↔ Blank piece := by
    cases hbefore : before? ['\r'] piece with
    | none => rfl
    | some front =>
      rw [before?_eq_some.mp hbefore, blank_append, Option.getD_some]
      exact ⟨fun h => ⟨h, by decide⟩, And.left⟩
  have hpieces : (∀ line ∈ lines s, Blank line) ↔ ∀ piece ∈ splitAt (· == '\n') s, Blank piece := by
    obtain ⟨ended, last, hsplit⟩ := List.eq_nil_or_concat (splitAt (· == '\n') s) |>.resolve_left (splitAt_ne_nil _ _)
    rw [List.concat_eq_append] at hsplit
    rw [lines, hsplit, List.dropLast_concat, List.getLast?_concat]
    -- the last piece is a line only if there is text in it
    cases last with
    | nil => simp [or_imp, forall_and, hended, blank_nil]
    | cons c last => simp [or_imp, forall_and, hended]
  rw [hpieces]
  constructor
  · exact blank_of_splitAt fun c hc => by rw [beq_iff_eq.mp hc]; decide
  · exact fun hs piece => blank_of_mem_splitAt hs

end RemoteConsole.Text
