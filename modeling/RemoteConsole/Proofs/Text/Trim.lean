import Mathlib.Data.List.DropRight
import RemoteConsole.Proofs.Text.Runs
import RemoteConsole.Text.CharSet

/-!
# Trimming

A text is its own trimming when it neither begins nor ends with a blank, and a trimmed text is such
a text.
-/

namespace RemoteConsole.Text

variable {s : List Char}

def Blank (s : List Char) : Prop := ∀ c ∈ s, isBlank c = true

instance (s : List Char) : Decidable (Blank s) := decidable_of_iff (s.all isBlank = true) List.all_eq_true

theorem trimEnd_eq (s : List Char) : trimEnd s = s.rdropWhile isBlank := rfl

theorem trim_of_ends (hfirst : Stops isBlank s) (hlast : ∀ c ∈ s.getLast?, isBlank c = false) : trim s = s := by
  have hstart : trimStart s = s := dropWhile_stops hfirst
  rw [trim, hstart, trimEnd_eq, List.rdropWhile_eq_self_iff]
  intro hne hblank
  rw [hlast _ (List.getLast?_eq_some_getLast hne)] at hblank
  cases hblank

theorem trim_stops (s : List Char) : Stops isBlank (trim s) := by
  intro c hc
  apply stops_dropWhile isBlank s
  obtain ⟨blanks, hblanks⟩ := List.rdropWhile_prefix isBlank (trimStart s)
  rw [← trimEnd_eq, ← trim] at hblanks
  rw [Option.mem_def, ← trimStart, ← hblanks, List.head?_append, Option.mem_def.mp hc]
  rfl

theorem trim_last (s : List Char) : ∀ c ∈ (trim s).getLast?, isBlank c = false := by
  intro c hc
  have hne : trim s ≠ [] := by
    intro hnil
    rw [hnil] at hc
    cases hc
  obtain rfl : (trim s).getLast hne = c := by
    rw [List.getLast?_eq_some_getLast hne] at hc
    exact Option.some.inj hc
  exact Bool.eq_false_iff.mpr (List.rdropWhile_last_not isBlank (trimStart s) hne)

theorem trim_append_blanks {blanks : List Char} (h : Blank blanks) (s : List Char) :
    trim (s ++ blanks) = trim s := by
  have hend (t : List Char) : trimEnd (t ++ blanks) = trimEnd t := by
    rw [trimEnd, List.reverse_append, List.dropWhile_append_of_pos fun c hc => h c (List.mem_reverse.mp hc)]
    rfl
  have hblanks : blanks.dropWhile isBlank = [] := List.dropWhile_eq_nil_iff.mpr h
  rw [trim, trim, trimStart, trimStart, List.dropWhile_append]
  split
  · next hempty => rw [hblanks, List.isEmpty_iff.mp hempty]
  · exact hend _

theorem trim_cons_blank {c : Char} (hc : isBlank c = true) (s : List Char) : trim (c :: s) = trim s := by
  rw [trim, trim, trimStart, trimStart, List.dropWhile_cons_of_pos hc]

theorem trim_idem (s : List Char) : trim (trim s) = trim s := trim_of_ends (trim_stops s) (trim_last s)

/-! ## Blank texts -/

theorem blank_nil : Blank [] := List.forall_mem_nil _

theorem blank_append {t : List Char} : Blank (s ++ t) ↔ Blank s ∧ Blank t := List.forall_mem_append

theorem not_blank_of_mem {c : Char} (hmem : c ∈ s) (hc : isBlank c = false) : ¬ Blank s := by
  intro hs
  rw [hs c hmem] at hc
  cases hc

theorem trimStart_eq_nil : trimStart s = [] ↔ Blank s := List.dropWhile_eq_nil_iff

theorem trim_eq_nil : trim s = [] ↔ Blank s := by
  rw [trim, trimEnd_eq, List.rdropWhile_eq_nil_iff]
  constructor
  · intro h
    rw [← trimStart_eq_nil]
    cases hs : trimStart s with
    | nil => rfl
    | cons c rest =>
      have hc : isBlank c = false := stops_dropWhile isBlank s c (by rw [← trimStart, hs]; rfl)
      rw [h c (hs ▸ List.mem_cons_self)] at hc
      cases hc
  · intro h
    rw [trimStart_eq_nil.mpr h]
    exact List.forall_mem_nil _

theorem blank_trim : Blank (trim s) ↔ Blank s := by
  rw [← trim_eq_nil, trim_idem, trim_eq_nil]

end RemoteConsole.Text
