import Mathlib.Data.List.Basic
import RemoteConsole.Text.Search

/-!
# Where a text occurs in another

A text is cut at the first place where the needle occurs; a character that is not in the needle keeps
what stands before it apart from what stands behind it.
-/

namespace RemoteConsole.Text

variable {needle s before rest front : List Char} {c : Char}

theorem after?_eq_some : after? needle s = some rest ↔ s = needle ++ rest := by
  constructor
  · exact eq_append_of_after?
  · rintro rfl
    exact after?_append needle rest

theorem after?_eq_none : after? needle s = none ↔ ¬ needle <+: s := by
  constructor
  · rintro h ⟨rest, hrest⟩
    rw [after?_eq_some.mpr hrest.symm] at h
    cases h
  · intro h
    cases hs : after? needle s with
    | none => rfl
    | some rest => exact absurd ⟨rest, (after?_eq_some.mp hs).symm⟩ h

theorem before?_eq_some : before? needle s = some front ↔ s = front ++ needle := by
  unfold before?
  constructor
  · intro h
    obtain ⟨reversed, hafter, rfl⟩ := Option.map_eq_some_iff.mp h
    rw [← s.reverse_reverse, after?_eq_some.mp hafter, List.reverse_append, List.reverse_reverse]
  · rintro rfl
    rw [List.reverse_append, after?_append, Option.map_some, List.reverse_reverse]

/-- The needle occurs behind `before`, and nowhere earlier. -/
structure FirstAt (needle s before rest : List Char) : Prop where
  whole : s = before ++ (needle ++ rest)
  first : ∀ b r, s = b ++ (needle ++ r) → before.length ≤ b.length

theorem FirstAt.unique {before' rest' : List Char} (h : FirstAt needle s before rest)
    (h' : FirstAt needle s before' rest') : before = before' ∧ rest = rest' := by
  have hlength : before.length = before'.length := Nat.le_antisymm (h.first _ _ h'.whole) (h'.first _ _ h.whole)
  obtain ⟨rfl, heq⟩ := List.append_inj (h.whole.symm.trans h'.whole) hlength
  exact ⟨rfl, List.append_cancel_left heq⟩

theorem FirstAt.within (h : FirstAt needle s before rest) : needle <:+: s :=
  ⟨before, rest, by rw [h.whole, List.append_assoc]⟩

theorem firstAt_of_cutFirst? (h : cutFirst? needle s = some (before, rest)) : FirstAt needle s before rest := by
  induction s generalizing before with
  | nil =>
    unfold cutFirst? at h
    split at h
    · next hempty =>
      cases h
      exact ⟨by rw [List.isEmpty_iff.mp hempty]; rfl, fun b r _ => Nat.zero_le _⟩
    · cases h
  | cons c s ih =>
    unfold cutFirst? at h
    split at h
    · next hafter =>
      cases h
      refine ⟨?_, fun b r _ => Nat.zero_le _⟩
      rw [List.nil_append]
      exact eq_append_of_after? hafter
    · next hafter =>
      obtain ⟨⟨front, rest'⟩, hcut, heq⟩ := Option.map_eq_some_iff.mp h
      cases heq
      obtain ⟨hwhole, hfirst⟩ := ih hcut
      refine ⟨by rw [hwhole]; rfl, fun b r hb => ?_⟩
      cases b with
      | nil => exact absurd ⟨r, hb.symm⟩ (after?_eq_none.mp hafter)
      | cons d b => exact Nat.succ_le_succ (hfirst b r (List.cons.inj hb).2)

theorem cutFirst?_eq_none : cutFirst? needle s = none ↔ ¬ needle <:+: s := by
  induction s with
  | nil => cases needle <;> simp [cutFirst?]
  | cons c s ih =>
    rw [List.infix_cons_iff, not_or, ← ih, ← after?_eq_none, cutFirst?]
    cases after? needle (c :: s) with
    | none => simp
    | some rest => simp

theorem cutFirst?_eq_some : cutFirst? needle s = some (before, rest) ↔ FirstAt needle s before rest := by
  constructor
  · exact firstAt_of_cutFirst?
  · intro h
    cases hcut : cutFirst? needle s with
    | none => exact absurd h.within (cutFirst?_eq_none.mp hcut)
    | some found =>
      obtain ⟨rfl, rfl⟩ := h.unique (firstAt_of_cutFirst? hcut)
      rfl

theorem exists_firstAt (h : needle <:+: s) : ∃ before rest, FirstAt needle s before rest := by
  cases hcut : cutFirst? needle s with
  | none => exact absurd h (cutFirst?_eq_none.mp hcut)
  | some found => exact ⟨found.1, found.2, firstAt_of_cutFirst? hcut⟩

theorem contains_eq_true : contains needle s = true ↔ needle <:+: s := by
  rw [contains, Option.isSome_iff_ne_none, ne_eq, cutFirst?_eq_none, not_not]

theorem contains_eq_false : contains needle s = false ↔ ¬ needle <:+: s := by
  rw [← contains_eq_true, Bool.not_eq_true]

theorem firstAt_nil (needle rest : List Char) : FirstAt needle (needle ++ rest) [] rest :=
  ⟨rfl, fun _ _ _ => Nat.zero_le _⟩

theorem prefix_of_notMem (hc : c ∉ needle) (h : needle <+: front ++ c :: rest) : needle <+: front := by
  obtain ⟨r, hr⟩ := h
  rcases List.append_eq_append_iff.mp hr with ⟨more, hfront, -⟩ | ⟨extra, hneedle, hextra⟩
  · exact ⟨more, hfront.symm⟩
  · cases extra with
    | nil => exact ⟨[], by rw [hneedle, List.append_nil, List.append_nil]⟩
    | cons d extra =>
      obtain ⟨rfl, -⟩ := List.cons.inj hextra
      exact absurd (by simp [hneedle]) hc

theorem append_cons_inj {a b x y : List Char} (ha : c ∉ a) (hb : c ∉ b) (h : a ++ c :: x = b ++ c :: y) :
    a = b ∧ x = y := by
  have hstop (back : List Char) {front : List Char} (hfront : c ∉ front) : (front ++ c :: back).takeWhile (· != c) = front := by
    rw [List.takeWhile_append_of_pos]
    · simp
    · exact fun d hd => bne_iff_ne.mpr fun heq => hfront (heq ▸ hd)
  have hfront : a = b := by rw [← hstop x ha, h, hstop y hb]
  subst hfront
  exact ⟨rfl, (List.cons.inj (List.append_cancel_left h)).2⟩

theorem FirstAt.behind (hc : c ∉ needle) (hfront : ¬ needle <:+: front) :
    FirstAt needle (front ++ c :: (needle ++ rest)) (front ++ [c]) rest := by
  refine ⟨by simp, fun b r hb => ?_⟩
  by_contra hshort
  rw [List.length_append, List.length_singleton] at hshort
  have hprefix : b <+: front := List.prefix_of_prefix_length_le ⟨_, hb.symm⟩ ⟨_, rfl⟩ (by omega)
  obtain ⟨back, rfl⟩ := hprefix
  rw [List.append_assoc] at hb
  have hback : needle <+: back := prefix_of_notMem hc ⟨r, (List.append_cancel_left hb).symm⟩
  exact hfront (hback.isInfix.trans (List.suffix_append b back).isInfix)

end RemoteConsole.Text
