import RemoteConsole.Proofs.Reply.Extraction
import RemoteConsole.Proofs.Text.Lines

/-!
# What is left of an error text

The locations, the quotes and the trace are cut away, and where nothing is left there is something to
fall back to. So a message is blank only if the text is, or if the text is told from the banner of an
interface call on and nothing stands behind it.
-/

namespace RemoteConsole.Reply

open Text

variable {s head : List Char}

/-- Nothing but blanks stand in front of the trace. -/
def Untold (s : List Char) : Prop :=
  ∃ gap rest, s = gap ++ rest ∧ Blank gap ∧ (rest = [] ∨ tracebackMarker <+: rest)

/-- Nothing is told behind the banner of an interface call. -/
def Bare (s : List Char) : Prop := ∃ before rest, FirstAt interfaceBanner s before rest ∧ Untold rest

inductive Untraced (s : List Char) : List Char → Prop
  | whole (h : ¬ tracebackMarker <:+: s) : Untraced s s
  | before {head rest : List Char} (h : FirstAt tracebackMarker s head rest) : Untraced s head

/-! ## Locations -/

theorem location?_blank (h : Blank s) : location? s = none := by
  rw [location?, trimStart_eq_nil.mpr h]
  rfl

theorem stripFrom_trimmed (h : trim s = s) : trim (stripFrom s) = stripFrom s := by
  fun_induction stripFrom s with
  | case1 s rest hrest hshorter ih => exact ih (trim_idem rest)
  | case2 s rest hrest hlonger => exact h
  | case3 s hnone => exact h

theorem stripLocations_blank (h : Blank s) : stripLocations s = [] := by
  rw [stripLocations, trim_eq_nil.mpr h, stripFrom_unlocated (location?_blank blank_nil)]

theorem eq_nil_of_trimmed (htrim : trim s = s) (h : Blank s) : s = [] := by
  rw [← htrim, trim_eq_nil.mpr h]

theorem blank_stripLocations_or (s fallback : List Char) :
    Blank (if (stripLocations s).isEmpty then fallback else stripLocations s) ↔
      stripLocations s = [] ∧ Blank fallback := by
  have htrim : trim (stripLocations s) = stripLocations s := stripFrom_trimmed (trim_idem s)
  split
  · next hempty => simp [List.isEmpty_iff.mp hempty]
  · next hempty =>
    have hne : stripLocations s ≠ [] := fun hnil => hempty (List.isEmpty_iff.mpr hnil)
    exact ⟨fun h => absurd (eq_nil_of_trimmed htrim h) hne, fun h => absurd h.1 hne⟩

/-! ## Quotes and colons -/

theorem mem_of_mem_quotedOf {part : List Char} {pieces : List (List Char)} (h : part ∈ quotedOf pieces) :
    part ∈ pieces := by
  fun_induction quotedOf pieces with
  | case1 outside inside after rest ih =>
    rcases List.mem_cons.mp h with rfl | h
    · simp
    · exact List.mem_cons_of_mem _ (List.mem_cons_of_mem _ (ih h))
  | case2 => cases h

theorem mem_nonBlank {part : List Char} {parts : List (List Char)} (h : part ∈ (parts.map trim).filter (!·.isEmpty)) :
    ¬ Blank part ∧ ∃ p ∈ parts, ¬ Blank p := by
  obtain ⟨hmap, hvisible⟩ := List.mem_filter.mp h
  obtain ⟨p, hp, rfl⟩ := List.mem_map.mp hmap
  have hblank : ¬ Blank p := by
    intro hp
    rw [trim_eq_nil.mpr hp] at hvisible
    cases hvisible
  exact ⟨fun h => hblank (blank_trim.mp h), p, hp, hblank⟩

theorem nonBlank_eq_nil {parts : List (List Char)} (h : ∀ p ∈ parts, Blank p) :
    (parts.map trim).filter (!·.isEmpty) = [] := by
  apply List.eq_nil_iff_forall_not_mem.mpr
  intro part hpart
  obtain ⟨-, p, hp, hblank⟩ := mem_nonBlank hpart
  exact hblank (h p hp)

theorem blank_of_last {parts : List (List Char)} (hparts : ∀ p ∈ parts, ¬ Blank p) (h : Blank (parts.getLast?.getD s)) :
    Blank s := by
  cases hlast : parts.getLast? with
  | none =>
    rw [hlast] at h
    exact h
  | some part =>
    rw [hlast] at h
    exact absurd h (hparts part (List.mem_of_getLast? hlast))

theorem blank_extractMessage : Blank (extractMessage s) ↔ Blank s := by
  constructor
  · intro h
    unfold extractMessage at h
    simp only at h
    split at h
    · next quoted hquoted => exact absurd h (mem_nonBlank (List.mem_of_getLast? hquoted)).1
    · split at h
      · exact blank_of_last (fun p hp => (mem_nonBlank (List.mem_of_mem_dropLast hp)).1) h
      · exact blank_of_last (fun p hp => (mem_nonBlank hp).1) h
  · intro h
    have hquoted : ∀ p ∈ quotedParts s, Blank p := fun p hp => blank_of_mem_splitAt h (mem_of_mem_quotedOf hp)
    have hsegments : ∀ p ∈ splitAt (· == ':') s, Blank p := fun p => blank_of_mem_splitAt h
    rw [extractMessage]
    simp only [nonBlank_eq_nil hquoted, nonBlank_eq_nil hsegments, List.getLast?_nil]
    exact h

/-! ## Traces and banners of interface calls -/

theorem splitTraceback_untraced (s : List Char) : Untraced s (splitTraceback s).message := by
  unfold splitTraceback
  cases hcut : cutFirst? tracebackMarker s with
  | none => exact .whole (cutFirst?_eq_none.mp hcut)
  | some found => exact .before (firstAt_of_cutFirst? hcut)

theorem Untraced.message (h : Untraced s head) : (splitTraceback s).message = head := by
  cases h with
  | whole h => rw [splitTraceback, cutFirst?_eq_none.mpr h]
  | before h => rw [splitTraceback, cutFirst?_eq_some.mpr h]

theorem Untraced.exists_rest (h : Untraced s head) : ∃ rest, s = head ++ rest := by
  cases h with
  | whole => exact ⟨[], (List.append_nil s).symm⟩
  | before h => exact ⟨_, h.whole⟩

theorem Untraced.blank (h : Untraced s head) (hs : Blank s) : Blank head := by
  obtain ⟨rest, rfl⟩ := h.exists_rest
  exact (blank_append.mp hs).1

theorem Untraced.blank_iff (h : Untraced s head) : Blank head ↔ Untold s := by
  constructor
  · intro hblank
    cases h with
    | whole => exact ⟨s, [], (List.append_nil s).symm, hblank, .inl rfl⟩
    | @before _ rest h => exact ⟨head, tracebackMarker ++ rest, h.whole, hblank, .inr (List.prefix_append _ _)⟩
  · rintro ⟨gap, rest, rfl, hgap, rfl | ⟨more, rfl⟩⟩
    · rw [List.append_nil] at h
      exact h.blank hgap
    · cases h with
      | whole h => exact absurd ⟨gap, more, by rw [List.append_assoc]⟩ h
      | before h =>
        -- the first marker stands no later than the one behind the gap
        obtain ⟨back, rfl⟩ : head <+: gap :=
          List.prefix_of_prefix_length_le ⟨_, h.whole.symm⟩ ⟨_, rfl⟩ (h.first _ _ rfl)
        exact (blank_append.mp hgap).1

theorem afterInterfaceName?_blank (h : Blank s) : afterInterfaceName? s = none := by
  unfold afterInterfaceName?
  rw [trimStart_eq_nil.mpr h]
  rfl

theorem blank_interfaceReport {before rest : List Char} (h : FirstAt interfaceBanner s before rest) :
    Blank (interfaceReport s).message ↔ Untold rest := by
  obtain ⟨head, hhead⟩ : ∃ head, head = (splitTraceback rest).message := ⟨_, rfl⟩
  have hmessage : (interfaceReport s).message =
      let told := stripLocations ((afterInterfaceName? head).getD head)
      if told.isEmpty then extractMessage head else told := by
    rw [interfaceReport, cutFirst?_eq_some.mpr h, hhead]
    rfl
  rw [hmessage, blank_stripLocations_or, blank_extractMessage, hhead, ← (splitTraceback_untraced rest).blank_iff, ← hhead,
    and_iff_right_iff_imp]
  intro hblank
  rw [afterInterfaceName?_blank hblank]
  exact stripLocations_blank hblank

theorem Bare.banner (h : Bare s) : interfaceBanner <:+: s := by
  obtain ⟨before, rest, hfirst, -⟩ := h
  exact hfirst.within

theorem not_blank_of_banner (h : interfaceBanner <:+: s) : ¬ Blank s := by
  have hmem : 'E' ∈ interfaceBanner := List.mem_cons_self
  exact not_blank_of_mem (h.subset hmem) (by decide)

theorem blank_textReport : Blank (textReport s).message ↔ Blank s ∨ Bare s := by
  by_cases hbanner : interfaceBanner <:+: s
  · obtain ⟨before, rest, hfirst⟩ := exists_firstAt hbanner
    have hbare : Bare s ↔ Untold rest := by
      constructor
      · rintro ⟨before', rest', hfirst', hrest'⟩
        rwa [(hfirst.unique hfirst').2]
      · exact fun hrest => ⟨before, rest, hfirst, hrest⟩
    rw [textReport, if_pos (contains_eq_true.mpr hbanner), blank_interfaceReport hfirst,
      or_iff_right (not_blank_of_banner hbanner), hbare]
  · have hbare : ¬ Bare s := fun h => hbanner h.banner
    have hmessage : (textReport s).message =
        let told := stripLocations (splitTraceback s).message
        if told.isEmpty then trim s else told := by
      rw [textReport, contains_eq_false.mpr hbanner]
      rfl
    rw [hmessage, blank_stripLocations_or, blank_trim, or_iff_left hbare, and_iff_right_iff_imp]
    exact fun hs => stripLocations_blank ((splitTraceback_untraced s).blank hs)

end RemoteConsole.Reply
