import RemoteConsole.Proofs.Reply.Message

/-!
# Banners without a message

The message of a banner is what its last line says behind the banner of a command. A line may hold
nothing else, and then nothing is said.
-/

namespace RemoteConsole.Reply

open Text

variable {s t line label marks blanks : List Char}

def LastLine (s line : List Char) : Prop :=
  ∃ earlier later, lines s = earlier ++ line :: later ∧ ¬ Blank line ∧ ∀ l ∈ later, Blank l

/-- The banner of a command as it stands in front of a message. -/
inductive CommandLabel : List Char → Prop
  | mk {lead stop gap word gap' : List Char} (hlead : Blank lead) (hstop : stop = [] ∨ stop = ['.']) (hgap : Blank gap)
      (hword : word = [] ∨ word = "Error:".toList) (hgap' : Blank gap') :
      CommandLabel (lead ++ (commandBanner ++ (stop ++ (gap ++ (word ++ gap')))))

/-- Nothing but colons and spaces stand behind the banner of a command, or there is no banner either. -/
inductive MuteLine : List Char → Prop
  | mk {label marks blanks : List Char} (hlabel : label = [] ∨ CommandLabel label)
      (hmarks : ∀ c ∈ marks, c = ':' ∨ c = ' ') (hblanks : Blank blanks) : MuteLine (label ++ (marks ++ blanks))

/-- The banner of a failure without a message. -/
inductive Mute (s : List Char) : Prop
  | interface (h : Bare s)
  | trace (hfailure : isFailureBanner s = true) (hbanner : ¬ interfaceBanner <:+: s) (h : Untold s)
  | command (hfailure : isFailureBanner s = true) (hbanner : ¬ interfaceBanner <:+: s) {head line : List Char}
      (hhead : Untraced s head) (hlast : LastLine head line) (h : MuteLine line)

/-! ## The banner of a command -/

def isMark (c : Char) : Bool := c == ':' || c == ' '

def remark (line : List Char) : List Char := (stripCommandBanner line).dropWhile isMark

theorem exists_blanks (s : List Char) : ∃ gap, Blank gap ∧ s = gap ++ trimStart s :=
  ⟨s.takeWhile isBlank, fun _ hc => List.mem_takeWhile_imp hc, List.takeWhile_append_dropWhile.symm⟩

theorem trimStart_append_of_blank (h : Blank s) (t : List Char) : trimStart (s ++ t) = trimStart t :=
  List.dropWhile_append_of_pos h

def Unspoken (s : List Char) : Prop := ∀ c ∈ s, c = ':' ∨ isBlank c = true

theorem Unspoken.notMem (h : Unspoken s) {c : Char} (hc : c ≠ ':' ∧ isBlank c = false) : c ∉ s := by
  intro hmem
  rcases h c hmem with hcolon | hblank
  · exact hc.1 hcolon
  · rw [hc.2] at hblank
    cases hblank

theorem Unspoken.after? (h : Unspoken s) {needle : List Char} {c : Char} (hmem : c ∈ needle)
    (hc : c ≠ ':' ∧ isBlank c = false) : after? needle s = none :=
  after?_eq_none.mpr fun hbegins => h.notMem hc (hbegins.subset hmem)

theorem unspoken_of_blank (h : Blank s) : Unspoken s := fun c hc => .inr (h c hc)

theorem Unspoken.append (hs : Unspoken s) (ht : Unspoken t) : Unspoken (s ++ t) := List.forall_mem_append.mpr ⟨hs, ht⟩

theorem Unspoken.trimStart (h : Unspoken s) : Unspoken (trimStart s) :=
  fun c hc => h c ((List.dropWhile_suffix isBlank).subset hc)

theorem unspoken_of_marks (hmarks : ∀ c ∈ marks, c = ':' ∨ c = ' ') : Unspoken marks := by
  intro c hc
  rcases hmarks c hc with rfl | rfl
  · exact .inl rfl
  · exact .inr (by decide)

theorem stripCommandBanner_label (line : List Char) :
    ∃ label, line = label ++ stripCommandBanner line ∧ (label = [] ∨ CommandLabel label) := by
  unfold stripCommandBanner
  split
  · exact ⟨[], rfl, .inl rfl⟩
  · next rest hrest =>
    obtain ⟨lead, hlead, hline⟩ := exists_blanks line
    rw [eq_append_of_after? hrest] at hline
    obtain ⟨stop, hstop, hstopped⟩ : ∃ stop, (stop = [] ∨ stop = ['.']) ∧ rest = stop ++ (after? ['.'] rest).getD rest := by
      cases hdot : after? ['.'] rest with
      | none => exact ⟨[], .inl rfl, rfl⟩
      | some more => exact ⟨['.'], .inr rfl, eq_append_of_after? hdot⟩
    generalize (after? ['.'] rest).getD rest = body at hstopped
    obtain ⟨gap, hgap, hspaced⟩ := exists_blanks body
    simp only
    split
    · next said hsaid =>
      obtain ⟨gap', hgap', hmore⟩ := exists_blanks said
      refine ⟨lead ++ (commandBanner ++ (stop ++ (gap ++ ("Error:".toList ++ gap')))), ?_,
        .inr (.mk hlead hstop hgap (.inr rfl) hgap')⟩
      rw [hline, hstopped, hspaced, eq_append_of_after? hsaid]
      conv_lhs => rw [hmore]
      simp
    · refine ⟨lead ++ (commandBanner ++ (stop ++ (gap ++ ([] ++ [])))), ?_,
        .inr (.mk hlead hstop hgap (.inl rfl) blank_nil)⟩
      rw [hline, hstopped]
      conv_lhs => rw [hspaced]
      simp

theorem CommandLabel.strip (h : CommandLabel label) {tail : List Char} (htail : Unspoken tail) :
    stripCommandBanner (label ++ tail) = trimStart tail := by
  obtain @⟨lead, stop, gap, word, gap', hlead, hstop, hgap, hword, hgap'⟩ := h
  have hbegin : trimStart (lead ++ (commandBanner ++ (stop ++ (gap ++ (word ++ gap')))) ++ tail) =
      commandBanner ++ (stop ++ (gap ++ (word ++ (gap' ++ tail)))) := by
    have hwhole : lead ++ (commandBanner ++ (stop ++ (gap ++ (word ++ gap')))) ++ tail =
        lead ++ (commandBanner ++ (stop ++ (gap ++ (word ++ (gap' ++ tail))))) := by simp
    rw [hwhole, trimStart_append_of_blank hlead]
    rfl
  have hrest : Unspoken (gap' ++ tail) := (unspoken_of_blank hgap').append htail
  -- a label without a full stop must not lose one to what follows
  have hnone : after? ['.'] (gap ++ (word ++ (gap' ++ tail))) = none := by
    rw [after?_eq_none]
    intro hprefix
    have hmem : '.' ∈ gap ++ (word ++ (gap' ++ tail)) := hprefix.subset List.mem_cons_self
    rcases List.mem_append.mp hmem with hmem | hmem
    · exact not_blank_of_mem hmem (by decide) hgap
    · rcases List.mem_append.mp hmem with hmem | hmem
      · rcases hword with rfl | rfl
        · cases hmem
        · exact absurd hmem (by decide)
      · exact hrest.notMem (by decide) hmem
  have hdot : (after? ['.'] (stop ++ (gap ++ (word ++ (gap' ++ tail))))).getD (stop ++ (gap ++ (word ++ (gap' ++ tail)))) =
      gap ++ (word ++ (gap' ++ tail)) := by
    rcases hstop with rfl | rfl
    · rw [List.nil_append, hnone, Option.getD_none]
    · rw [after?_append, Option.getD_some]
  rw [stripCommandBanner, hbegin, after?_append]
  simp only [hdot, trimStart_append_of_blank hgap]
  rcases hword with rfl | rfl
  · rw [List.nil_append, hrest.trimStart.after? (c := 'E') (by decide) (by decide)]
    exact trimStart_append_of_blank hgap' tail
  · have hspaced : trimStart ("Error:".toList ++ (gap' ++ tail)) = "Error:".toList ++ (gap' ++ tail) := rfl
    rw [hspaced, after?_append]
    exact trimStart_append_of_blank hgap' tail

theorem blank_dropWhile_marks (hmarks : ∀ c ∈ marks, c = ':' ∨ c = ' ') (hblanks : Blank blanks) :
    Blank ((marks ++ blanks).dropWhile isMark) := by
  have hall : ∀ c ∈ marks, isMark c = true := fun c hc => by simpa [isMark] using hmarks c hc
  rw [List.dropWhile_append_of_pos hall]
  exact fun c hc => hblanks c ((List.dropWhile_suffix isMark).subset hc)

theorem blank_remark : Blank (remark line) ↔ MuteLine line := by
  constructor
  · intro h
    obtain ⟨label, hline, hlabel⟩ := stripCommandBanner_label line
    have hcut : line = label ++ ((stripCommandBanner line).takeWhile isMark ++ remark line) := by
      rw [remark, List.takeWhile_append_dropWhile]
      exact hline
    have hmarks : ∀ c ∈ (stripCommandBanner line).takeWhile isMark, c = ':' ∨ c = ' ' := by
      intro c hc
      simpa [isMark] using List.mem_takeWhile_imp hc
    rw [hcut]
    exact .mk hlabel hmarks h
  · rintro @⟨label, marks, blanks, hlabel, hmarks, hblanks⟩
    have htail : Unspoken (marks ++ blanks) := (unspoken_of_marks hmarks).append (unspoken_of_blank hblanks)
    rcases hlabel with rfl | hlabel
    · have hnone : after? commandBanner (trimStart (marks ++ blanks)) = none :=
        htail.trimStart.after? (c := 'C') (by decide) (by decide)
      rw [List.nil_append, remark, stripCommandBanner, hnone]
      exact blank_dropWhile_marks hmarks hblanks
    · rw [remark, hlabel.strip htail, trimStart, List.dropWhile_append]
      split
      · exact fun c hc => hblanks c (((List.dropWhile_suffix _).trans (List.dropWhile_suffix _)).subset hc)
      · exact blank_dropWhile_marks (fun c hc => hmarks c ((List.dropWhile_suffix _).subset hc)) hblanks

theorem lastLine_iff : LastLine s line ↔ (lines s).reverse.find? (fun l => !(trim l).isEmpty) = some line := by
  have hvisible (l : List Char) : (!(trim l).isEmpty) = true ↔ ¬ Blank l := by
    rw [← trim_eq_nil, Bool.not_eq_true', List.isEmpty_eq_false_iff]
  have hhidden (l : List Char) : (!(!(trim l).isEmpty)) = true ↔ Blank l := by
    rw [← trim_eq_nil, Bool.not_not, List.isEmpty_iff]
  rw [List.find?_eq_some_iff_append, hvisible]
  constructor
  · rintro ⟨earlier, later, hlines, hline, hlater⟩
    refine ⟨hline, later.reverse, earlier.reverse, by simp [hlines], fun l hl => ?_⟩
    exact (hhidden l).mpr (hlater l (List.mem_reverse.mp hl))
  · rintro ⟨hline, later, earlier, hreverse, hlater⟩
    refine ⟨earlier.reverse, later.reverse, ?_, hline, fun l hl => ?_⟩
    · rw [← (lines s).reverse_reverse, hreverse]
      simp
    · exact (hhidden l).mp (hlater l (List.mem_reverse.mp hl))

theorem blank_of_find? (h : (lines s).reverse.find? (fun l => !(trim l).isEmpty) = none) : Blank s := by
  rw [← blank_lines]
  intro l hl
  rw [← trim_eq_nil]
  simpa using List.find?_eq_none.mp h l (List.mem_reverse.mpr hl)

def told (s : List Char) : List Char :=
  let message := if (location? s).isSome then stripLocations s else extractMessage s
  if message.isEmpty then trim s else message

theorem blank_told : Blank (told s) ↔ Blank s := by
  by_cases hlocated : (location? s).isSome = true
  · simp only [told, hlocated, if_true]
    rw [blank_stripLocations_or, blank_trim, and_iff_right_iff_imp]
    exact stripLocations_blank
  · simp only [told, hlocated, Bool.false_eq_true, if_false]
    split
    · exact blank_trim
    · exact blank_extractMessage

theorem blank_bannerReport (hbanner : ¬ interfaceBanner <:+: s) :
    Blank (bannerReport s).message ↔ Untold s ∨ ∃ head line, Untraced s head ∧ LastLine head line ∧ MuteLine line := by
  obtain ⟨head, hhead⟩ : ∃ head, head = (splitTraceback s).message := ⟨_, rfl⟩
  have huntraced : Untraced s head := hhead ▸ splitTraceback_untraced s
  have hmessage : (bannerReport s).message =
      told (remark (((lines head).reverse.find? fun l => !(trim l).isEmpty).getD head)) := by
    rw [hhead, bannerReport, contains_eq_false.mpr hbanner]
    rfl
  rw [hmessage, blank_told, blank_remark, ← huntraced.blank_iff]
  cases hline : (lines head).reverse.find? fun l => !(trim l).isEmpty with
  | none =>
    -- no line is visible, so the message is made of the head as it is
    have hblank : Blank head := blank_of_find? hline
    rw [Option.getD_none]
    have hmute : MuteLine ([] ++ ([] ++ head)) := .mk (.inl rfl) (List.forall_mem_nil _) hblank
    exact ⟨fun _ => .inl hblank, fun _ => hmute⟩
  | some line =>
    have hlast : LastLine head line := lastLine_iff.mpr hline
    rw [Option.getD_some]
    constructor
    · exact fun hmute => .inr ⟨head, line, huntraced, hlast, hmute⟩
    · rintro (hblank | ⟨head', line', huntraced', hlast', hmute⟩)
      · obtain ⟨earlier, later, hlines, hvisible, -⟩ := hlast
        exact absurd (blank_lines.mpr hblank line (hlines ▸ by simp)) hvisible
      · obtain rfl : head' = head := by rw [← huntraced'.message, hhead]
        obtain rfl : line' = line := by
          rw [lastLine_iff, hline] at hlast'
          exact (Option.some.inj hlast').symm
        exact hmute

theorem mute_iff : Mute s ↔ isFailureBanner s = true ∧ Blank (bannerReport s).message := by
  by_cases hbanner : interfaceBanner <:+: s
  · have hcontains : contains interfaceBanner s = true := contains_eq_true.mpr hbanner
    have hfailure : isFailureBanner s = true := by rw [isFailureBanner, hcontains, Bool.or_true]
    rw [bannerReport, if_pos hcontains, blank_textReport, or_iff_right (not_blank_of_banner hbanner),
      and_iff_right hfailure]
    constructor
    · rintro (h | ⟨-, hno, -⟩ | ⟨-, hno, -⟩)
      · exact h
      · exact absurd hbanner hno
      · exact absurd hbanner hno
    · exact .interface
  · rw [blank_bannerReport hbanner]
    constructor
    · rintro (hbare | ⟨hfailure, -, huntold⟩ | ⟨hfailure, -, hhead, hlast, hmute⟩)
      · exact absurd hbare.banner hbanner
      · exact ⟨hfailure, .inl huntold⟩
      · exact ⟨hfailure, .inr ⟨_, _, hhead, hlast, hmute⟩⟩
    · rintro ⟨hfailure, huntold | ⟨head, line, hhead, hlast, hmute⟩⟩
      · exact .trace hfailure hbanner huntold
      · exact .command hfailure hbanner hhead hlast hmute

end RemoteConsole.Reply
