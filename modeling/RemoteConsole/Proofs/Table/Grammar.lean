import RemoteConsole.Proofs.Table.Atom
import RemoteConsole.Proofs.Table.Layout

/-!
# The grammar of a reply, declaratively

A tree is written with any layout between its tokens, with either separator after a field and with
or without one after the last. Every reading by `read?` is such a spelling, and every spelling is
read: the order in which the kinds of fields and scalars are tried loses none of them, because what
follows tells them apart. So a text is the spelling of one tree at most.
-/

namespace RemoteConsole.Table

open Text

def IsName (name : List Char) : Prop :=
  (∃ c s, name = c :: s ∧ isNameStart c = true) ∧ (∀ c ∈ name, isNameChar c = true) ∧
    name ∉ keywords

mutual

inductive Written : List Char → Node → Prop
  | atom {text : List Char} {node : Node} : Atom text node → Written text node
  | table {layout text : List Char} {fields : List Field} :
    Layout layout → WrittenFields text fields →
    Written ('{' :: (layout ++ text ++ ['}'])) (.table fields)

inductive WrittenField : List Char → Field → Prop
  | keyed {l₁ l₂ l₃ l₄ keyText text : List Char} {key value : Node} :
    Layout l₁ → Written keyText key → Layout l₂ → Layout l₃ → Layout l₄ → Written text value →
    WrittenField ('[' :: (l₁ ++ keyText ++ l₂ ++ ']' :: (l₃ ++ '=' :: (l₄ ++ text))))
      (.keyed key value)
  | named {name l₁ l₂ text : List Char} {value : Node} :
    IsName name → Layout l₁ → Layout l₂ → Written text value →
    WrittenField (name ++ l₁ ++ '=' :: (l₂ ++ text)) (.named name value)
  | positional {text : List Char} {value : Node} :
    Written text value → WrittenField text (.positional value)

inductive WrittenFields : List Char → List Field → Prop
  | nil : WrittenFields [] []
  | last {text layout : List Char} {field : Field} :
    WrittenField text field → Layout layout → WrittenFields (text ++ layout) [field]
  | more {text l₁ l₂ rest : List Char} {c : Char} {field : Field} {fields : List Field} :
    WrittenField text field → Layout l₁ → isSeparator c = true → Layout l₂ →
    WrittenFields rest fields →
    WrittenFields (text ++ l₁ ++ c :: (l₂ ++ rest)) (field :: fields)

end

inductive Reply : List Char → Node → Prop
  | mk {layout text tail : List Char} {node : Node} :
    Layout layout → Written text node → Trailing tail → Reply (layout ++ text ++ tail) node

theorem Reply.of_written {text : List Char} {node : Node} (h : Written text node) : Reply text node := by
  simpa using Reply.mk .nil h (.layout .nil)

/-! ## What is read is written -/

theorem token?_eq_some {c : Char} {s t : List Char} (h : token? c s = some t) :
    ∃ u, s = c :: u ∧ t = skip u := by
  cases s with
  | nil => cases h
  | cons d u =>
    simp only [token?] at h
    split at h
    · next hc =>
      cases h
      exact ⟨u, by rw [hc], rfl⟩
    · cases h

theorem layout_before {s t : List Char} (hs : skip s = t) (ht : t ≠ []) :
    ∃ layout, Layout layout ∧ s = layout ++ t := by
  subst hs
  exact exists_layout ht

theorem name?_sound {s name rest : List Char} (h : name? s = some (name, rest)) :
    IsName name ∧ s = name ++ rest := by
  unfold name? at h
  simp only at h
  split at h
  · cases h
  · next c more hname =>
    split at h
    · next hok =>
      cases h
      simp only [Bool.and_eq_true, Bool.not_eq_true', List.contains_eq_mem,
        decide_eq_false_iff_not] at hok
      exact ⟨⟨⟨c, more, hname, hok.1⟩, fun d hd => List.mem_takeWhile_imp hd, hok.2⟩,
        List.takeWhile_append_dropWhile.symm⟩
    · cases h

def Begins (text : List Char) : Prop :=
  ∃ c s, text = c :: s ∧ isLayout c = false ∧ c ∉ ['[', '{'] ∧
    (c = '-' → ∃ d t, s = d :: t ∧ d ≠ '-')

theorem begins_signed (negative : Bool) {c : Char} {s : List Char}
    (hc : isLayout c = false ∧ c ∉ ['[', '{'] ∧ c ≠ '-') : Begins (signed negative (c :: s)) := by
  cases negative with
  | true => exact ⟨'-', c :: s, rfl, rfl, by decide, fun _ => ⟨c, s, rfl, hc.2.2⟩⟩
  | false => exact ⟨c, s, rfl, hc.1, hc.2.1, fun h => absurd h hc.2.2⟩

theorem begins_digit {c : Char} (hc : c.isDigit = true ∨ c = '.') :
    isLayout c = false ∧ c ∉ ['[', '{'] ∧ c ≠ '-' := by
  rcases hc with hc | rfl
  · have hne (d : Char) (hd : d.isDigit = false) : c ≠ d := isDigit_ne hc hd
    simp [isLayout, hne]
  · decide

theorem Atom.begins {text : List Char} {node : Node} (h : Atom text node) : Begins text := by
  cases h with
  | number negative hunsigned =>
    obtain ⟨c, s, rfl, hc⟩ := hunsigned.head
    exact begins_signed negative (begins_digit hc)
  | infinity negative hmem =>
    simp only [List.mem_cons, List.not_mem_nil, or_false] at hmem
    rcases hmem with rfl | rfl <;> exact begins_signed negative (by decide)
  | undefined negative hmem =>
    simp only [List.mem_cons, List.not_mem_nil, or_false] at hmem
    rcases hmem with rfl | rfl | rfl <;> exact begins_signed negative (by decide)
  | string hquote => rcases hquote with rfl | rfl <;> exact begins_signed false (by decide)
  | boolean b => cases b <;> exact begins_signed false (by decide)
  | nil => exact begins_signed false (by decide)

theorem Written.ne_nil {text : List Char} {node : Node} (h : Written text node) : text ≠ [] := by
  cases h with
  | atom h =>
    obtain ⟨c, s, rfl, -⟩ := h.begins
    simp
  | table => simp

def Sound (read : List Char → Option (Node × List Char)) : Prop :=
  ∀ {s : List Char} {node : Node} {rest : List Char}, read s = some (node, rest) →
    ∃ text, Written text node ∧ s = text ++ rest

theorem token_behind {c : Char} {s t : List Char} (h : token? c (skip s) = some t) :
    ∃ layout u, Layout layout ∧ s = layout ++ c :: u ∧ t = skip u := by
  obtain ⟨u, hs, ht⟩ := token?_eq_some h
  obtain ⟨layout, hlayout, rfl⟩ := layout_before hs (by simp)
  exact ⟨layout, u, hlayout, rfl, ht⟩

section
variable {read : List Char → Option (Node × List Char)} (hread : Sound read)
include hread

theorem value_behind {s rest : List Char} {node : Node} (h : read (skip s) = some (node, rest)) :
    ∃ layout text, Layout layout ∧ Written text node ∧ s = layout ++ (text ++ rest) := by
  obtain ⟨text, hwritten, hs⟩ := hread h
  obtain ⟨layout, hlayout, rfl⟩ := layout_before hs (by simp [hwritten.ne_nil])
  exact ⟨layout, text, hlayout, hwritten, rfl⟩

theorem keyed?_sound {s rest : List Char} {field : Field} (h : keyed? read s = some (field, rest)) :
    ∃ text, WrittenField text field ∧ s = text ++ rest := by
  simp only [keyed?, Option.bind_eq_bind, Option.bind_eq_some_iff, Option.pure_def,
    Option.some.injEq, Prod.exists, Prod.mk.injEq] at h
  obtain ⟨t₁, hopen, key, s₁, hkey, t₂, hclose, t₃, hequals, value, s₂, hvalue, rfl, rfl⟩ := h
  obtain ⟨u, rfl, rfl⟩ := token?_eq_some hopen
  obtain ⟨l₁, keyText, hl₁, hkeyText, rfl⟩ := value_behind hread hkey
  obtain ⟨l₂, u, hl₂, rfl, rfl⟩ := token_behind hclose
  obtain ⟨l₃, u, hl₃, rfl, rfl⟩ := token_behind hequals
  obtain ⟨l₄, text, hl₄, htext, rfl⟩ := value_behind hread hvalue
  exact ⟨_, .keyed hl₁ hkeyText hl₂ hl₃ hl₄ htext, by simp⟩

theorem named?_sound {s rest : List Char} {field : Field} (h : named? read s = some (field, rest)) :
    ∃ text, WrittenField text field ∧ s = text ++ rest := by
  simp only [named?, Option.bind_eq_bind, Option.bind_eq_some_iff, Option.pure_def,
    Option.some.injEq, Prod.exists, Prod.mk.injEq] at h
  obtain ⟨name, s₁, hread', t, hequals, value, s₂, hvalue, rfl, rfl⟩ := h
  obtain ⟨hname, rfl⟩ := name?_sound hread'
  obtain ⟨l₁, u, hl₁, rfl, rfl⟩ := token_behind hequals
  obtain ⟨l₂, text, hl₂, htext, rfl⟩ := value_behind hread hvalue
  exact ⟨_, .named hname hl₁ hl₂ htext, by simp⟩

theorem field?_sound {s rest : List Char} {field : Field} (h : field? read s = some (field, rest)) :
    ∃ text, WrittenField text field ∧ s = text ++ rest := by
  rcases Option.or_eq_some_iff.mp h with hkeyed | ⟨-, h⟩
  · exact keyed?_sound hread hkeyed
  rcases Option.or_eq_some_iff.mp h with hnamed | ⟨-, h⟩
  · exact named?_sound hread hnamed
  · obtain ⟨⟨value, t⟩, hvalue, heq⟩ := Option.map_eq_some_iff.mp h
    cases heq
    obtain ⟨text, htext, hs⟩ := hread hvalue
    exact ⟨text, .positional htext, hs⟩

end

theorem fields?_sound : ∀ (fuel : Nat), Sound (value? fuel) ∧
    ∀ {s rest : List Char} {fields : List Field}, fields? fuel s = some (fields, rest) →
      ∃ text, WrittenFields text fields ∧ s = text ++ '}' :: rest
  | 0 => ⟨nofun, nofun⟩
  -- values and fields in one induction, as a table is a value and a field holds one
  | fuel + 1 => by
    obtain ⟨hvalue, hfields⟩ := fields?_sound fuel
    constructor
    · intro s node rest h
      rw [value?] at h
      split at h
      · next t htoken =>
        obtain ⟨⟨fields, t'⟩, hread, heq⟩ := Option.map_eq_some_iff.mp h
        cases heq
        obtain ⟨u, rfl, rfl⟩ := token?_eq_some htoken
        obtain ⟨text, htext, hs⟩ := hfields hread
        obtain ⟨layout, hlayout, rfl⟩ := layout_before hs (by simp)
        exact ⟨_, .table hlayout htext, by simp⟩
      · obtain ⟨text, hatom, hs⟩ := scalar?_sound h
        exact ⟨text, .atom hatom, hs⟩
    · intro s rest fields h
      rw [fields?.eq_def] at h
      simp only at h
      split at h
      · split at h
        · cases h
          exact ⟨[], .nil, rfl⟩
        · cases h
      · next f t hfield =>
        obtain ⟨text, htext, rfl⟩ := field?_sound hvalue hfield
        split at h
        · next u hskip =>
          cases h
          obtain ⟨layout, hlayout, rfl⟩ := layout_before hskip (by simp)
          exact ⟨_, .last htext hlayout, by simp⟩
        · next c u _ hskip =>
          split at h
          · next hc =>
            obtain ⟨⟨fs, t'⟩, hmore, heq⟩ := Option.map_eq_some_iff.mp h
            cases heq
            obtain ⟨more, hwritten, hs⟩ := hfields hmore
            obtain ⟨l₁, hl₁, rfl⟩ := layout_before hskip (by simp)
            obtain ⟨l₂, hl₂, rfl⟩ := layout_before hs (by simp)
            exact ⟨_, .more htext hl₁ hc hl₂ hwritten, by simp⟩
          · cases h
        · cases h

theorem read?_sound {s : List Char} {node : Node} (h : read? s = some node) : Reply s node := by
  unfold read? at h
  split at h
  · next found rest hread =>
    split at h
    · next hempty =>
      cases h
      obtain ⟨layout, text, hlayout, htext, rfl⟩ := value_behind (fields?_sound _).1 hread
      have htail : Trailing rest := trailing_of_skip (List.isEmpty_iff.mp hempty)
      rw [← List.append_assoc]
      exact .mk hlayout htext htail
    · cases h
  · cases h

/-! ## What is written is read -/

def Solid (text : List Char) : Prop := ∀ rest, skip (text ++ rest) = text ++ rest

theorem Begins.solid {text : List Char} (h : Begins text) : Solid text := by
  obtain ⟨c, s, rfl, hc, -, hminus⟩ := h
  intro rest
  refine skip_cons hc fun h => ?_
  obtain ⟨d, t, rfl, hd⟩ := hminus h
  simpa using hd

theorem Solid.behind {text layout : List Char} (h : Solid text) (hl : Layout layout)
    (rest : List Char) : skip (layout ++ (text ++ rest)) = text ++ rest := by
  rw [skip_layout hl, h rest]

theorem skip_behind {layout : List Char} {c : Char} (hl : Layout layout)
    (hc : isLayout c = false ∧ c ≠ '-') (s : List Char) : skip (layout ++ c :: s) = c :: s := by
  rw [skip_layout hl, skip_cons hc.1 fun h => absurd h hc.2]

theorem Written.solid {text : List Char} {node : Node} (h : Written text node) : Solid text := by
  cases h with
  | atom h => exact h.begins.solid
  | table => exact fun _ => skip_cons rfl fun h => absurd h (by decide)

/-! Names -/

theorem IsName.solid {name : List Char} (h : IsName name) : Solid name := by
  obtain ⟨⟨c, s, rfl, hc⟩, -, -⟩ := h
  intro rest
  refine skip_cons ?_ fun hminus => ?_
  · cases hlayout : isLayout c with
    | false => rfl
    | true =>
      simp only [isLayout, Bool.or_eq_true, beq_iff_eq] at hlayout
      rcases hlayout with ((rfl | rfl) | rfl) | rfl <;> cases hc
  · subst hminus
    cases hc

theorem Ends.stops {rest : List Char} (h : Ends rest) : Stops isNameChar rest := fun c hc => (h c hc).1

theorem name?_of_isName {name rest : List Char} (h : IsName name) (hr : Stops isNameChar rest) :
    name? (name ++ rest) = some (name, rest) := by
  obtain ⟨⟨c, s, rfl, hc⟩, hchars, hkeyword⟩ := h
  have hcontains : keywords.contains (c :: s) = false := by
    rw [List.contains_eq_mem]
    exact decide_eq_false hkeyword
  unfold name?
  rw [takeWhile_of_stops hchars hr, dropWhile_of_stops hchars hr]
  simp only [hc, hcontains]
  rfl

section
variable {read : List Char → Option (Node × List Char)} {rest : List Char}

theorem keyed?_eq_none {c : Char} (hc : c ≠ '[') (s : List Char) : keyed? read (c :: s) = none := by
  simp [keyed?, token?, Ne.symm hc]

theorem named?_of_head {c : Char} (hc : isNameStart c = false) (s : List Char) :
    named? read (c :: s) = none := by
  have hname : name? (c :: s) = none := by
    unfold name?
    by_cases hn : isNameChar c = true <;> simp [hn, hc]
  rw [named?, hname]
  rfl

theorem named?_of_keyword {word : List Char} (hw : word ∈ keywords) (hr : Ends rest) :
    named? read (word ++ rest) = none := by
  have hchars : word.all isNameChar = true := by
    revert hw word
    decide
  have hname : name? (word ++ rest) = none :=
    name?_keyword hchars (List.contains_iff_mem.mpr hw) hr
  rw [named?, hname]
  rfl

theorem named?_of_name {name : List Char} (hn : IsName name) (hr : Stops isNameChar rest)
    (hequals : (skip rest).head? ≠ some '=') : named? read (name ++ rest) = none := by
  have htoken : token? '=' (skip rest) = none := by
    cases hs : skip rest with
    | nil => rfl
    | cons c s =>
      have hc : '=' ≠ c := by
        rintro rfl
        exact hequals (by rw [hs]; rfl)
      simp [token?, hc]
  rw [named?, name?_of_isName hn hr]
  simp only [Option.bind_eq_bind, Option.bind_some, htoken, Option.bind_none]

theorem named?_signed (negative : Bool) {text : List Char}
    (h : negative = false → named? read (text ++ rest) = none) :
    named? read (signed negative text ++ rest) = none := by
  cases negative with
  | true => exact named?_of_head rfl _
  | false => exact h rfl

theorem Atom.named?_eq_none {text : List Char} {node : Node} (h : Atom text node) (hr : Ends rest)
    (hequals : (skip rest).head? ≠ some '=') : named? read (text ++ rest) = none := by
  cases h with
  | number negative hunsigned =>
    refine named?_signed negative fun _ => ?_
    obtain ⟨c, s, rfl, hc⟩ := hunsigned.head
    refine named?_of_head ?_ _
    rcases hc with hc | rfl
    · exact (isDigit_mark hc).2.1
    · rfl
  | infinity negative hmem =>
    refine named?_signed negative fun _ => ?_
    simp only [List.mem_cons, List.not_mem_nil, or_false] at hmem
    rcases hmem with rfl | rfl
    · -- the name ends before the point, and the point is no equals sign
      have hmath : IsName "math".toList := ⟨⟨'m', _, rfl, rfl⟩, List.all_eq_true.mp rfl, by decide⟩
      have hpoint : skip (".huge".toList ++ rest) = ".huge".toList ++ rest :=
        skip_cons rfl fun h => absurd h (by decide)
      have hshape : "math.huge".toList ++ rest = "math".toList ++ (".huge".toList ++ rest) := by simp
      have hstops : Stops isNameChar (".huge".toList ++ rest) := by simp [Stops, isNameChar]
      rw [hshape]
      refine named?_of_name hmath hstops ?_
      rw [hpoint]
      simp
    · exact named?_of_name ⟨⟨'i', _, rfl, rfl⟩, List.all_eq_true.mp rfl, by decide⟩ hr.stops hequals
  | undefined negative hmem =>
    refine named?_signed negative fun _ => ?_
    simp only [List.mem_cons, List.not_mem_nil, or_false] at hmem
    rcases hmem with rfl | rfl | rfl
    · exact named?_of_head rfl _
    · exact named?_of_head rfl _
    · exact named?_of_name ⟨⟨'n', _, rfl, rfl⟩, List.all_eq_true.mp rfl, by decide⟩ hr.stops hequals
  | string hquote => rcases hquote with rfl | rfl <;> exact named?_of_head rfl _
  | boolean b => cases b <;> exact named?_of_keyword (by decide) hr
  | nil => exact named?_of_keyword (by decide) hr

theorem Written.no_key {text : List Char} {node : Node} (h : Written text node) (hr : Ends rest)
    (hequals : (skip rest).head? ≠ some '=') :
    keyed? read (text ++ rest) = none ∧ named? read (text ++ rest) = none := by
  cases h with
  | atom h =>
    refine ⟨?_, h.named?_eq_none hr hequals⟩
    obtain ⟨c, s, rfl, -, hc, -⟩ := h.begins
    exact keyed?_eq_none (fun e => hc (by simp [e])) _
  | table => exact ⟨keyed?_eq_none (by decide) _, named?_of_head rfl _⟩

end

/-! ### Fields and tables -/

/-- A spelling of a field, read wherever no equals sign follows. -/
def FieldSpells (text : List Char) (field : Field) : Prop :=
  ∀ fuel rest, Ends rest → (skip rest).head? ≠ some '=' → 2 * (text ++ rest).length + 1 ≤ fuel →
    field? (value? fuel) (text ++ rest) = some (field, rest)

def FieldsSpell (text : List Char) (fields : List Field) : Prop :=
  ∀ fuel rest, 2 * (text ++ '}' :: rest).length + 2 ≤ fuel →
    fields? fuel (text ++ '}' :: rest) = some (fields, rest)

theorem fieldSpells_positional {text : List Char} {value : Node} (hw : Written text value)
    (h : Spells text value) : FieldSpells text (.positional value) := by
  intro fuel rest hr hequals hfuel
  have hno : keyed? (value? fuel) (text ++ rest) = none ∧ named? (value? fuel) (text ++ rest) = none :=
    hw.no_key hr hequals
  rw [field?, hno.1, hno.2, positional?, h fuel rest hr hfuel]
  rfl

theorem fieldSpells_named {name l₁ l₂ text : List Char} {value : Node} (hn : IsName name)
    (hl₁ : Layout l₁) (hl₂ : Layout l₂) (hw : Written text value) (h : Spells text value) :
    FieldSpells (name ++ l₁ ++ '=' :: (l₂ ++ text)) (.named name value) := by
  intro fuel rest hr _ hfuel
  have htext : name ++ l₁ ++ '=' :: (l₂ ++ text) ++ rest =
      name ++ (l₁ ++ '=' :: (l₂ ++ (text ++ rest))) := by simp
  have hends : Ends (l₁ ++ '=' :: (l₂ ++ (text ++ rest))) := ends_layout hl₁ (ends_cons _ (by decide))
  have hvalue : value? fuel (text ++ rest) = some (value, rest) := by
    refine h fuel rest hr ?_
    simp only [List.length_append, List.length_cons] at hfuel ⊢
    omega
  have hkeyed : keyed? (value? fuel) (name ++ (l₁ ++ '=' :: (l₂ ++ (text ++ rest)))) = none := by
    obtain ⟨⟨c, s, rfl, hc⟩, -, -⟩ := hn
    refine keyed?_eq_none ?_ _
    rintro rfl
    cases hc
  rw [htext, field?, hkeyed, named?, name?_of_isName hn hends.stops]
  simp only [Option.bind_eq_bind, Option.bind_some, skip_behind hl₁ (by decide : isLayout '=' = false ∧ '=' ≠ '-'),
    token?, if_true, hw.solid.behind hl₂, hvalue]
  rfl

theorem fieldSpells_keyed {l₁ l₂ l₃ l₄ keyText text : List Char} {key value : Node}
    (hl₁ : Layout l₁) (hk : Written keyText key) (hkey : Spells keyText key) (hl₂ : Layout l₂)
    (hl₃ : Layout l₃) (hl₄ : Layout l₄) (hw : Written text value) (h : Spells text value) :
    FieldSpells ('[' :: (l₁ ++ keyText ++ l₂ ++ ']' :: (l₃ ++ '=' :: (l₄ ++ text))))
      (.keyed key value) := by
  intro fuel rest hr _ hfuel
  let afterKey := l₂ ++ ']' :: (l₃ ++ '=' :: (l₄ ++ (text ++ rest)))
  have htext : '[' :: (l₁ ++ keyText ++ l₂ ++ ']' :: (l₃ ++ '=' :: (l₄ ++ text))) ++ rest =
      '[' :: (l₁ ++ (keyText ++ afterKey)) := by simp [afterKey]
  have hlen : 2 * (keyText ++ afterKey).length + 1 ≤ fuel ∧ 2 * (text ++ rest).length + 1 ≤ fuel := by
    simp only [afterKey, List.length_append, List.length_cons] at hfuel ⊢
    omega
  have hends : Ends afterKey := ends_layout hl₂ (ends_bracket _)
  have hclose : skip afterKey = ']' :: (l₃ ++ '=' :: (l₄ ++ (text ++ rest))) :=
    skip_behind hl₂ (by decide) _
  have hequals : skip (l₃ ++ '=' :: (l₄ ++ (text ++ rest))) = '=' :: (l₄ ++ (text ++ rest)) :=
    skip_behind hl₃ (by decide) _
  rw [htext, field?, keyed?]
  simp only [token?, if_true, Option.bind_eq_bind, Option.bind_some, hk.solid.behind hl₁,
    hkey fuel afterKey hends hlen.1, hclose, hequals, hw.solid.behind hl₄, h fuel rest hr hlen.2]
  rfl

theorem WrittenField.solid {text : List Char} {field : Field} (h : WrittenField text field) :
    Solid text := by
  cases h with
  | keyed => exact fun _ => skip_cons rfl fun h => absurd h (by decide)
  | @named name l₁ l₂ text value hn =>
    intro rest
    rw [List.append_assoc, List.append_assoc]
    exact hn.solid _
  | positional h => exact h.solid

theorem WrittenField.ne_nil {text : List Char} {field : Field} (h : WrittenField text field) :
    text ≠ [] := by
  cases h with
  | keyed => simp
  | named => simp
  | positional h => exact h.ne_nil

theorem WrittenFields.skip_eq {text : List Char} {fields : List Field} (h : WrittenFields text fields)
    (rest : List Char) : skip (text ++ '}' :: rest) = text ++ '}' :: rest := by
  cases h with
  | nil => exact skip_cons rfl fun h => absurd h (by decide)
  | last h =>
    rw [List.append_assoc]
    exact h.solid _
  | more h =>
    rw [List.append_assoc, List.append_assoc]
    exact h.solid _

theorem spells_atom {text : List Char} {node : Node} (h : Atom text node) : Spells text node := by
  intro fuel rest hr hfuel
  obtain ⟨fuel, rfl⟩ : ∃ k, fuel = k + 1 := ⟨fuel - 1, by omega⟩
  refine value?_scalar fuel (scalar?_of_atom h hr) fun t ht => ?_
  obtain ⟨c, s, rfl, -, hc, -⟩ := h.begins
  exact hc (by simp [(List.cons.inj ht).1])

theorem spells_table {layout text : List Char} {fields : List Field} (hl : Layout layout)
    (hw : WrittenFields text fields) (h : FieldsSpell text fields) :
    Spells ('{' :: (layout ++ text ++ ['}'])) (.table fields) := by
  intro fuel rest _ hfuel
  obtain ⟨fuel, rfl⟩ : ∃ k, fuel = k + 1 := ⟨fuel - 1, by omega⟩
  have htext : '{' :: (layout ++ text ++ ['}']) ++ rest =
      '{' :: (layout ++ (text ++ '}' :: rest)) := by simp
  have hskip : skip (layout ++ (text ++ '}' :: rest)) = text ++ '}' :: rest := by
    rw [skip_layout hl, hw.skip_eq]
  have hread : fields? fuel (text ++ '}' :: rest) = some (fields, rest) := by
    refine h fuel rest ?_
    simp only [List.length_append, List.length_cons, List.length_nil] at hfuel ⊢
    omega
  rw [htext, value?]
  simp only [token?, if_true, hskip, hread]
  rfl

theorem fieldsSpell_nil : FieldsSpell [] [] := by
  intro fuel rest hfuel
  obtain ⟨fuel, rfl⟩ : ∃ k, fuel = k + 1 := ⟨fuel - 1, by omega⟩
  exact fields?_empty fuel rest

theorem fieldsSpell_last {text layout : List Char} {field : Field} (h : FieldSpells text field)
    (hl : Layout layout) : FieldsSpell (text ++ layout) [field] := by
  intro fuel rest hfuel
  obtain ⟨fuel, rfl⟩ : ∃ k, fuel = k + 1 := ⟨fuel - 1, by omega⟩
  have hbrace : skip (layout ++ '}' :: rest) = '}' :: rest := skip_behind hl (by decide) rest
  rw [List.append_assoc] at hfuel ⊢
  refine fields?_last (h fuel _ (ends_layout hl (ends_brace rest)) ?_ (by omega)) hbrace
  rw [hbrace]
  simp

theorem separator_ends {c : Char} (h : isSeparator c = true) (s : List Char) :
    Ends (c :: s) ∧ isLayout c = false ∧ c ≠ '-' ∧ c ≠ '=' := by
  simp only [isSeparator, Bool.or_eq_true, beq_iff_eq] at h
  rcases h with rfl | rfl <;> exact ⟨ends_cons s (by decide), by decide⟩

theorem fieldsSpell_more {text l₁ l₂ more : List Char} {c : Char} {field : Field}
    {fields : List Field} (h : FieldSpells text field)
    (hl₁ : Layout l₁) (hc : isSeparator c = true) (hl₂ : Layout l₂) (hm : WrittenFields more fields)
    (hmore : FieldsSpell more fields) :
    FieldsSpell (text ++ l₁ ++ c :: (l₂ ++ more)) (field :: fields) := by
  intro fuel rest hfuel
  obtain ⟨fuel, rfl⟩ : ∃ k, fuel = k + 1 := ⟨fuel - 1, by omega⟩
  let tail := c :: (l₂ ++ (more ++ '}' :: rest))
  have htext : text ++ l₁ ++ c :: (l₂ ++ more) ++ '}' :: rest = text ++ (l₁ ++ tail) := by simp [tail]
  obtain ⟨hends, hlayout, hminus, hequals⟩ := separator_ends hc (l₂ ++ (more ++ '}' :: rest))
  have hseparator : skip (l₁ ++ tail) = tail := skip_behind hl₁ ⟨hlayout, hminus⟩ _
  have hskip : skip (l₂ ++ (more ++ '}' :: rest)) = more ++ '}' :: rest := by
    rw [skip_layout hl₂, hm.skip_eq]
  -- the field and the separator pay for the fuel that the later fields do without
  have hlen : 2 * (text ++ (l₁ ++ tail)).length + 1 ≤ fuel ∧
      2 * (more ++ '}' :: rest).length + 2 ≤ fuel := by
    rw [htext] at hfuel
    simp only [tail, List.length_append, List.length_cons] at hfuel ⊢
    omega
  have hfield : field? (value? fuel) (text ++ (l₁ ++ tail)) = some (field, l₁ ++ tail) := by
    refine h fuel _ (ends_layout hl₁ hends) ?_ hlen.1
    rw [hseparator]
    exact fun e => hequals (Option.some.inj e)
  rw [htext]
  refine fields?_more hfield hseparator hc ?_
  rw [hskip]
  exact hmore fuel rest hlen.2

mutual

theorem Written.spells {text : List Char} {node : Node} (h : Written text node) :
    Spells text node :=
  match h with
  | .atom hatom => spells_atom hatom
  | .table hl hfields => spells_table hl hfields hfields.spell

theorem WrittenField.spells {text : List Char} {field : Field} (h : WrittenField text field) :
    FieldSpells text field :=
  match h with
  | .keyed hl₁ hk hl₂ hl₃ hl₄ hw => fieldSpells_keyed hl₁ hk hk.spells hl₂ hl₃ hl₄ hw hw.spells
  | .named hn hl₁ hl₂ hw => fieldSpells_named hn hl₁ hl₂ hw hw.spells
  | .positional hw => fieldSpells_positional hw hw.spells

theorem WrittenFields.spell {text : List Char} {fields : List Field} (h : WrittenFields text fields) :
    FieldsSpell text fields :=
  match h with
  | .nil => fieldsSpell_nil
  | .last hfield hl => fieldsSpell_last hfield.spells hl
  | .more hfield hl₁ hc hl₂ hmore =>
    fieldsSpell_more hfield.spells hl₁ hc hl₂ hmore hmore.spell

end

theorem read?_of_reply {s : List Char} {node : Node} (h : Reply s node) : read? s = some node := by
  cases h with
  | @mk layout text tail _ hlayout htext htail =>
    have hskip : skip (layout ++ text ++ tail) = text ++ tail := by
      rw [List.append_assoc]
      exact htext.solid.behind hlayout tail
    have hread : value? (fuelFor (layout ++ text ++ tail)) (text ++ tail) = some (node, tail) := by
      refine htext.spells _ tail (ends_trailing htail) ?_
      simp only [fuelFor, List.length_append]
      omega
    rw [read?, hskip, hread]
    simp [skip_trailing htail]

/-- **Reading is the inverse of spelling.** A text reads as a tree exactly when it spells it. -/
theorem read?_eq_some_iff {s : List Char} {node : Node} : read? s = some node ↔ Reply s node :=
  ⟨read?_sound, read?_of_reply⟩

end RemoteConsole.Table
