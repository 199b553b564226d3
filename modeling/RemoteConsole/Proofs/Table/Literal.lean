import RemoteConsole.Proofs.Table.Token
import RemoteConsole.Proofs.Value.Canon

/-!
# Literals on the grammar

A literal is read as the tree that it spells, whatever ends it. Lists and maps
are both fields joined by commas; a field of a list is tried as a keyed and as a
named one first, and is neither.
-/

namespace RemoteConsole

open Text Table

mutual

/-- The tree that the literal of a value spells. -/
def Value.node : Value → Node
  | .nil => .nil
  | .boolean b => .boolean b
  | .integer i => .number (intText i.toInt)
  | .number (.finite negative place) => .number (Double.finite negative place).literal
  | .number d => .special d
  | .string s => .string (s.toList.flatMap escapeChar)
  | .list items => .table (itemFields items)
  | .map entries => .table (entryFields entries)

def itemFields : List Value → List Field
  | [] => []
  | v :: rest => .positional v.node :: itemFields rest

def entryFields : List (String × Value) → List Field
  | [] => []
  | (k, v) :: rest => .keyed (.string (k.toList.flatMap escapeChar)) v.node :: entryFields rest

end

namespace Table

/-! ## Layout -/

theorem skip_cons {c : Char} {s : List Char} (hc : isLayout c = false) (hs : c = '-' → s.head? ≠ some '-') :
    skip (c :: s) = c :: s := by
  unfold skip skipFrom
  rw [if_neg (by simp [hc])]
  split
  · exact absurd rfl (hs rfl)
  · rfl

theorem intText_numeral (i : Int) : ∃ (negative : Bool) (n : Numeral), intText i = signed negative n.text ∧
    n.text = natText i.natAbs := by
  have ht := Numeral.text_ofDigits (natText_ne_nil i.natAbs) (digits_natText i.natAbs)
  refine ⟨decide (i < 0), Numeral.ofDigits _ (natText_ne_nil i.natAbs) (digits_natText i.natAbs), ?_, ht⟩
  rw [ht, intText, signed]
  by_cases h : i < 0 <;> simp [h]

/-- How a literal begins: as a word, or with a mark that begins neither layout nor a field with a key. -/
structure Mark (s : List Char) : Prop where
  head_eq : ∃ c t, s = c :: t ∧ isLayout c = false ∧ isNameStart c = false ∧ c ≠ '[' ∧
    (c = '-' → ∃ d u, t = d :: u ∧ d ≠ '-')

theorem mark_cons {c : Char} (s : List Char) (hc : isLayout c = false ∧ isNameStart c = false ∧ c ≠ '[' ∧ c ≠ '-') :
    Mark (c :: s) := by
  obtain ⟨h1, h2, h3, h4⟩ := hc
  exact ⟨c, s, rfl, h1, h2, h3, fun h => absurd h h4⟩

theorem isDigit_mark {c : Char} (h : c.isDigit = true) :
    isLayout c = false ∧ isNameStart c = false ∧ c ≠ '[' ∧ c ≠ '-' := by
  have hne (d : Char) (hd : d.isDigit = false) : c ≠ d := isDigit_ne h hd
  simp [isLayout, isNameStart, hne, isAlpha_of_isDigit h]

theorem mark_signed (negative : Bool) (n : Numeral) : Mark (signed negative n.text) := by
  obtain ⟨c, s, hs, hc⟩ := n.text_head
  rw [hs]
  cases negative with
  | true => exact ⟨'-', c :: s, rfl, rfl, rfl, by decide, fun _ => ⟨c, s, rfl, isDigit_ne hc rfl⟩⟩
  | false => exact mark_cons s (isDigit_mark hc)

theorem literal_head (v : Value) :
    v.literal = "nil".toList ∨ v.literal = "true".toList ∨ v.literal = "false".toList ∨
      v.literal = "math.huge".toList ∨ Mark v.literal := by
  cases v with
  | nil => exact .inl rfl
  | boolean b =>
    cases b with
    | true => exact .inr (.inl rfl)
    | false => exact .inr (.inr (.inl rfl))
  | integer i =>
    obtain ⟨negative, n, h, -⟩ := intText_numeral i.toInt
    rw [Value.literal, h]
    exact .inr (.inr (.inr (.inr (mark_signed negative n))))
  | number d =>
    cases d with
    | nan => exact .inr (.inr (.inr (.inr (mark_cons _ (by decide)))))
    | infinite negative =>
      cases negative with
      | true =>
        exact .inr (.inr (.inr (.inr ⟨'-', "math.huge".toList, rfl, rfl, rfl, by decide, fun _ => ⟨_, _, rfl, by decide⟩⟩)))
      | false => exact .inr (.inr (.inr (.inl rfl)))
    | finite negative place =>
      obtain ⟨n, h, -⟩ := Double.literal_numeral negative place
      rw [Value.literal, h]
      exact .inr (.inr (.inr (.inr (mark_signed negative n))))
  | string s => exact .inr (.inr (.inr (.inr (mark_cons _ (by decide)))))
  | list items => exact .inr (.inr (.inr (.inr (mark_cons _ (by decide)))))
  | map entries => exact .inr (.inr (.inr (.inr (mark_cons _ (by decide)))))

theorem skip_literal (v : Value) (rest : List Char) : skip (v.literal ++ rest) = v.literal ++ rest := by
  rcases literal_head v with h | h | h | h | ⟨c, s, h, hlayout, -, -, hminus⟩
  · rw [h]; exact skip_cons (c := 'n') rfl fun h => absurd h (by decide)
  · rw [h]; exact skip_cons (c := 't') rfl fun h => absurd h (by decide)
  · rw [h]; exact skip_cons (c := 'f') rfl fun h => absurd h (by decide)
  · rw [h]; exact skip_cons (c := 'm') rfl fun h => absurd h (by decide)
  · rw [h]
    refine skip_cons hlayout fun hc => ?_
    obtain ⟨d, u, rfl, hd⟩ := hminus hc
    exact fun h => hd (Option.some.inj h)

/-! ## Scalars -/

theorem string?_quote (s rest : List Char) : string? (quote s ++ rest) = some (s.flatMap escapeChar, rest) := by
  rw [quote, List.cons_append, List.append_assoc]
  exact stringBody?_quoted s rest

theorem word?_append {w rest : List Char} (hr : Ends rest) : word? w (w ++ rest) = some rest := by
  rw [word?, word?.after?, after?_append]
  simp [hr.atWordEnd]

theorem scalar?_number {s rest : List Char} {negative : Bool} {n : Numeral} (h : s = signed negative n.text)
    (hr : Ends rest) : scalar? (s ++ rest) = some (.number s, rest) := by
  rw [scalar?, h, special?_text negative n hr, number?_text negative n hr]
  rfl

theorem scalar?_special {d : Double} {rest : List Char} (h : special? (d.literal ++ rest) = some (d, rest)) :
    scalar? (d.literal ++ rest) = some (.special d, rest) := by
  rw [scalar?, h]; rfl

theorem scalar?_quote (s rest : List Char) : scalar? (quote s ++ rest) = some (.string (s.flatMap escapeChar), rest) := by
  have h1 : special? (quote s ++ rest) = none := special?_eq_none _ (by decide)
  have h2 : number? (quote s ++ rest) = none := number?_eq_none _ (by decide) (by decide) rfl
  rw [scalar?, h1, h2, string?_quote]
  rfl

theorem scalar?_boolean (b : Bool) {rest : List Char} (hr : Ends rest) :
    scalar? ((Value.boolean b).literal ++ rest) = some (.boolean b, rest) := by
  have h1 : special? ((Value.boolean b).literal ++ rest) = none := by
    cases b <;> exact special?_eq_none _ (by decide)
  have h2 : number? ((Value.boolean b).literal ++ rest) = none := by
    cases b <;> exact number?_eq_none _ (by decide) (by decide) rfl
  have h3 : string? ((Value.boolean b).literal ++ rest) = none := by cases b <;> rfl
  have h4 : boolean? ((Value.boolean b).literal ++ rest) = some (b, rest) := by
    cases b with
    | true =>
      have := word?_append (w := "true".toList) hr
      simp only [Value.literal, if_true, boolean?, this]
    | false =>
      have := word?_append (w := "false".toList) hr
      have hno : word? "true".toList ("false".toList ++ rest) = none := rfl
      simp only [Value.literal, Bool.false_eq_true, if_false, boolean?, this, hno]
      rfl
  rw [scalar?, h1, h2, h3, h4]
  rfl

theorem scalar?_nil {rest : List Char} (hr : Ends rest) : scalar? (Value.nil.literal ++ rest) = some (.nil, rest) := by
  have h1 : special? (Value.nil.literal ++ rest) = none := rfl
  have h2 : number? (Value.nil.literal ++ rest) = none := number?_eq_none _ (by decide) (by decide) rfl
  have h3 : string? (Value.nil.literal ++ rest) = none := rfl
  have h4 : boolean? (Value.nil.literal ++ rest) = none := rfl
  have h5 : nil? (Value.nil.literal ++ rest) = some rest := word?_append hr
  rw [scalar?, h1, h2, h3, h4, h5]
  rfl

/-! ## Fields -/

theorem ends_cons {c : Char} (s : List Char) (hc : isNameChar c = false ∧ c ≠ '.' ∧ c ≠ '/') : Ends (c :: s) := by
  intro d hd; cases hd; exact hc

theorem ends_comma (s : List Char) : Ends (',' :: s) := ends_cons s (by decide)

theorem ends_brace (s : List Char) : Ends ('}' :: s) := ends_cons s (by decide)

theorem ends_bracket (s : List Char) : Ends (']' :: s) := ends_cons s (by decide)

theorem value?_scalar {s rest : List Char} {node : Node} (fuel : Nat) (hs : scalar? s = some (node, rest))
    (hb : ∀ t, s ≠ '{' :: t) : value? (fuel + 1) s = some (node, rest) := by
  have htok : token? '{' s = none := by
    cases s with
    | nil => rfl
    | cons c s =>
      have hc : '{' ≠ c := fun h => hb s (by rw [h])
      simp [token?, hc]
  rw [value?, htok]
  exact hs

/-- A spelling of a value: read as its tree wherever it ends. -/
def Spells (s : List Char) (node : Node) : Prop :=
  ∀ fuel rest, Ends rest → 2 * (s ++ rest).length + 1 ≤ fuel → value? fuel (s ++ rest) = some (node, rest)

structure SpellsField (s : List Char) (f : Field) : Prop where
  field?_eq : ∀ fuel rest, Ends rest → 2 * (s ++ rest).length + 1 ≤ fuel →
    field? (value? fuel) (s ++ rest) = some (f, rest)
  skip_eq : ∀ rest, skip (s ++ rest) = s ++ rest

theorem keyed?_literal (r : List Char → Option (Node × List Char)) (v : Value) (rest : List Char) :
    keyed? r (v.literal ++ rest) = none := by
  have hkey (c : Char) (s : List Char) (hc : c ≠ '[') : keyed? r (c :: s) = none := by
    simp [keyed?, token?, Ne.symm hc]
  rcases literal_head v with h | h | h | h | ⟨c, s, h, -, -, hc, -⟩
  · rw [h]; exact hkey 'n' _ (by decide)
  · rw [h]; exact hkey 't' _ (by decide)
  · rw [h]; exact hkey 'f' _ (by decide)
  · rw [h]; exact hkey 'm' _ (by decide)
  · rw [h]; exact hkey c _ hc

theorem takeWhile_word {w rest : List Char} (hw : w.all isNameChar = true) (hr : Ends rest) :
    (w ++ rest).takeWhile isNameChar = w := by
  rw [List.takeWhile_append_of_pos (List.all_eq_true.mp hw)]
  cases rest with
  | nil => simp
  | cons c s => simp [(hr c rfl).1]

theorem name?_keyword {w rest : List Char} (hw : w.all isNameChar = true) (hk : keywords.contains w = true)
    (hr : Ends rest) : name? (w ++ rest) = none := by
  unfold name?
  rw [takeWhile_word hw hr]
  cases w with
  | nil => rfl
  | cons c w => simp [List.contains_iff_mem.mp hk]

theorem named?_literal (r : List Char → Option (Node × List Char)) (v : Value) {rest : List Char} (hr : Ends rest) :
    named? r (v.literal ++ rest) = none := by
  have hno {s : List Char} (hs : name? s = none) : named? r s = none := by rw [named?, hs]; rfl
  rcases literal_head v with h | h | h | h | ⟨c, s, h, -, hc, -, -⟩
  · rw [h]; exact hno (name?_keyword (w := ['n', 'i', 'l']) (by decide) (by decide) hr)
  · rw [h]; exact hno (name?_keyword (w := ['t', 'r', 'u', 'e']) (by decide) (by decide) hr)
  · rw [h]; exact hno (name?_keyword (w := ['f', 'a', 'l', 's', 'e']) (by decide) (by decide) hr)
  · have hname : name? ("math.huge".toList ++ rest) = some (['m', 'a', 't', 'h'], '.' :: ("huge".toList ++ rest)) := by
      have htake : ("math.huge".toList ++ rest).takeWhile isNameChar = ['m', 'a', 't', 'h'] := rfl
      have hdrop : ("math.huge".toList ++ rest).dropWhile isNameChar = '.' :: ("huge".toList ++ rest) := rfl
      have hk : keywords.contains ['m', 'a', 't', 'h'] = false := by decide
      unfold name?
      rw [htake, hdrop]
      simp only [hk]
      rfl
    have htok : token? '=' (skip ('.' :: ("huge".toList ++ rest))) = none := by
      rw [skip_cons rfl fun h => absurd h (by decide)]; rfl
    rw [h, named?, hname]
    simp only [Option.bind_eq_bind, Option.bind_some, htok, Option.bind_none]
  · have hname : name? (c :: (s ++ rest)) = none := by
      unfold name?
      by_cases hn : isNameChar c = true
      · simp [hn, hc]
      · simp [hn]
    rw [h, List.cons_append]; exact hno hname

theorem Spells.positional {v : Value} (h : Spells v.literal v.node) : SpellsField v.literal (.positional v.node) := by
  refine ⟨fun fuel rest hr hf => ?_, skip_literal v⟩
  rw [field?, keyed?_literal, named?_literal _ v hr, positional?, h fuel rest hr hf]
  rfl

theorem spells_quote (s : List Char) : Spells (quote s) (.string (s.flatMap escapeChar)) := by
  intro fuel rest _ hf
  obtain ⟨fuel, rfl⟩ : ∃ k, fuel = k + 1 := ⟨fuel - 1, by omega⟩
  exact value?_scalar fuel (scalar?_quote s rest) fun t h => by cases h

theorem Spells.keyed {v : Value} (h : Spells v.literal v.node) (k : String) :
    SpellsField (literalEntry (k, v)) (.keyed (.string (k.toList.flatMap escapeChar)) v.node) := by
  refine ⟨fun fuel rest hr hf => ?_, fun rest => skip_cons rfl fun h => absurd h (by decide)⟩
  let tail := ']' :: ' ' :: '=' :: ' ' :: (v.literal ++ rest)
  have hlen : 2 * (quote k.toList ++ tail).length + 1 ≤ fuel ∧ 2 * (v.literal ++ rest).length + 1 ≤ fuel := by
    simp only [literalEntry, tail, List.length_append, List.length_cons] at hf ⊢
    omega
  have hkey : value? fuel (quote k.toList ++ tail) = some (.string (k.toList.flatMap escapeChar), tail) :=
    spells_quote k.toList fuel tail (ends_bracket _) hlen.1
  have hvalue := h fuel rest hr hlen.2
  have hopen : skip (quote k.toList ++ tail) = quote k.toList ++ tail := skip_literal (.string k) tail
  have hclose : skip tail = tail := skip_cons rfl fun h => absurd h (by decide)
  have hequals : skip (' ' :: '=' :: ' ' :: (v.literal ++ rest)) = '=' :: ' ' :: (v.literal ++ rest) := rfl
  have hspace : skip (' ' :: (v.literal ++ rest)) = v.literal ++ rest := skip_literal v rest
  have htext : literalEntry (k, v) ++ rest = '[' :: (quote k.toList ++ tail) := by simp [literalEntry, tail]
  rw [htext, field?, keyed?]
  simp only [token?, if_true, Option.bind_eq_bind, Option.bind_some, hopen, hkey, hclose, hequals, hspace, tail, hvalue]
  rfl

/-! ## Tables -/

def joined : List (List Char) → List Char
  | [] => []
  | [t] => t
  | t :: u :: rest => t ++ ',' :: ' ' :: joined (u :: rest)

theorem fields?_empty (fuel : Nat) (rest : List Char) : fields? (fuel + 1) ('}' :: rest) = some ([], rest) := by
  have hspecial : special? ('}' :: rest) = none := special?_eq_none rest (by decide)
  have hnumber : number? ('}' :: rest) = none := number?_eq_none rest (by decide) (by decide) rfl
  have hscalar : scalar? ('}' :: rest) = none := by rw [scalar?, hspecial, hnumber]; rfl
  have hvalue : value? fuel ('}' :: rest) = none := by
    cases fuel with
    | zero => rfl
    | succ fuel => rw [value?]; exact hscalar
  have hfield : field? (value? fuel) ('}' :: rest) = none := by
    rw [field?, positional?, hvalue]; rfl
  rw [fields?, hfield]

theorem fields?_last {fuel : Nat} {s t rest : List Char} {f : Field} (hf : field? (value? fuel) s = some (f, t))
    (ht : skip t = '}' :: rest) : fields? (fuel + 1) s = some ([f], rest) := by
  rw [fields?.eq_def]
  simp only [hf, ht]

theorem fields?_more {fuel : Nat} {s t u rest : List Char} {c : Char} {f : Field} {fs : List Field}
    (hf : field? (value? fuel) s = some (f, t)) (ht : skip t = c :: u) (hc : isSeparator c = true)
    (hu : fields? fuel (skip u) = some (fs, rest)) : fields? (fuel + 1) s = some (f :: fs, rest) := by
  -- the closing brace is tried before the separators
  have hbrace : c ≠ '}' := by
    rintro rfl
    cases hc
  rw [fields?.eq_def]
  simp only [hf, ht]
  rw [if_pos hc, hu]
  rfl

theorem fields?_joined (rest : List Char) : ∀ (texts : List (List Char)) (fields : List Field) (fuel : Nat),
    List.Forall₂ SpellsField texts fields → 2 * (joined texts ++ '}' :: rest).length + 2 ≤ fuel →
      fields? fuel (joined texts ++ '}' :: rest) = some (fields, rest)
  | _, _, 0, _, hf => by omega
  | [], [], fuel + 1, .nil, _ => fields?_empty fuel rest
  | [t], [f], fuel + 1, .cons h .nil, hf => by
    have hfield := h.field?_eq fuel ('}' :: rest) (ends_brace rest) (by simpa [joined] using hf)
    have hskip : skip ('}' :: rest) = '}' :: rest := skip_cons rfl fun h => absurd h (by decide)
    exact fields?_last hfield hskip
  | t :: u :: us, f :: g :: gs, fuel + 1, .cons h (.cons hu hs), hf => by
    let tail := joined (u :: us) ++ '}' :: rest
    have htext : joined (t :: u :: us) ++ '}' :: rest = t ++ ',' :: ' ' :: tail := by simp [joined, tail]
    -- The separator pays for the unit of fuel that the next field costs.
    have hlen : 2 * (t ++ ',' :: ' ' :: tail).length + 1 ≤ fuel ∧ 2 * tail.length + 2 ≤ fuel := by
      rw [htext] at hf
      simp only [List.length_append, List.length_cons] at hf ⊢
      omega
    have hfield := h.field?_eq fuel (',' :: ' ' :: tail) (ends_comma _) hlen.1
    have hcomma : skip (',' :: ' ' :: tail) = ',' :: ' ' :: tail := skip_cons rfl fun h => absurd h (by decide)
    have hspace : skip (' ' :: tail) = tail := by
      have : tail = u ++ (tail.drop u.length) := by
        cases us <;> simp [tail, joined]
      rw [this]
      exact hu.skip_eq _
    have ih := fields?_joined rest (u :: us) (g :: gs) fuel (.cons hu hs) hlen.2
    rw [htext]
    exact fields?_more hfield hcomma rfl (by rw [hspace]; exact ih)

theorem literalItems_joined (items : List Value) : literalItems items = joined (items.map Value.literal) := by
  induction items with
  | nil => rfl
  | cons v items ih =>
    cases items with
    | nil => rfl
    | cons w items => rw [literalItems, ih]; rfl

theorem literalEntries_joined (entries : List (String × Value)) :
    literalEntries entries = joined (entries.map literalEntry) := by
  induction entries with
  | nil => rfl
  | cons e entries ih =>
    cases entries with
    | nil => rfl
    | cons f entries => rw [literalEntries, ih]; rfl

theorem Spells.table {texts : List (List Char)} {fields : List Field} (h : List.Forall₂ SpellsField texts fields) :
    Spells ('{' :: (joined texts ++ ['}'])) (.table fields) := by
  intro fuel rest _ hf
  obtain ⟨fuel, rfl⟩ : ∃ k, fuel = k + 1 := ⟨fuel - 1, by omega⟩
  have htext : '{' :: (joined texts ++ ['}']) ++ rest = '{' :: (joined texts ++ '}' :: rest) := by simp
  have hskip : skip (joined texts ++ '}' :: rest) = joined texts ++ '}' :: rest := by
    cases h with
    | nil => exact skip_cons rfl fun h => absurd h (by decide)
    | @cons t f texts fields ht hs =>
      have : joined (t :: texts) ++ '}' :: rest = t ++ (joined (t :: texts) ++ '}' :: rest).drop t.length := by
        cases texts <;> simp [joined]
      rw [this]
      exact ht.skip_eq _
  have hfields := fields?_joined rest texts fields fuel h (by rw [htext] at hf; simp only [List.length_cons] at hf ⊢; omega)
  rw [htext, value?]
  simp only [token?, if_true, hskip, hfields]
  rfl

theorem itemFields_spell {items : List Value} (h : ∀ v ∈ items, Spells v.literal v.node) :
    List.Forall₂ SpellsField (items.map Value.literal) (itemFields items) := by
  induction items with
  | nil => exact .nil
  | cons v items ih => exact .cons (h v (by simp)).positional (ih fun w hw => h w (by simp [hw]))

theorem entryFields_spell {entries : List (String × Value)} (h : ∀ e ∈ entries, Spells e.2.literal e.2.node) :
    List.Forall₂ SpellsField (entries.map literalEntry) (entryFields entries) := by
  induction entries with
  | nil => exact .nil
  | cons e entries ih => exact .cons ((h e (by simp)).keyed e.1) (ih fun f hf => h f (by simp [hf]))

theorem signed_ne_brace {negative : Bool} {n : Numeral} {rest t : List Char} :
    signed negative n.text ++ rest ≠ '{' :: t := by
  intro h
  obtain ⟨c, s, hs, hc⟩ := n.text_head
  rw [hs] at h
  cases negative with
  | true => cases h
  | false => exact isDigit_ne hc (d := '{') rfl (List.cons.inj h).1

/-- **Literals are read.** Every value's literal is read as the value's tree, wherever it ends. -/
theorem spells_literal (v : Value) : Spells v.literal v.node := by
  -- Tables are tried first, so a scalar must not begin like one.
  have hscalar {v : Value} (hs : ∀ rest, Ends rest → scalar? (v.literal ++ rest) = some (v.node, rest))
      (hb : ∀ rest t, v.literal ++ rest ≠ '{' :: t) : Spells v.literal v.node := by
    intro fuel rest hr hf
    obtain ⟨fuel, rfl⟩ : ∃ k, fuel = k + 1 := ⟨fuel - 1, by omega⟩
    exact value?_scalar fuel (hs rest hr) (hb rest)
  induction v using Value.ind with
  | hnil => exact hscalar (fun _ hr => scalar?_nil hr) fun _ _ h => by cases h
  | hboolean b => exact hscalar (fun _ hr => scalar?_boolean b hr) fun _ _ h => by cases b <;> cases h
  | hinteger i =>
    obtain ⟨negative, n, h, -⟩ := intText_numeral i.toInt
    refine hscalar (fun _ hr => scalar?_number h hr) fun rest t ht => ?_
    rw [Value.literal, h] at ht
    exact signed_ne_brace ht
  | hnumber d =>
    cases d with
    | nan => exact hscalar (fun rest _ => scalar?_special (special?_nan rest)) fun _ _ h => by cases h
    | infinite negative =>
      refine hscalar (fun rest _ => scalar?_special (special?_infinite negative rest)) fun _ _ h => ?_
      cases negative <;> cases h
    | finite negative place =>
      obtain ⟨n, h, -⟩ := Double.literal_numeral negative place
      refine hscalar (fun _ hr => scalar?_number h hr) fun rest t ht => ?_
      rw [Value.literal, h] at ht
      exact signed_ne_brace ht
  | hstring s => exact spells_quote s.toList
  | hlist items ih =>
    rw [Value.literal, literalItems_joined]
    exact Spells.table (itemFields_spell ih)
  | hmap entries ih =>
    rw [Value.literal, literalEntries_joined]
    exact Spells.table (entryFields_spell ih)

end Table

end RemoteConsole
