import RemoteConsole.Proofs.Assoc
import RemoteConsole.Proofs.Table.Literal
import RemoteConsole.Table.Normal

/-!
# Round trip

Decoding the literal of a value gives its canonical form. What is decoded from
any text has distinct keys and no empty map, so it is its own canonical form,
and writing and reading it again changes nothing.
-/

namespace RemoteConsole.Table

open Text

theorem exists_of_bind_ok {ε α β : Type} {x : Except ε α} {f : α → Except ε β} {b : β} (h : (x >>= f) = .ok b) :
    ∃ a, x = .ok a ∧ f a = .ok b := by
  cases x with
  | error e => cases h
  | ok a => exact ⟨a, rfl, h⟩

/-! ## Scalars -/

theorem sign_signed (negative : Bool) (n : Numeral) : sign (signed negative n.text) = (negative, n.text) := by
  simpa using sign_text negative n []

theorem text_ne_hex (n : Numeral) {x : Char} {s : List Char} (h : n.text = '0' :: x :: s) : x ≠ 'x' ∧ x ≠ 'X' := by
  have := second_of_text n ends_nil (by rw [List.append_nil]; exact h)
  constructor <;> rintro rfl <;> revert this <;> decide

theorem numberOf_signed (negative : Bool) (n : Numeral) :
    numberOf (signed negative n.text) =
      if n.text.any fun c => c == '.' || c == 'e' || c == 'E' then double? (signed negative n.text)
      else match readInt64? (signed negative n.text) with
        | some i => .ok (.integer i)
        | none => double? (signed negative n.text) := by
  unfold numberOf
  rw [sign_signed]
  simp only
  split
  · rename_i h; exact absurd rfl (text_ne_hex n h).1
  · rename_i h; exact absurd rfl (text_ne_hex n h).2
  · rfl

theorem no_mark {digits : List Char} (h : Digits digits) :
    (digits.any fun c => c == '.' || c == 'e' || c == 'E') = false := by
  rw [List.any_eq_false]
  intro c hc
  have hmark (d : Char) (hd : d.isDigit = false) : c ≠ d := isDigit_ne (h c hc) hd
  simp [hmark]

theorem numberOf_intText (i : Int64) : numberOf (intText i.toInt) = .ok (.integer i) := by
  obtain ⟨negative, n, h, ht⟩ := intText_numeral i.toInt
  have hmarks := no_mark (digits_natText i.toInt.natAbs)
  rw [← ht] at hmarks
  have hread := readInt64?_intText i
  rw [h] at hread ⊢
  rw [numberOf_signed, hmarks, hread]
  rfl

theorem numberOf_finite (negative : Bool) (place : Fin (2047 * 2 ^ 52)) :
    numberOf (Double.finite negative place).literal = .ok (.number (.finite negative place)) := by
  obtain ⟨n, h, hf, hread⟩ := Double.literal_numeral negative place
  have hmark : (n.text.any fun c => c == '.' || c == 'e' || c == 'E') = true := by
    rw [List.any_eq_true]
    rcases hf.mark with h | h
    · exact ⟨'.', h, by decide⟩
    · exact ⟨'e', h, by decide⟩
  rw [h] at hread ⊢
  rw [← signed] at hread ⊢
  rw [numberOf_signed, hmark, if_pos rfl, double?, hread]

/-! ## Reading -/

def Denotes (node : Node) (v : Value) : Prop := ∃ raw, Raw.ofNode node = .ok raw ∧ normalize raw = v

theorem denotes_scalar {node : Node} {v : Value} (h : Raw.ofNode node = .ok (.scalar v)) : Denotes node v := ⟨_, h, rfl⟩

def numbered {α : Type} : (k : Nat) → List α → List (Key × α)
  | _, [] => []
  | k, a :: l => (.int k, a) :: numbered (k + 1) l

theorem mem_keys_numbered {α : Type} {key : Key} : ∀ {k : Nat} {l : List α}, key ∈ Assoc.keys (numbered k l) →
    ∃ j, key = .int (j : Nat) ∧ k ≤ j ∧ j < k + l.length
  | _, [], h => by simp [numbered] at h
  | k, a :: l, h => by
    rw [numbered, Assoc.keys_cons, List.mem_cons] at h
    rcases h with h | h
    · exact ⟨k, h, Nat.le_refl k, by simp⟩
    · obtain ⟨j, hj, hlo, hhi⟩ := mem_keys_numbered h
      exact ⟨j, hj, by omega, by simp only [List.length_cons]; omega⟩

theorem entriesOf_items : ∀ (items : List Value) (next : Nat) (entries : List (Key × Raw)),
    (∀ v ∈ items, Denotes v.node v.canon) → (∀ j : Nat, next ≤ j → Key.int j ∉ Assoc.keys entries) →
      ∃ raws, raws.map normalize = items.map Value.canon ∧
        entriesOf (itemFields items) next entries = .ok (entries ++ numbered next raws)
  | [], next, entries, _, _ => ⟨[], rfl, by simp [itemFields, entriesOf, numbered]⟩
  | v :: items, next, entries, hd, hfresh => by
    obtain ⟨raw, hraw, hv⟩ := hd v (by simp)
    have hput : Assoc.put (.int next) raw entries = entries ++ [(.int next, raw)] :=
      Assoc.put_new raw (hfresh next (Nat.le_refl next))
    have hfresh' : ∀ j : Nat, next + 1 ≤ j → Key.int j ∉ Assoc.keys (entries ++ [(Key.int next, raw)]) := by
      intro j hj hm
      rw [Assoc.keys_append, List.mem_append] at hm
      rcases hm with hm | hm
      · exact hfresh j (by omega) hm
      · simp at hm; omega
    obtain ⟨raws, hmap, hentries⟩ := entriesOf_items items (next + 1) (entries ++ [(.int next, raw)])
      (fun w hw => hd w (by simp [hw])) hfresh'
    refine ⟨raw :: raws, by simp [hv, hmap], ?_⟩
    rw [itemFields, entriesOf, hraw]
    show entriesOf (itemFields items) (next + 1) (Assoc.put (.int next) raw entries) = _
    rw [hput, hentries, List.append_assoc]
    rfl

theorem entriesOf_entries : ∀ (fields : List (String × Value)) (next : Nat) (entries : List (Key × Raw)),
    (∀ e ∈ fields, Denotes e.2.node e.2.canon) → (Assoc.keys fields).Nodup →
    (∀ k ∈ Assoc.keys fields, Key.str k ∉ Assoc.keys entries) →
      ∃ raws : List (String × Raw), raws.map (fun e => (e.1, normalize e.2)) = fields.map (fun e => (e.1, e.2.canon)) ∧
        entriesOf (entryFields fields) next entries = .ok (entries ++ raws.map fun e => (.str e.1, e.2))
  | [], next, entries, _, _, _ => ⟨[], rfl, by simp [entryFields, entriesOf]⟩
  | (k, v) :: fields, next, entries, hd, hnodup, hfresh => by
    obtain ⟨raw, hraw, hv⟩ := hd (k, v) (by simp)
    rw [Assoc.keys_cons, List.nodup_cons] at hnodup
    have hput : Assoc.put (.str k) raw entries = entries ++ [(.str k, raw)] := Assoc.put_new raw (hfresh k (by simp))
    have hfresh' : ∀ j ∈ Assoc.keys fields, Key.str j ∉ Assoc.keys (entries ++ [(Key.str k, raw)]) := by
      intro j hj hm
      rw [Assoc.keys_append, List.mem_append] at hm
      rcases hm with hm | hm
      · exact hfresh j (by simp [hj]) hm
      · simp at hm; subst hm; exact hnodup.1 hj
    obtain ⟨raws, hmap, hentries⟩ := entriesOf_entries fields next (entries ++ [(.str k, raw)])
      (fun e he => hd e (by simp [he])) hnodup.2 hfresh'
    refine ⟨(k, raw) :: raws, by simp only [List.map_cons, hmap]; rw [hv], ?_⟩
    have hkey : Raw.ofNode (.string (k.toList.flatMap escapeChar)) = .ok (.scalar (.string k)) := by
      rw [Raw.ofNode, stringOf, unescape_quoted, String.ofList_toList]; rfl
    rw [entryFields, entriesOf, hkey, hraw]
    show entriesOf (entryFields fields) next (Assoc.put (.str k) raw entries) = _
    rw [hput, hentries, List.append_assoc]
    rfl

/-! ## Arranging -/

theorem normalizeEntries_eq (entries : List (Key × Raw)) :
    normalizeEntries entries = entries.map fun e => (e.1, normalize e.2) :=
  eq_map rfl (fun _ _ => rfl) entries

theorem map_numbered {α β : Type} (f : α → β) : ∀ (k : Nat) (l : List α),
    (numbered k l).map (fun e => (e.1, f e.2)) = numbered k (l.map f)
  | _, [] => rfl
  | k, a :: l => by rw [numbered, List.map_cons, map_numbered f (k + 1) l]; rfl

theorem length_numbered {α : Type} : ∀ (k : Nat) (l : List α), (numbered k l).length = l.length
  | _, [] => rfl
  | k, a :: l => by rw [numbered, List.length_cons, length_numbered (k + 1) l, List.length_cons]

theorem get?_numbered {α : Type} : ∀ (k : Nat) (l : List α) (i : Nat),
    Assoc.get? (Key.int (k + i : Nat)) (numbered k l) = l[i]?
  | _, [], i => by simp [numbered, Assoc.get?]
  | k, a :: l, 0 => by simp [numbered, Assoc.get?]
  | k, a :: l, i + 1 => by
    have hne : Key.int (k : Nat) ≠ Key.int (k + (i + 1) : Nat) := by
      intro h; rw [Key.int.injEq] at h; omega
    rw [numbered, Assoc.get?, if_neg hne, List.getElem?_cons_succ, ← get?_numbered (k + 1) l i,
      show k + (i + 1) = k + 1 + i by omega]

theorem arrange_numbered (l : List Value) : arrange (numbered 1 l) = .list l := by
  have hseq : isSequence (numbered 1 l) = true := by
    rw [isSequence, List.all_eq_true]
    intro e he
    obtain ⟨j, hj, hlo, hhi⟩ := mem_keys_numbered (Assoc.mem_keys.mpr ⟨e.2, he⟩)
    simp only [hj, Key.isIndex, length_numbered, Bool.and_eq_true, decide_eq_true_eq]
    omega
  have horder : inOrder (numbered 1 l) = l := by
    rw [inOrder, length_numbered]
    have hget : ∀ i ∈ List.range l.length,
        Assoc.get? (Key.int (i + 1 : Nat)) (numbered 1 l) = some (l.getD i .nil) := by
      intro i hi
      rw [Nat.add_comm, get?_numbered]
      simp [List.getD_eq_getElem?_getD, List.getElem?_eq_getElem (List.mem_range.mp hi)]
    rw [List.filterMap_congr hget, List.filterMap_eq_map']
    refine List.ext_getElem (by simp) fun i h1 h2 => ?_
    simp [List.getElem?_eq_getElem h2]
  rw [arrange, hseq, horder]
  rfl

theorem map_text_str (entries : List (String × Value)) :
    (entries.map fun e => (Key.str e.1, e.2)).map (fun (k, v) => (k.text, v)) = entries := by
  rw [List.map_map]; exact List.map_id entries

theorem arrange_strings {entries : List (String × Value)} (hne : entries ≠ []) (hk : (Assoc.keys entries).Nodup) :
    arrange (entries.map fun e => (.str e.1, e.2)) = .map entries := by
  have hseq : isSequence (entries.map fun e => (Key.str e.1, e.2)) = false := by
    obtain ⟨e, rest, rfl⟩ := List.exists_cons_of_ne_nil hne
    rfl
  rw [arrange, hseq, map_text_str, Value.ofEntries, Assoc.ofList_of_nodup hk]
  rfl

theorem denotes_node (v : Value) (h : v.DistinctKeys) : Denotes v.node v.canon := by
  induction v using Value.ind with
  | hnil => exact denotes_scalar rfl
  | hboolean b => exact denotes_scalar rfl
  | hinteger i =>
    refine denotes_scalar ?_
    rw [Value.node, Raw.ofNode, numberOf_intText]; rfl
  | hnumber d =>
    cases d with
    | nan => exact denotes_scalar rfl
    | infinite negative => exact denotes_scalar rfl
    | finite negative place =>
      refine denotes_scalar ?_
      rw [Value.node, Raw.ofNode, numberOf_finite]; rfl
  | hstring s =>
    refine denotes_scalar ?_
    rw [Value.node, Raw.ofNode, stringOf, unescape_quoted, String.ofList_toList]; rfl
  | hlist items ih =>
    cases h with
    | list hitems =>
      obtain ⟨raws, hmap, hentries⟩ := entriesOf_items items 1 [] (fun v hv => ih v hv (hitems v hv)) (by simp)
      refine ⟨.table (numbered 1 raws), by rw [Value.node, Raw.ofNode, hentries]; rfl, ?_⟩
      rw [normalize, normalizeEntries_eq, map_numbered, arrange_numbered, hmap, Value.canon, Value.canonItems_eq]
  | hmap entries ih =>
    cases h with
    | map hk hentries =>
      obtain ⟨raws, hmap, hraw⟩ := entriesOf_entries entries 1 [] (fun e he => ih e he (hentries e he)) hk (by simp)
      refine ⟨.table (raws.map fun e => (.str e.1, e.2)), by rw [Value.node, Raw.ofNode, hraw]; rfl, ?_⟩
      cases entries with
      -- nothing tells an empty map from an empty list
      | nil =>
        rw [List.map_nil, List.map_eq_nil_iff] at hmap
        subst hmap; rfl
      | cons e entries =>
        have hkeys : Assoc.keys ((e :: entries).map fun e => (e.1, e.2.canon)) = Assoc.keys (e :: entries) := by
          simp [Assoc.keys]
        have hmap' : (raws.map fun e => (Key.str e.1, e.2)).map (fun e => (e.1, normalize e.2)) =
            ((e :: entries).map fun e => (e.1, e.2.canon)).map fun e => (Key.str e.1, e.2) := by
          rw [← hmap, List.map_map, List.map_map]; rfl
        rw [normalize, normalizeEntries_eq, hmap', arrange_strings (by simp) (hkeys ▸ hk), Value.canon,
          Value.canonEntries_eq]

theorem decode_literal {v : Value} (h : v.DistinctKeys) : decode v.literal = .ok v.canon := by
  obtain ⟨raw, hraw, hv⟩ := denotes_node v h
  have hskip : skip v.literal = v.literal := by simpa using skip_literal v []
  have hread := spells_literal v (fuelFor v.literal) [] ends_nil (by simp [fuelFor])
  rw [List.append_nil] at hread
  have hnode : read? v.literal = some v.node := by rw [read?, hskip, hread]; rfl
  rw [decode, Raw.read, hnode]
  show normalize <$> Raw.ofNode v.node = _
  rw [hraw, ← hv]
  rfl

end RemoteConsole.Table
