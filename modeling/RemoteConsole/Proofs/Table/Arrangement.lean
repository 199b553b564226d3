import Mathlib.Data.List.Perm.Subperm
import RemoteConsole.Proofs.Table.Decoded

/-!
# What a table is arranged into

Distinct keys that all lie between one and their number are all of these integers, so a list has an
item for every entry, at the place that its key says. A map has one entry for every text of a key:
entries are lost exactly where two keys have the same text, and of keys that a text can hold these
are a string and an integer or a literal that it spells.
-/

namespace RemoteConsole.Table

open Text

/-! ## Lists -/

/-- The keys are the integers from one to the number of entries. -/
def Sequential {α : Type} (entries : List (Key × α)) : Prop :=
  ∀ k, k ∈ Assoc.keys entries ↔ ∃ i : Nat, 1 ≤ i ∧ i ≤ entries.length ∧ k = .int i

def indices (n : Nat) : List Key := (List.range n).map fun i => .int (i + 1 : Nat)

theorem mem_indices {n : Nat} {k : Key} : k ∈ indices n ↔ ∃ i : Nat, 1 ≤ i ∧ i ≤ n ∧ k = .int i := by
  rw [indices, List.mem_map]
  constructor
  · rintro ⟨i, hi, rfl⟩
    have hlt := List.mem_range.mp hi
    exact ⟨i + 1, by omega, by omega, rfl⟩
  · rintro ⟨i, h1, hn, rfl⟩
    exact ⟨i - 1, List.mem_range.mpr (by omega), by rw [Nat.sub_add_cancel h1]⟩

theorem isIndex_iff {n : Nat} {k : Key} : k.isIndex n = true ↔ k ∈ indices n := by
  rw [mem_indices]
  cases k with
  | int i =>
    simp only [Key.isIndex, Bool.and_eq_true, decide_eq_true_eq, Key.int.injEq]
    constructor
    · intro h
      exact ⟨i.toNat, by omega, by omega, by omega⟩
    · rintro ⟨j, h1, hn, rfl⟩
      omega
  | str s => simp [Key.isIndex]
  | other literal => simp [Key.isIndex]

section
variable {α : Type} {entries : List (Key × α)} (hkeys : (Assoc.keys entries).Nodup)
include hkeys

/-- As many distinct keys as there are places take all of them. -/
theorem isSequence_iff : isSequence entries = true ↔ Sequential entries := by
  have hlength : (indices entries.length).length = (Assoc.keys entries).length := by
    simp [indices, Assoc.keys]
  have hall : isSequence entries = true ↔ ∀ k ∈ Assoc.keys entries, k ∈ indices entries.length := by
    simp [isSequence, isIndex_iff, Assoc.keys]
  rw [hall]
  constructor
  · intro hsubset k
    have hperm := (hkeys.subperm hsubset).perm_of_length_le (by omega)
    rw [hperm.mem_iff, mem_indices]
  · intro hseq k hk
    rw [mem_indices]
    exact (hseq k).mp hk

end

section
variable {entries : List (Key × Value)} (hkeys : (Assoc.keys entries).Nodup)
include hkeys

theorem inOrder_eq (hseq : Sequential entries) :
    inOrder entries = (List.range entries.length).map fun i => (Assoc.get? (.int (i + 1 : Nat)) entries).getD .nil := by
  have hget : ∀ i ∈ List.range entries.length, Assoc.get? (.int (i + 1 : Nat)) entries =
      some ((Assoc.get? (.int (i + 1 : Nat)) entries).getD .nil) := by
    intro i hi
    have hlt := List.mem_range.mp hi
    obtain ⟨v, hv⟩ := Assoc.mem_keys.mp ((hseq (.int (i + 1 : Nat))).mpr ⟨i + 1, by omega, by omega, rfl⟩)
    rw [Assoc.get?_of_mem hkeys hv]
    rfl
  rw [inOrder, List.filterMap_congr hget, List.filterMap_eq_map']

theorem length_inOrder (hseq : Sequential entries) : (inOrder entries).length = entries.length := by
  rw [inOrder_eq hkeys hseq, List.length_map, List.length_range]

theorem getElem?_inOrder (hseq : Sequential entries) {i : Nat} {v : Value} (h : (Key.int i, v) ∈ entries) :
    (inOrder entries)[i - 1]? = some v := by
  obtain ⟨j, h1, hn, hj⟩ := (hseq (.int i)).mp (Assoc.mem_keys.mpr ⟨v, h⟩)
  have hij : i = j := by
    rw [Key.int.injEq] at hj
    omega
  subst hij
  have hrange : (List.range entries.length)[i - 1]? = some (i - 1) := List.getElem?_range (by omega)
  rw [inOrder_eq hkeys hseq, List.getElem?_map, hrange, Option.map_some, Nat.sub_add_cancel h1,
    Assoc.get?_of_mem hkeys h]
  rfl

theorem arrange_list (hseq : Sequential entries) : arrange entries = .list (inOrder entries) := by
  rw [arrange, if_pos ((isSequence_iff hkeys).mpr hseq)]

theorem arrange_map (hseq : ¬ Sequential entries) :
    arrange entries = .ofEntries (entries.map fun e => (e.1.text, e.2)) := by
  rw [arrange, if_neg fun h => hseq ((isSequence_iff hkeys).mp h)]

end

/-! ## Tables -/

theorem keys_normalizeEntries (entries : List (Key × Raw)) :
    Assoc.keys (normalizeEntries entries) = Assoc.keys entries := by
  rw [normalizeEntries_eq, Assoc.keys, List.map_map]
  rfl

theorem length_normalizeEntries (entries : List (Key × Raw)) : (normalizeEntries entries).length = entries.length := by
  rw [normalizeEntries_eq, List.length_map]

theorem mem_normalizeEntries {entries : List (Key × Raw)} {k : Key} {raw : Raw} (h : (k, raw) ∈ entries) :
    (k, normalize raw) ∈ normalizeEntries entries := by
  rw [normalizeEntries_eq]
  exact List.mem_map.mpr ⟨(k, raw), h, rfl⟩

theorem sequential_normalizeEntries {entries : List (Key × Raw)} :
    Sequential (normalizeEntries entries) ↔ Sequential entries := by
  simp only [Sequential, keys_normalizeEntries, length_normalizeEntries]

def texts (entries : List (Key × Raw)) : List (String × Value) :=
  entries.map fun e => (e.1.text, normalize e.2)

theorem keys_texts (entries : List (Key × Raw)) : Assoc.keys (texts entries) = (Assoc.keys entries).map Key.text := by
  rw [texts, Assoc.keys, Assoc.keys, List.map_map, List.map_map]
  rfl

section
variable {entries : List (Key × Raw)} (hkeys : (Assoc.keys entries).Nodup)
include hkeys

theorem nodup_normalizeEntries : (Assoc.keys (normalizeEntries entries)).Nodup := by
  rwa [keys_normalizeEntries]

theorem normalize_list (hseq : Sequential entries) :
    normalize (.table entries) = .list (inOrder (normalizeEntries entries)) := by
  rw [normalize]
  exact arrange_list (nodup_normalizeEntries hkeys) (sequential_normalizeEntries.mpr hseq)

theorem normalize_map (hseq : ¬ Sequential entries) :
    normalize (.table entries) = .map (Assoc.ofList (texts entries)) := by
  rw [normalize, arrange_map (nodup_normalizeEntries hkeys) (mt sequential_normalizeEntries.mp hseq),
    normalizeEntries_eq, List.map_map]
  rfl

end

/-- **A table is a list exactly when its keys are the first integers.** The list has an item for every
entry, at the place that its key says, in whatever order the entries stand; every other table is a
map, with the texts of its keys in the order in which they first stand. -/
theorem normalize_list_iff (entries : List (Key × Raw)) (hkeys : (Assoc.keys entries).Nodup) :
    ((∃ items, normalize (.table entries) = .list items) ↔ Sequential entries) ∧
    (∀ items, normalize (.table entries) = .list items → items.length = entries.length ∧
      ∀ (i : Nat) (raw : Raw), (Key.int i, raw) ∈ entries → items[i - 1]? = some (normalize raw)) ∧
    (¬ Sequential entries → ∃ fields, normalize (.table entries) = .map fields ∧
      Assoc.keys fields = ((Assoc.keys entries).map Key.text).eraseDups) := by
  have hnodup := nodup_normalizeEntries hkeys
  have hiff : (∃ items, normalize (.table entries) = .list items) ↔ Sequential entries := by
    by_cases hseq : Sequential entries
    · simp [hseq, normalize_list hkeys hseq]
    · simp [hseq, normalize_map hkeys hseq]
  refine ⟨hiff, ?_, ?_⟩
  · intro items h
    have hseq := hiff.mp ⟨items, h⟩
    have hseq' := sequential_normalizeEntries.mpr hseq
    rw [normalize_list hkeys hseq] at h
    cases h
    refine ⟨?_, ?_⟩
    · rw [length_inOrder hnodup hseq', length_normalizeEntries]
    · intro i raw hmem
      exact getElem?_inOrder hnodup hseq' (mem_normalizeEntries hmem)
  · intro hseq
    refine ⟨_, normalize_map hkeys hseq, ?_⟩
    rw [Assoc.keys_ofList, keys_texts]

/-- Keys out of order, and keys with a gap. -/
theorem normalize_list_iff_reversed :
    (∃ items, normalize (.table [(.int 2, .scalar (.string "y")), (.int 1, .scalar (.string "x"))]) = .list items ∧
      items.length = 2 ∧ items[1 - 1]? = some (.string "x") ∧ items[2 - 1]? = some (.string "y")) ∧
    ∃ fields, normalize (.table [(.int 3, .scalar (.string "z")), (.int 1, .scalar (.string "x"))]) = .map fields ∧
      Assoc.keys fields = ["3", "1"] := by
  constructor
  · have hread : ∃ items, normalize (.table [(.int 2, .scalar (.string "y")), (.int 1, .scalar (.string "x"))]) =
        .list items := ⟨_, rfl⟩
    obtain ⟨items, hitems⟩ := hread
    obtain ⟨hlength, hplace⟩ := (normalize_list_iff _ (by decide)).2.1 items hitems
    exact ⟨items, hitems, hlength, hplace 1 (.scalar (.string "x")) (by simp),
      hplace 2 (.scalar (.string "y")) (by simp)⟩
  · refine (normalize_list_iff _ (by decide)).2.2 fun hseq => ?_
    obtain ⟨i, h1, h2, hi⟩ := (hseq (.int 3)).mp (by decide)
    rw [Key.int.injEq] at hi
    simp only [List.length_cons, List.length_nil] at h2
    omega

/-! ## The texts of keys -/

def Key.isString : Key → Bool
  | .str _ => true
  | _ => false

theorem Key.text_int (i : Int) : (Key.int i).text.toList = intText i := String.toList_ofList

theorem Key.text_int_ne (i : Int) {literal : String} (h : (Key.other literal).Made) :
    (Key.int i).text ≠ (Key.other literal).text := by
  have hmark : ∃ c ∈ literal.toList, c ≠ '-' ∧ c.isDigit = false := by
    cases h with
    | number d =>
      rw [String.toList_ofList]
      exact d.literal_mark
    | boolean b =>
      cases b with
      | true => exact ⟨'t', by decide, by decide⟩
      | false => exact ⟨'f', by decide, by decide⟩
  intro htext
  have hsame : intText i = literal.toList := by
    rw [← Key.text_int, htext]
    rfl
  obtain ⟨c, hc, hdash, hdigit⟩ := hmark
  rw [← hsame] at hc
  rcases mem_intText hc with rfl | hd
  · exact hdash rfl
  · rw [hdigit] at hd
    cases hd

theorem Key.text_int_inj {i j : Int} (h : (Key.int i).text = (Key.int j).text) : i = j := by
  apply intText_inj
  rw [← Key.text_int, ← Key.text_int, h]

theorem Key.isString_ne {j k : Key} (hj : j.Made) (hk : k.Made) (htext : j.text = k.text) (hne : j ≠ k) :
    j.isString ≠ k.isString := by
  intro hsame
  cases j with
  | int i =>
    cases k with
    | int i' => exact hne (congrArg Key.int (Key.text_int_inj htext))
    | str s => cases hsame
    | other literal => exact Key.text_int_ne i hk htext
  | str s =>
    cases k with
    | str s' => exact hne (congrArg Key.str htext)
    | _ => cases hsame
  | other literal =>
    cases k with
    | int i => exact Key.text_int_ne i hj htext.symm
    | str s => cases hsame
    | other literal' => exact hne (congrArg Key.other htext)

/-- The keys of every table are distinct, and where two have one text, one of them is a string. -/
inductive Raw.Keyed : Raw → Prop
  | scalar (v : Value) : Keyed (.scalar v)
  | table {entries : List (Key × Raw)} :
    (Assoc.keys entries).Nodup →
    (∀ j ∈ Assoc.keys entries, ∀ k ∈ Assoc.keys entries, j.text = k.text → j ≠ k → j.isString ≠ k.isString) →
    (∀ e ∈ entries, Keyed e.2) → Keyed (.table entries)

structure KeyedEntries (entries : List (Key × Raw)) : Prop where
  nodup : (Assoc.keys entries).Nodup
  made : ∀ k ∈ Assoc.keys entries, k.Made
  keyed : ∀ e ∈ entries, e.2.Keyed

theorem KeyedEntries.nil : KeyedEntries [] := ⟨by simp, by simp, by simp⟩

theorem KeyedEntries.put {entries : List (Key × Raw)} (h : KeyedEntries entries) {k : Key} {raw : Raw} (hk : k.Made)
    (hraw : raw.Keyed) : KeyedEntries (Assoc.put k raw entries) := by
  refine ⟨Assoc.nodup_put raw h.nodup, ?_, ?_⟩
  · intro j hj
    rcases Assoc.mem_keys_put.mp hj with rfl | hj
    · exact hk
    · exact h.made j hj
  · intro e he
    rcases Assoc.mem_put he with rfl | he
    · exact hraw
    · exact h.keyed e he

theorem KeyedEntries.table {entries : List (Key × Raw)} (h : KeyedEntries entries) : (Raw.table entries).Keyed :=
  .table h.nodup (fun _ hj _ hk => Key.isString_ne (h.made _ hj) (h.made _ hk)) h.keyed

theorem keyed_built : Built Raw.Keyed KeyedEntries where
  scalar v _ := .scalar v
  nil := .nil
  put _ _ _ h hk hraw := h.put hk hraw
  table _ h := h.table

/-! ## Nothing is lost -/

/-- Every entry of a table is an item or an entry of its own. -/
def Whole (entries : List (Key × Raw)) : Value → Prop
  | .list items => items.length = entries.length ∧ ∀ e ∈ entries, normalize e.2 ∈ items
  | .map fields => fields.length = entries.length ∧ ∀ e ∈ entries, (e.1.text, normalize e.2) ∈ fields
  | _ => False

section
variable {entries : List (Key × Raw)} (hkeys : (Assoc.keys entries).Nodup)
include hkeys

theorem whole_list (hseq : Sequential entries) : Whole entries (normalize (.table entries)) := by
  have hnodup := nodup_normalizeEntries hkeys
  have hseq' := sequential_normalizeEntries.mpr hseq
  rw [normalize_list hkeys hseq]
  refine ⟨?_, ?_⟩
  · rw [length_inOrder hnodup hseq', length_normalizeEntries]
  · rintro ⟨k, raw⟩ he
    obtain ⟨i, -, -, rfl⟩ := (hseq k).mp (Assoc.mem_keys.mpr ⟨raw, he⟩)
    exact List.mem_of_getElem? (getElem?_inOrder hnodup hseq' (mem_normalizeEntries he))

theorem nodup_text_list (hseq : Sequential entries) : ((Assoc.keys entries).map Key.text).Nodup := by
  refine List.Nodup.map_on ?_ hkeys
  intro j hj k hk htext
  obtain ⟨m, -, -, rfl⟩ := (hseq j).mp hj
  obtain ⟨n, -, -, rfl⟩ := (hseq k).mp hk
  rw [Key.text_int_inj htext]

theorem whole_map_iff (hseq : ¬ Sequential entries) :
    Whole entries (normalize (.table entries)) ↔ ((Assoc.keys entries).map Key.text).Nodup := by
  rw [normalize_map hkeys hseq]
  constructor
  · rintro ⟨hlength, -⟩
    -- the keys of the map are among the texts, and as many
    have hsubset : Assoc.keys (Assoc.ofList (texts entries)) ⊆ Assoc.keys (texts entries) := by
      intro t ht
      obtain ⟨v, hv⟩ := Assoc.mem_keys.mp ht
      exact Assoc.mem_keys.mpr ⟨v, Assoc.mem_of_mem_ofList hv⟩
    have hle : (Assoc.keys (texts entries)).length ≤ (Assoc.keys (Assoc.ofList (texts entries))).length := by
      rw [Assoc.keys, Assoc.keys, List.length_map, List.length_map, hlength, texts, List.length_map]
    have hperm := ((Assoc.nodup_ofList (texts entries)).subperm hsubset).perm_of_length_le hle
    rw [← keys_texts]
    exact hperm.nodup (Assoc.nodup_ofList _)
  · intro hnodup
    rw [Assoc.ofList_of_nodup (by rwa [keys_texts])]
    refine ⟨List.length_map _, ?_⟩
    intro e he
    exact List.mem_map.mpr ⟨e, he, rfl⟩

end

/-- **What a table keeps.** Every entry has an item or an entry of its own exactly when no two keys have
the same text: a list is always whole, and a map has each text once, where it first stands, with the
value of the last entry whose key has it. In what is read from a text, only a string can have the
text of another key. -/
theorem normalize_whole_iff :
    (∀ entries : List (Key × Raw), (Assoc.keys entries).Nodup →
      (Whole entries (normalize (.table entries)) ↔ ((Assoc.keys entries).map Key.text).Nodup) ∧
      ((∃ items, normalize (.table entries) = .list items ∧ Whole entries (.list items)) ∨
        ∃ fields, normalize (.table entries) = .map fields ∧
          Assoc.keys fields = ((Assoc.keys entries).map Key.text).eraseDups ∧
          ∀ t, Assoc.get? t fields = Assoc.get? t (texts entries).reverse)) ∧
    ∀ (s : List Char) (raw : Raw), Raw.read s = .ok raw → raw.Keyed := by
  refine ⟨fun entries hkeys => ?_, fun _ _ h => keyed_built.read h⟩
  by_cases hseq : Sequential entries
  · have hwhole := whole_list hkeys hseq
    refine ⟨⟨fun _ => nodup_text_list hkeys hseq, fun _ => hwhole⟩, .inl ⟨_, normalize_list hkeys hseq, ?_⟩⟩
    rwa [normalize_list hkeys hseq] at hwhole
  · refine ⟨whole_map_iff hkeys hseq, .inr ⟨_, normalize_map hkeys hseq, ?_, ?_⟩⟩
    · rw [Assoc.keys_ofList, keys_texts]
    · intro t
      rw [Assoc.get?_ofList]

/-- A table that is kept whole, and one that is read and is not. -/
theorem normalize_whole_iff_mixed :
    Whole [(.int 1, .scalar (.boolean true)), (.str "a", .scalar (.boolean false))]
      (normalize (.table [(.int 1, .scalar (.boolean true)), (.str "a", .scalar (.boolean false))])) ∧
    (Raw.table [(.int 1, .scalar (.boolean true)), (.str "1", .scalar (.boolean false))]).Keyed := by
  constructor
  · exact (normalize_whole_iff.1 _ (by decide)).1.mpr (by decide +kernel)
  · have hread : Raw.read ['{', 't', 'r', 'u', 'e', ',', '[', '"', '1', '"', ']', '=', 'f', 'a', 'l', 's', 'e', '}'] =
        .ok (.table [(.int 1, .scalar (.boolean true)), (.str "1", .scalar (.boolean false))]) := rfl
    exact normalize_whole_iff.2 _ _ hread

/-- A positional entry and the string that spells its key are one key of the map, and the value of the first is lost. -/
theorem normalize_collides :
    Raw.read ['{', '"', 'a', '"', ',', '[', '"', '1', '"', ']', '=', '"', 'b', '"', '}'] =
      .ok (.table [(.int 1, .scalar (.string "a")), (.str "1", .scalar (.string "b"))]) ∧
    normalize (.table [(.int 1, .scalar (.string "a")), (.str "1", .scalar (.string "b"))]) =
      .map [("1", .string "b")] ∧
    ¬ Whole [(.int 1, .scalar (.string "a")), (.str "1", .scalar (.string "b"))]
      (normalize (.table [(.int 1, .scalar (.string "a")), (.str "1", .scalar (.string "b"))])) := by
  have hmap : normalize (.table [(.int 1, .scalar (.string "a")), (.str "1", .scalar (.string "b"))]) =
      .map [("1", .string "b")] := rfl
  refine ⟨rfl, hmap, ?_⟩
  rw [hmap]
  rintro ⟨hlength, -⟩
  cases hlength

end RemoteConsole.Table
