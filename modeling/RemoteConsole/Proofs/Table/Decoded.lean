import RemoteConsole.Proofs.Table.RoundTrip

/-!
# What decoding gives

A scalar that a text spells is neither a list nor a map. Lists and maps come
from tables alone: the table without entries is a list, and the keys of a map
are put together, so no map is empty and none repeats a key.
-/

namespace RemoteConsole.Table

def Scalar : Value → Prop
  | .list _ => False
  | .map _ => False
  | _ => True

inductive Raw.Plain : Raw → Prop where
  | scalar {v : Value} : Scalar v → Plain (.scalar v)
  | table {entries : List (Key × Raw)} : (∀ e ∈ entries, Plain e.2) → Plain (.table entries)

/-! ## Building -/

theorem double?_scalar {text : List Char} {v : Value} (h : double? text = .ok v) : Scalar v := by
  unfold double? at h
  split at h
  · cases h; trivial
  · cases h

theorem hexadecimal_scalar {negative : Bool} {hex text : List Char} {v : Value}
    (h : (match hexInteger? negative hex with
      | some i => Except.ok (Value.integer i)
      | none => Except.error (ReadError.literal text .hexOutOfRange)) = Except.ok v) : Scalar v := by
  cases hi : hexInteger? negative hex with
  | none => rw [hi] at h; cases h
  | some i => rw [hi] at h; cases h; trivial

theorem numberOf_scalar {text : List Char} {v : Value} (h : numberOf text = .ok v) : Scalar v := by
  unfold numberOf at h
  simp only at h
  split at h
  · exact hexadecimal_scalar h
  · exact hexadecimal_scalar h
  · split at h
    · exact double?_scalar h
    · split at h
      · cases h; trivial
      · exact double?_scalar h

/-- The keys that a table may hold: a literal is that of a double or of a boolean. -/
inductive Key.Made : Key → Prop
  | int (i : Int) : Made (.int i)
  | str (s : String) : Made (.str s)
  | number (d : Double) : Made (.other (String.ofList d.literal))
  | boolean (b : Bool) : Made (.other (if b then "true" else "false"))

theorem keyOf_made {raw : Raw} {k : Key} (h : keyOf raw = .ok k) : k.Made := by
  cases raw with
  | table entries => cases h
  | scalar v =>
    cases v with
    | number d =>
      rw [keyOf] at h
      cases ht : d.truncate? with
      | none =>
        simp only [ht] at h
        cases h
        exact .number d
      | some i =>
        simp only [ht] at h
        split at h
        · cases h
          exact .int i
        · cases h
          exact .number d
    | integer i =>
      cases h
      exact .int _
    | string s =>
      cases h
      exact .str s
    | boolean b =>
      cases h
      exact .boolean b
    | _ => cases h

structure Built (P : Raw → Prop) (Q : List (Key × Raw) → Prop) : Prop where
  scalar : ∀ v, Scalar v → P (.scalar v)
  nil : Q []
  put : ∀ entries k raw, Q entries → Key.Made k → P raw → Q (Assoc.put k raw entries)
  table : ∀ entries, Q entries → P (.table entries)

section
variable {P : Raw → Prop} {Q : List (Key × Raw) → Prop} (hbuilt : Built P Q)
include hbuilt

mutual

theorem ofNode_built : ∀ (node : Node) {raw : Raw}, Raw.ofNode node = .ok raw → P raw
  | .table fields, raw, h => by
    rw [Raw.ofNode] at h
    obtain ⟨entries, he, h⟩ := exists_of_bind_ok h
    cases h
    exact hbuilt.table _ (entriesOf_built fields he hbuilt.nil)
  | .special d, raw, h => by
    cases h
    exact hbuilt.scalar _ trivial
  | .number text, raw, h => by
    rw [Raw.ofNode] at h
    obtain ⟨v, hv, h⟩ := exists_of_bind_ok h
    cases h
    exact hbuilt.scalar v (numberOf_scalar hv)
  | .string body, raw, h => by
    rw [Raw.ofNode] at h
    obtain ⟨s, _, h⟩ := exists_of_bind_ok h
    cases h
    exact hbuilt.scalar _ trivial
  | .boolean b, raw, h => by
    cases h
    exact hbuilt.scalar _ trivial
  | .nil, raw, h => by
    cases h
    exact hbuilt.scalar _ trivial

theorem entriesOf_built : ∀ (fields : List Field) {next : Nat} {entries out : List (Key × Raw)},
    entriesOf fields next entries = .ok out → Q entries → Q out
  | [], next, entries, out, h, he => by
    cases h
    exact he
  | .positional node :: fields, next, entries, out, h, he => by
    rw [entriesOf] at h
    obtain ⟨raw, hraw, h⟩ := exists_of_bind_ok h
    exact entriesOf_built fields h (hbuilt.put _ _ _ he (.int _) (ofNode_built node hraw))
  | .named name node :: fields, next, entries, out, h, he => by
    rw [entriesOf] at h
    obtain ⟨raw, hraw, h⟩ := exists_of_bind_ok h
    exact entriesOf_built fields h (hbuilt.put _ _ _ he (.str _) (ofNode_built node hraw))
  | .keyed keyNode node :: fields, next, entries, out, h, he => by
    rw [entriesOf] at h
    obtain ⟨rawKey, _, h⟩ := exists_of_bind_ok h
    obtain ⟨key, hkey, h⟩ := exists_of_bind_ok h
    obtain ⟨raw, hraw, h⟩ := exists_of_bind_ok h
    exact entriesOf_built fields h (hbuilt.put _ _ _ he (keyOf_made hkey) (ofNode_built node hraw))

end

theorem Built.read {text : List Char} {raw : Raw} (h : Raw.read text = .ok raw) : P raw := by
  unfold Raw.read at h
  split at h
  · exact ofNode_built hbuilt _ h
  · cases h

end

theorem plain_put {key : Key} {raw : Raw} {entries : List (Key × Raw)} (he : ∀ e ∈ entries, e.2.Plain) (h : raw.Plain) :
    ∀ e ∈ Assoc.put key raw entries, e.2.Plain := by
  intro e hm
  rcases Assoc.mem_put hm with rfl | hm
  · exact h
  · exact he e hm

theorem plain_built : Built Raw.Plain fun entries => ∀ e ∈ entries, e.2.Plain where
  scalar _ h := .scalar h
  nil := List.forall_mem_nil _
  put _ _ _ he _ h := plain_put he h
  table _ h := .table h

theorem read_plain {text : List Char} {raw : Raw} (h : Raw.read text = .ok raw) : raw.Plain :=
  plain_built.read h

/-! ## Arranging -/

theorem mem_inOrder {α : Type} {entries : List (Key × α)} {a : α} (h : a ∈ inOrder entries) :
    ∃ k, (k, a) ∈ entries := by
  rw [inOrder, List.mem_filterMap] at h
  obtain ⟨i, _, h⟩ := h
  exact ⟨_, Assoc.mem_of_get? h⟩

theorem arrange_of {P : Value → Prop} {entries : List (Key × Value)} (h : ∀ e ∈ entries, P e.2)
    (hlist : ∀ items, (∀ v ∈ items, P v) → P (.list items))
    (hmap : ∀ fields, fields ≠ [] → (Assoc.keys fields).Nodup → (∀ e ∈ fields, P e.2) → P (.map fields)) :
    P (arrange entries) := by
  unfold arrange
  split
  · refine hlist _ fun v hv => ?_
    obtain ⟨k, hk⟩ := mem_inOrder hv
    exact h _ hk
  · rename_i hseq
    have hne : entries ≠ [] := by
      rintro rfl
      exact hseq rfl
    refine hmap _ (Assoc.ofList_ne_nil (by simpa using hne)) (Assoc.nodup_ofList _) fun e he => ?_
    obtain ⟨e', he', rfl⟩ := List.mem_map.mp (Assoc.mem_of_mem_ofList he)
    exact h e' he'

/-- The values that decoding can give. -/
def Readable (v : Value) : Prop := v.NoEmptyMap ∧ v.DistinctKeys

theorem readable_scalar {v : Value} (h : Scalar v) : Readable v := by
  cases v with
  | nil => exact ⟨.nil, .nil⟩
  | boolean b => exact ⟨.boolean b, .boolean b⟩
  | integer i => exact ⟨.integer i, .integer i⟩
  | number n => exact ⟨.number n, .number n⟩
  | string s => exact ⟨.string s, .string s⟩
  | list items => exact h.elim
  | map entries => exact h.elim

mutual

theorem normalize_readable : ∀ (raw : Raw), raw.Plain → Readable (normalize raw)
  | .scalar v, h => by
    cases h with
    | scalar h => exact readable_scalar h
  | .table entries, h => by
    cases h with
    | table h =>
      refine arrange_of (normalizeEntries_readable entries h) (fun items hi => ?_) fun fields hne hk hf => ?_
      · exact ⟨.list fun v hv => (hi v hv).1, .list fun v hv => (hi v hv).2⟩
      · exact ⟨.map hne fun e he => (hf e he).1, .map hk fun e he => (hf e he).2⟩

theorem normalizeEntries_readable : ∀ (entries : List (Key × Raw)), (∀ e ∈ entries, e.2.Plain) →
    ∀ e ∈ normalizeEntries entries, Readable e.2
  | [], _ => by simp [normalizeEntries]
  | (k, raw) :: entries, h => by
    rw [normalizeEntries]
    intro e he
    rcases List.mem_cons.mp he with rfl | he
    · exact normalize_readable raw (h (k, raw) (by simp))
    · exact normalizeEntries_readable entries (fun e he => h e (by simp [he])) e he

end

theorem decode_readable {text : List Char} {v : Value} (h : decode text = .ok v) : Readable v := by
  unfold decode at h
  cases hraw : Raw.read text with
  | error e => rw [hraw] at h; cases h
  | ok raw =>
    rw [hraw] at h
    cases h
    exact normalize_readable raw (read_plain hraw)

/-- Writing and reading gives the canonical form; what is read from any text is unchanged by it. -/
theorem decode_toLiteral :
    (∀ v : Value, v.DistinctKeys → decode v.toLiteral.toList = .ok v.canon) ∧
    ∀ (text : List Char) (v : Value), decode text = .ok v → v.NoEmptyMap ∧ decode v.toLiteral.toList = .ok v := by
  have hwrite : ∀ v : Value, v.DistinctKeys → decode v.toLiteral.toList = .ok v.canon := by
    intro v h
    rw [Value.toLiteral, String.toList_ofList]
    exact decode_literal h
  refine ⟨hwrite, fun text v h => ?_⟩
  obtain ⟨hempty, hkeys⟩ := decode_readable h
  refine ⟨hempty, ?_⟩
  rw [hwrite v hkeys, hempty.canon_eq]

/-- A map with odd keys that holds an empty map, nil and the numbers that compare unlike the others. -/
theorem decode_toLiteral_map :
    decode (Value.map [("1", .list [.nil, .map [], .number .nan]), ("end", .number (.infinite true)),
      ("", .number (.finite true ⟨0, by decide⟩))]).toLiteral.toList =
        .ok (.map [("1", .list [.nil, .list [], .number .nan]), ("end", .number (.infinite true)),
          ("", .number (.finite true ⟨0, by decide⟩))]) ∧
    decode (Value.map [("k", .list [])]).toLiteral.toList = .ok (.map [("k", .list [])]) := by
  constructor
  · refine decode_toLiteral.1 _ (.map (by decide) ?_)
    simp only [List.forall_mem_cons]
    refine ⟨.list ?_, .number _, .number _, by simp⟩
    simp only [List.forall_mem_cons]
    exact ⟨.nil, .map (by decide) (by simp), .number _, by simp⟩
  · exact (decode_toLiteral.2 ['{', 'k', '=', '{', '}', '}'] _ rfl).2

end RemoteConsole.Table
