import RemoteConsole.Proofs.Table.RoundTrip

/-!
# Literals determine values

A literal that something ends is read in one way only, so two texts that begin with literals agree
only if these are literals of the same tree. What a tree denotes is the canonical form of a value:
two values have one literal exactly when they have one canonical form.
-/

namespace RemoteConsole.Table

open Text

/-! ## One canonical form, one literal -/

theorem literal_canon (v : Value) : v.canon.literal = v.literal := by
  induction v using Value.ind with
  | hnil | hboolean | hinteger | hnumber | hstring => rfl
  | hlist items ih =>
    have hitems : items.map (Value.literal ∘ Value.canon) = items.map Value.literal := List.map_congr_left ih
    rw [Value.canon, Value.canonItems_eq, Value.literal, Value.literal, literalItems_joined, literalItems_joined,
      List.map_map, hitems]
  | hmap entries ih =>
    cases entries with
    | nil => rfl
    | cons e entries =>
      have hentries : (e :: entries).map (literalEntry ∘ fun f => (f.1, f.2.canon)) = (e :: entries).map literalEntry := by
        apply List.map_congr_left
        intro f hf
        obtain ⟨key, v⟩ := f
        simp only [Function.comp_apply, literalEntry, ih _ hf]
      rw [Value.canon, Value.canonEntries_eq, Value.literal, Value.literal, literalEntries_joined,
        literalEntries_joined, List.map_map, hentries]

theorem canon_eq_of_node {v w : Value} (hv : v.DistinctKeys) (hw : w.DistinctKeys) (h : v.node = w.node) :
    v.canon = w.canon := by
  obtain ⟨raw, hraw, hcanon⟩ := denotes_node v hv
  obtain ⟨raw', hraw', hcanon'⟩ := denotes_node w hw
  rw [h, hraw'] at hraw
  cases hraw
  rw [← hcanon, hcanon']

/-! ## Literals in front of other text -/

variable {rest rest' : List Char}

theorem literal_append_inj {v w : Value} (hr : Ends rest) (hr' : Ends rest')
    (h : v.literal ++ rest = w.literal ++ rest') : v.node = w.node ∧ rest = rest' := by
  have hv := spells_literal v (2 * (v.literal ++ rest).length + 1) rest hr (Nat.le_refl _)
  have hw := spells_literal w (2 * (w.literal ++ rest').length + 1) rest' hr' (Nat.le_refl _)
  rw [h, hw] at hv
  obtain ⟨hnode, hrest⟩ := Prod.mk.inj (Option.some.inj hv)
  exact ⟨hnode.symm, hrest.symm⟩

theorem quote_append_inj {s t : String} (h : quote s.toList ++ ']' :: rest = quote t.toList ++ ']' :: rest') :
    s = t ∧ rest = rest' := by
  obtain ⟨hnode, hrest⟩ := literal_append_inj (v := .string s) (w := .string t) (ends_bracket _) (ends_bracket _) h
  have hcanon := canon_eq_of_node (.string s) (.string t) hnode
  cases hcanon
  cases hrest
  exact ⟨rfl, rfl⟩

def further (v : Value) : List Char := ',' :: ' ' :: v.literal

theorem literalItems_cons (v : Value) (items : List Value) :
    literalItems (v :: items) = v.literal ++ items.flatMap further := by
  induction items generalizing v with
  | nil => simp [literalItems]
  | cons w items ih => simp [literalItems, ih, further]

theorem ends_paren (s : List Char) : Ends (')' :: s) := ends_cons s (by decide)

theorem ends_further (items : List Value) (s : List Char) : Ends (items.flatMap further ++ ')' :: s) := by
  cases items with
  | nil => exact ends_paren s
  | cons v items => exact ends_comma _

theorem further_append_inj {items items' : List Value}
    (h : items.flatMap further ++ ')' :: rest = items'.flatMap further ++ ')' :: rest') :
    items.map Value.node = items'.map Value.node ∧ rest = rest' := by
  induction items generalizing items' with
  | nil =>
    cases items' with
    | nil =>
      cases h
      exact ⟨rfl, rfl⟩
    | cons w items' => cases h
  | cons v items ih =>
    cases items' with
    | nil => cases h
    | cons w items' =>
      simp only [List.flatMap_cons, further, List.cons_append, List.append_assoc, List.cons.injEq, true_and] at h
      obtain ⟨hnode, hmore⟩ := literal_append_inj (ends_further items rest) (ends_further items' rest') h
      obtain ⟨hnodes, hrest⟩ := ih hmore
      exact ⟨by rw [List.map_cons, List.map_cons, hnode, hnodes], hrest⟩

theorem literalItems_append_inj {v w : Value} {items items' : List Value}
    (h : literalItems (v :: items) ++ ')' :: rest = literalItems (w :: items') ++ ')' :: rest') :
    (v :: items).map Value.node = (w :: items').map Value.node ∧ rest = rest' := by
  rw [literalItems_cons, literalItems_cons, List.append_assoc, List.append_assoc] at h
  obtain ⟨hnode, hmore⟩ := literal_append_inj (ends_further items rest) (ends_further items' rest') h
  obtain ⟨hnodes, hrest⟩ := further_append_inj hmore
  exact ⟨by rw [List.map_cons, List.map_cons, hnode, hnodes], hrest⟩

theorem map_canon_eq_of_node {items items' : List Value} (hv : ∀ v ∈ items, v.DistinctKeys)
    (hw : ∀ v ∈ items', v.DistinctKeys) (h : items.map Value.node = items'.map Value.node) :
    items.map Value.canon = items'.map Value.canon := by
  induction items generalizing items' with
  | nil =>
    cases items' with
    | nil => rfl
    | cons w items' => cases h
  | cons v items ih =>
    cases items' with
    | nil => cases h
    | cons w items' =>
      obtain ⟨hnode, hnodes⟩ := List.cons.inj h
      have hhead := canon_eq_of_node (hv v List.mem_cons_self) (hw w List.mem_cons_self) hnode
      have htail := ih (fun v h => hv v (List.mem_cons_of_mem _ h)) (fun v h => hw v (List.mem_cons_of_mem _ h)) hnodes
      rw [List.map_cons, List.map_cons, hhead, htail]

theorem literalItems_congr {items items' : List Value} (h : items.map Value.canon = items'.map Value.canon) :
    literalItems items = literalItems items' := by
  have hliteral (l : List Value) : l.map Value.literal = (l.map Value.canon).map Value.literal := by
    rw [List.map_map]
    exact (List.map_congr_left fun v _ => literal_canon v).symm
  rw [literalItems_joined, literalItems_joined, hliteral, h, ← hliteral]

end RemoteConsole.Table
