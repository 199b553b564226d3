import RemoteConsole.Value.Basic

/-!
# Values as tables keep them

A table cannot tell an empty map from an empty list. `Value.canon` puts the list
for the map at every depth and changes nothing else. A value without an empty
map is canonical.
-/

namespace RemoteConsole

theorem eq_map {α β : Type} {f : α → β} {F : List α → List β} (hnil : F [] = []) (hcons : ∀ a l, F (a :: l) = f a :: F l)
    (l : List α) : F l = l.map f := by
  induction l with
  | nil => exact hnil
  | cons a l ih => rw [hcons, ih, List.map_cons]

namespace Value

/-- Induction on values, with the hypothesis for every item and every entry. -/
theorem ind {P : Value → Prop} (hnil : P .nil) (hboolean : ∀ b, P (.boolean b)) (hinteger : ∀ i, P (.integer i))
    (hnumber : ∀ n, P (.number n)) (hstring : ∀ s, P (.string s))
    (hlist : ∀ items, (∀ v ∈ items, P v) → P (.list items))
    (hmap : ∀ entries, (∀ e ∈ entries, P e.2) → P (.map entries)) (v : Value) : P v := by
  refine @Value.rec P (fun items => ∀ v ∈ items, P v) (fun entries => ∀ e ∈ entries, P e.2) (fun e => P e.2)
    hnil hboolean hinteger hnumber hstring hlist hmap ?_ ?_ ?_ ?_ ?_ v
  · simp
  · intro v items hv hitems w hw
    rcases List.mem_cons.mp hw with rfl | h
    · exact hv
    · exact hitems w h
  · simp
  · intro e entries he hentries f hf
    rcases List.mem_cons.mp hf with rfl | h
    · exact he
    · exact hentries f h
  · intro k v hv; exact hv

mutual

def canon : Value → Value
  | list items => list (canonItems items)
  | map [] => list []
  | map (e :: entries) => map (canonEntries (e :: entries))
  | v => v

def canonItems : List Value → List Value
  | [] => []
  | v :: rest => v.canon :: canonItems rest

def canonEntries : List (String × Value) → List (String × Value)
  | [] => []
  | (k, v) :: rest => (k, v.canon) :: canonEntries rest

end

theorem canonItems_eq (items : List Value) : canonItems items = items.map canon :=
  eq_map rfl (fun _ _ => rfl) items

theorem canonEntries_eq (entries : List (String × Value)) :
    canonEntries entries = entries.map fun e => (e.1, e.2.canon) :=
  eq_map rfl (fun _ _ => rfl) entries

/-- The keys of every map are distinct, at every depth. -/
inductive DistinctKeys : Value → Prop where
  | nil : DistinctKeys .nil
  | boolean (b : Bool) : DistinctKeys (.boolean b)
  | integer (i : Int64) : DistinctKeys (.integer i)
  | number (n : Double) : DistinctKeys (.number n)
  | string (s : String) : DistinctKeys (.string s)
  | list {items : List Value} : (∀ v ∈ items, DistinctKeys v) → DistinctKeys (.list items)
  | map {entries : List (String × Value)} : (Assoc.keys entries).Nodup → (∀ e ∈ entries, DistinctKeys e.2) →
      DistinctKeys (.map entries)

/-- No map is empty, at any depth. -/
inductive NoEmptyMap : Value → Prop where
  | nil : NoEmptyMap .nil
  | boolean (b : Bool) : NoEmptyMap (.boolean b)
  | integer (i : Int64) : NoEmptyMap (.integer i)
  | number (n : Double) : NoEmptyMap (.number n)
  | string (s : String) : NoEmptyMap (.string s)
  | list {items : List Value} : (∀ v ∈ items, NoEmptyMap v) → NoEmptyMap (.list items)
  | map {entries : List (String × Value)} : entries ≠ [] → (∀ e ∈ entries, NoEmptyMap e.2) →
      NoEmptyMap (.map entries)

theorem NoEmptyMap.canon_eq {v : Value} (h : v.NoEmptyMap) : v.canon = v := by
  induction v using ind with
  | hnil | hboolean | hinteger | hnumber | hstring => rfl
  | hlist items ih =>
    cases h with
    | list hi =>
      rw [canon, canonItems_eq, List.map_congr_left fun v hv => ih v hv (hi v hv), List.map_id']
  | hmap entries ih =>
    cases h with
    | map hne he =>
      obtain ⟨e, rest, rfl⟩ := List.exists_cons_of_ne_nil hne
      have hmap : (e :: rest).map (fun e => (e.1, e.2.canon)) = e :: rest := by
        rw [List.map_congr_left (g := id) fun e h => by rw [ih e h (he e h)]; rfl, List.map_id]
      rw [canon, canonEntries_eq, hmap]

end Value

end RemoteConsole
