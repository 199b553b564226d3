import RemoteConsole.Proofs.Reply.Envelope

/-!
# Cleaning twice

An inventory entry is told by its name and its count, which are scalars, and cleaning neither changes
a scalar nor makes one. So an element is an entry after cleaning exactly when it was one before, and
what did not collapse the first time does not collapse the second time.
-/

namespace RemoteConsole.Reply

/-- A map with a name that is a string and a count that is a number. -/
structure Entry (v : Value) (name : String) (count : Value) : Prop where
  named : v.get? "name" = some (.string name)
  counted : v.get? "count" = some count
  numeric : Numeric count

/-- Elements that collapse: there are some, and each is an entry. -/
def Inventory (elements : List Value) : Prop :=
  elements ≠ [] ∧ ∀ v ∈ elements, ∃ name count, Entry v name count

theorem inventoryEntry?_eq_some {v : Value} {name : String} {count : Value} :
    inventoryEntry? v = some (name, count) ↔ Entry v name count := by
  constructor
  · intro h
    unfold inventoryEntry? at h
    split at h
    · next hname hcount =>
      cases h
      exact ⟨hname, hcount, .inl ⟨_, rfl⟩⟩
    · next hname hcount =>
      cases h
      exact ⟨hname, hcount, .inr ⟨_, rfl⟩⟩
    · cases h
  · intro h
    rcases h.numeric with ⟨i, hi⟩ | ⟨n, hn⟩
    · subst hi
      unfold inventoryEntry?
      rw [h.named, h.counted]
    · subst hn
      unfold inventoryEntry?
      rw [h.named, h.counted]

theorem mapM_isSome {α β : Type} {f : α → Option β} : ∀ {l : List α}, (∀ a ∈ l, (f a).isSome) → (l.mapM f).isSome
  | [], _ => rfl
  | a :: l, h => by
    obtain ⟨b, hb⟩ := Option.isSome_iff_exists.mp (h a (by simp))
    obtain ⟨m, hm⟩ := Option.isSome_iff_exists.mp (mapM_isSome fun a ha => h a (List.mem_cons_of_mem _ ha))
    rw [List.mapM_cons, hb, hm]
    rfl

theorem collapse?_isSome_iff {elements : List Value} : (collapse? elements).isSome ↔ Inventory elements := by
  constructor
  · intro h
    obtain ⟨v, hv⟩ := Option.isSome_iff_exists.mp h
    refine ⟨?_, ?_⟩
    · intro hnil
      subst hnil
      cases hv
    · intro x hx
      obtain ⟨⟨name, count⟩, he⟩ := (collapse?_cases hv).1 x hx
      exact ⟨name, count, inventoryEntry?_eq_some.mp he⟩
  · rintro ⟨hne, hentries⟩
    rw [collapse?, if_neg (by simpa using hne), Option.isSome_map]
    apply mapM_isSome
    intro x hx
    obtain ⟨name, count, he⟩ := hentries x hx
    rw [inventoryEntry?_eq_some.mpr he]
    rfl

/-! ## Entries before and after -/

theorem Numeric.scalar {v : Value} (h : Numeric v) : Table.Scalar v := by
  rcases h with ⟨i, rfl⟩ | ⟨n, rfl⟩
  · exact trivial
  · exact trivial

theorem scalar_string (s : String) : Table.Scalar (.string s) := trivial

theorem not_entry_of_collapse {elements : List Value} {v count : Value} {name : String}
    (h : collapse? elements = some v) : ¬ Entry v name count := by
  obtain ⟨-, inventory, rfl, hnumeric⟩ := collapse?_cases h
  intro he
  rcases hnumeric _ (Assoc.mem_of_get? he.named) with ⟨i, hi⟩ | ⟨n, hn⟩
  · cases hi
  · cases hn

theorem Entry.cleaned {v count : Value} {name : String} (h : Entry v name count) : Entry (clean v) name count := by
  cases v with
  | map entries =>
    have hname : Assoc.get? "name" entries = some (.string name) := h.named
    have hcount : Assoc.get? "count" entries = some count := h.counted
    rw [clean_map_of_scalar (scalar_string name) hname]
    refine ⟨?_, ?_, h.numeric⟩
    · rw [Value.get?, get?_cleanEntries, hname]
      rfl
    · rw [Value.get?, get?_cleanEntries, hcount, Option.map_some, clean_of_scalar h.numeric.scalar]
  | _ => cases h.named

theorem Entry.of_cleaned {v count : Value} {name : String} (h : Entry (clean v) name count) : Entry v name count := by
  cases v with
  | map entries =>
    rw [clean] at h
    cases hc : collapse? (entries.map Prod.snd) with
    | some w =>
      rw [hc] at h
      exact absurd h (not_entry_of_collapse hc)
    | none =>
      rw [hc] at h
      have hname : (Assoc.get? "name" entries).map clean = some (.string name) := by
        rw [← get?_cleanEntries]
        exact h.named
      have hcount : (Assoc.get? "count" entries).map clean = some count := by
        rw [← get?_cleanEntries]
        exact h.counted
      obtain ⟨x, hx, hxname⟩ := Option.map_eq_some_iff.mp hname
      obtain ⟨y, hy, hycount⟩ := Option.map_eq_some_iff.mp hcount
      rw [clean_eq_scalar (scalar_string name) hxname] at hx
      rw [clean_eq_scalar h.numeric.scalar hycount] at hy
      exact ⟨hx, hy, h.numeric⟩
  | list items =>
    rw [clean] at h
    cases hc : collapse? items with
    | some w =>
      rw [hc] at h
      exact absurd h (not_entry_of_collapse hc)
    | none =>
      rw [hc] at h
      cases h.named
  | _ => exact h

theorem entry_clean_iff {v count : Value} {name : String} : Entry (clean v) name count ↔ Entry v name count :=
  ⟨Entry.of_cleaned, Entry.cleaned⟩

theorem inventory_clean_iff {elements : List Value} : Inventory (elements.map clean) ↔ Inventory elements := by
  simp [Inventory, entry_clean_iff]

theorem collapse?_clean {elements : List Value} (h : collapse? elements = none) :
    collapse? (elements.map clean) = none := by
  rw [← Option.not_isSome_iff_eq_none, collapse?_isSome_iff] at h ⊢
  rwa [inventory_clean_iff]

/-! ## Values before and after -/

theorem cleanItems_eq (items : List Value) : cleanItems items = items.map clean :=
  eq_map rfl (fun _ _ => rfl) items

theorem cleanEntries_eq (entries : List (String × Value)) :
    cleanEntries entries = entries.map fun e => (e.1, clean e.2) :=
  eq_map rfl (fun _ _ => rfl) entries

theorem clean_list {items : List Value} (h : collapse? items = none) : clean (.list items) = .list (items.map clean) := by
  rw [clean, h, cleanItems_eq]
  rfl

theorem clean_map {entries : List (String × Value)} (h : collapse? (entries.map Prod.snd) = none) :
    clean (.map entries) = .map (entries.map fun e => (e.1, clean e.2)) := by
  rw [clean, h, cleanEntries_eq]
  rfl

/-- An inventory that is collapsed is clean. -/
theorem clean_of_collapse {elements : List Value} {v : Value} (h : collapse? elements = some v) : clean v = v := by
  obtain ⟨-, inventory, rfl, hnumeric⟩ := collapse?_cases h
  have hnone : collapse? (inventory.map Prod.snd) = none := by
    cases inventory with
    | nil => rfl
    | cons e inventory => exact collapse?_scalar (hnumeric e (by simp)).scalar (by simp)
  have hsame : (inventory.map fun e => (e.1, clean e.2)) = inventory := by
    rw [List.map_congr_left (g := id) fun e he => by rw [clean_of_scalar (hnumeric e he).scalar]; rfl, List.map_id]
  rw [clean_map hnone, hsame]

theorem clean_clean (v : Value) : clean (clean v) = clean v := by
  induction v using Value.ind with
  | hnil | hboolean | hinteger | hnumber | hstring => rfl
  | hlist items ih =>
    cases hc : collapse? items with
    | some w =>
      have hw : clean (.list items) = w := by rw [clean, hc]; rfl
      rw [hw, clean_of_collapse hc]
    | none =>
      have hitems : items.map (clean ∘ clean) = items.map clean := List.map_congr_left ih
      rw [clean_list hc, clean_list (collapse?_clean hc), List.map_map, hitems]
  | hmap entries ih =>
    cases hc : collapse? (entries.map Prod.snd) with
    | some w =>
      have hw : clean (.map entries) = w := by rw [clean, hc]; rfl
      rw [hw, clean_of_collapse hc]
    | none =>
      have hsnd : (entries.map fun e => (e.1, clean e.2)).map Prod.snd = (entries.map Prod.snd).map clean := by
        rw [List.map_map, List.map_map]
        rfl
      have hentries : (entries.map fun e => (e.1, clean e.2)).map (fun e => (e.1, clean e.2)) =
          entries.map fun e => (e.1, clean e.2) := by
        rw [List.map_map]
        apply List.map_congr_left
        intro e he
        simp only [Function.comp_apply, ih e he]
      rw [clean_map hc, clean_map (by rw [hsnd]; exact collapse?_clean hc), hentries]

/-- **Cleaning is stable.** It changes nothing the second time; and it neither makes nor unmakes an
inventory entry, so the elements that collapse after cleaning are those that collapse before. -/
theorem clean_stable :
    (∀ v, clean (clean v) = clean v) ∧
    (∀ v name count, Entry (clean v) name count ↔ Entry v name count) ∧
    ∀ elements, ((collapse? elements).isSome ↔ Inventory elements) ∧
      (Inventory (elements.map clean) ↔ Inventory elements) :=
  ⟨clean_clean, fun _ _ _ => entry_clean_iff, fun _ => ⟨collapse?_isSome_iff, inventory_clean_iff⟩⟩

end RemoteConsole.Reply
