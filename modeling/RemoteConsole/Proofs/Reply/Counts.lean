import RemoteConsole.Proofs.Assoc
import RemoteConsole.Proofs.Reply.Inventory

/-!
# Counts of an inventory

Elements are tallied one after the other. As long as what a name has come to fits an integer, each
step leaves every name that was met where it was first met, with the sum of its counts so far. One
element that is no entry keeps the whole level as it is.
-/

namespace RemoteConsole.Reply

def total (name : String) (counts : List (String × Int64)) : Int :=
  ((counts.filter fun e => e.1 = name).map fun e => e.2.toInt).sum

def Fits (i : Int) : Prop := -9223372036854775808 ≤ i ∧ i ≤ 9223372036854775807

instance (i : Int) : Decidable (Fits i) := inferInstanceAs (Decidable (_ ∧ _))

def integers (counts : List (String × Int64)) : List (String × Value) := counts.map fun e => (e.1, .integer e.2)

/-- The names of some counts where they first appear, each with the sum of its counts. -/
structure Tallied (counts inventory : List (String × Int64)) : Prop where
  names : Assoc.keys inventory = (Assoc.keys counts).eraseDups
  totals : ∀ name i, Assoc.get? name inventory = some i → i.toInt = total name counts

variable {counts inventory : List (String × Int64)} {name : String} {n : Int64}

theorem total_snoc (name : String) (counts : List (String × Int64)) (e : String × Int64) :
    total name (counts ++ [e]) = total name counts + if e.1 = name then e.2.toInt else 0 := by
  unfold total
  rw [List.filter_append, List.map_append, List.sum_append]
  by_cases h : e.1 = name
  · simp [h]
  · simp [h]

theorem total_eq_zero (h : name ∉ Assoc.keys counts) : total name counts = 0 := by
  have hnone : (counts.filter fun e => e.1 = name) = [] := by
    rw [List.filter_eq_nil_iff]
    intro e he hname
    exact h (List.mem_map.mpr ⟨e, he, of_decide_eq_true hname⟩)
  rw [total, hnone]
  rfl

theorem get?_integers (name : String) (counts : List (String × Int64)) :
    Assoc.get? name (integers counts) = (Assoc.get? name counts).map Value.integer := by
  induction counts with
  | nil => rfl
  | cons e counts ih =>
    by_cases h : e.1 = name
    · simp [integers, Assoc.get?, h]
    · simpa [integers, Assoc.get?, h] using ih

theorem integers_put (name : String) (n : Int64) (counts : List (String × Int64)) :
    integers (Assoc.put name n counts) = Assoc.put name (.integer n) (integers counts) :=
  Assoc.map_put Value.integer name n counts

theorem addCounts_integer {a b : Int64} (h : Fits (a.toInt + b.toInt)) :
    addCounts (.integer a) (.integer b) = .integer (Int64.ofInt (a.toInt + b.toInt)) := by
  obtain ⟨hlow, hhigh⟩ := h
  exact if_pos ⟨by omega, by omega⟩

theorem toInt_ofInt_of_fits {i : Int} (h : Fits i) : (Int64.ofInt i).toInt = i := by
  obtain ⟨hlow, hhigh⟩ := h
  exact Int64.toInt_ofInt_of_le (by omega) (by omega)

/-! ## One more element -/

theorem Tallied.snoc {i : Int64} (h : Tallied counts inventory) (hi : i.toInt = total name counts + n.toInt) :
    Tallied (counts ++ [(name, n)]) (Assoc.put name i inventory) := by
  constructor
  · have hnames : Assoc.keys (counts ++ [(name, n)]) = Assoc.keys counts ++ [name] := Assoc.keys_append _ _
    rw [Assoc.keys_put, hnames, Assoc.eraseDups_snoc, h.names]
    simp only [List.mem_eraseDups]
  · intro other j hj
    rw [total_snoc]
    by_cases hother : name = other
    · subst hother
      rw [Assoc.get?_put_self, Option.some.injEq] at hj
      rw [if_pos rfl, ← hj, hi]
    · rw [Assoc.get?_put_ne (Ne.symm hother)] at hj
      rw [if_neg hother, Int.add_zero]
      exact h.totals other j hj

theorem tally_integers (h : Tallied counts inventory) (hfits : Fits (total name counts + n.toInt)) :
    ∃ next, tally (integers inventory) (name, .integer n) = integers next ∧ Tallied (counts ++ [(name, n)]) next := by
  have hget := get?_integers name inventory
  cases hi : Assoc.get? name inventory with
  | some i =>
    rw [hi] at hget
    rw [← h.totals name i hi] at hfits
    refine ⟨Assoc.put name (Int64.ofInt (i.toInt + n.toInt)) inventory, ?_, h.snoc ?_⟩
    · simp only [tally, hget, Option.map_some, addCounts_integer hfits, integers_put]
    · rw [toInt_ofInt_of_fits hfits, h.totals name i hi]
  | none =>
    rw [hi] at hget
    have huncounted : name ∉ Assoc.keys counts := by
      rw [Assoc.get?_eq_none, h.names, List.mem_eraseDups] at hi
      exact hi
    refine ⟨Assoc.put name n inventory, ?_, h.snoc ?_⟩
    · simp only [tally, hget, Option.map_none, integers_put]
    · rw [total_eq_zero huncounted, Int.zero_add]

/-! ## All elements -/

theorem foldl_tally_integers (hfits : ∀ name front, front <+: counts → Fits (total name front)) :
    ∃ inventory, (integers counts).foldl tally [] = integers inventory ∧ Tallied counts inventory := by
  induction counts using List.reverseRecOn with
  | nil => exact ⟨[], rfl, rfl, fun name i hi => by cases hi⟩
  | append_singleton counts e ih =>
    obtain ⟨inventory, hfold, htallied⟩ :=
      ih fun name front hfront => hfits name front (hfront.trans (List.prefix_append counts [e]))
    have hlast := hfits e.1 _ List.prefix_rfl
    rw [total_snoc, if_pos rfl] at hlast
    obtain ⟨next, hnext, htallied⟩ := tally_integers htallied hlast
    refine ⟨next, ?_, htallied⟩
    rw [← hnext, ← hfold, integers, List.map_append, List.foldl_append]
    rfl

theorem mapM_inventoryEntry? {elements : List Value}
    (h : List.Forall₂ (fun v e => Entry v e.1 (.integer e.2)) elements counts) :
    elements.mapM inventoryEntry? = some (integers counts) := by
  induction h with
  | nil => rfl
  | cons hentry _ ih =>
    rw [List.mapM_cons, inventoryEntry?_eq_some.mpr hentry, ih]
    rfl

theorem collapse?_integers {elements : List Value} (hne : elements ≠ [])
    (h : List.Forall₂ (fun v e => Entry v e.1 (.integer e.2)) elements counts)
    (hfits : ∀ name front, front <+: counts → Fits (total name front)) :
    ∃ inventory, collapse? elements = some (.map (integers inventory)) ∧ Tallied counts inventory := by
  obtain ⟨inventory, hfold, htallied⟩ := foldl_tally_integers hfits
  refine ⟨inventory, ?_, htallied⟩
  rw [collapse?, if_neg (by simpa using hne), mapM_inventoryEntry? h, Option.map_some, hfold]

theorem Tallied.of_mem (h : Tallied counts inventory) {e : String × Int64} (he : e ∈ inventory) :
    e.2.toInt = total e.1 counts := by
  have hnodup : (Assoc.keys inventory).Nodup := by
    rw [h.names, ← Assoc.keys_ofList]
    exact Assoc.nodup_ofList counts
  exact h.totals e.1 e.2 (Assoc.get?_of_mem hnodup he)

theorem collapse?_of_not_entry {elements : List Value} (h : ∃ v ∈ elements, ¬ ∃ name count, Entry v name count) :
    collapse? elements = none := by
  rw [← Option.not_isSome_iff_eq_none, collapse?_isSome_iff]
  rintro ⟨-, hentries⟩
  obtain ⟨v, hv, hnot⟩ := h
  exact hnot (hentries v hv)

/-- **Collapsing conserves counts.** Entries with integer counts, of which those of one name never add
up to more than an integer on the way, collapse to the names in the order in which they are met, each
with the sum of its counts. With an element among them that is no entry, the elements are cleaned where
they are. -/
theorem clean_counts :
    (∀ (elements : List Value) (counts : List (String × Int64)), elements ≠ [] →
      List.Forall₂ (fun v e => Entry v e.1 (.integer e.2)) elements counts →
      (∀ name front, front <+: counts → Fits (total name front)) →
        ∃ inventory : List (String × Int64),
          Assoc.keys inventory = (Assoc.keys counts).eraseDups ∧
          (∀ e ∈ inventory, e.2.toInt = total e.1 counts) ∧
          clean (.list elements) = .map (integers inventory) ∧
          ∀ entries, entries.map Prod.snd = elements → clean (.map entries) = .map (integers inventory)) ∧
    (∀ items, (∃ v ∈ items, ¬ ∃ name count, Entry v name count) → clean (.list items) = .list (items.map clean)) ∧
    ∀ entries : List (String × Value), (∃ e ∈ entries, ¬ ∃ name count, Entry e.2 name count) →
      clean (.map entries) = .map (entries.map fun e => (e.1, clean e.2)) := by
  refine ⟨?_, ?_, ?_⟩
  · intro elements counts hne hentries hfits
    obtain ⟨inventory, hcollapse, htallied⟩ := collapse?_integers hne hentries hfits
    refine ⟨inventory, htallied.names, fun e he => htallied.of_mem he, ?_, ?_⟩
    · rw [clean, hcollapse]
      rfl
    · intro entries hvalues
      rw [clean, hvalues, hcollapse]
      rfl
  · intro items hitem
    exact clean_list (collapse?_of_not_entry hitem)
  · rintro entries ⟨e, he, hnot⟩
    exact clean_map (collapse?_of_not_entry ⟨e.2, List.mem_map_of_mem he, hnot⟩)

/-- A name that comes again, with the largest count and one that is taken away; and an entry beside what
is none. -/
theorem clean_counts_coal :
    (∃ inventory : List (String × Int64),
      Assoc.keys inventory = ["coal", "wood"] ∧
      (∀ e ∈ inventory, e.2.toInt = total e.1 [("coal", 9223372036854775807), ("wood", 3), ("coal", -2)]) ∧
      clean (.list [.map [("name", .string "coal"), ("count", .integer 9223372036854775807)],
        .map [("count", .integer 3), ("name", .string "wood")],
        .map [("name", .string "coal"), ("count", .integer (-2))]]) = .map (integers inventory)) ∧
    clean (.list [.map [("name", .string "coal"), ("count", .integer 5)], .string "coal"]) =
      .list ([.map [("name", .string "coal"), ("count", .integer 5)], .string "coal"].map clean) ∧
    clean (.map [("x", .map [("name", .string "coal"), ("count", .integer 5)]), ("y", .string "coal")]) =
      .map [("x", clean (.map [("name", .string "coal"), ("count", .integer 5)])), ("y", clean (.string "coal"))] := by
  have hentries : List.Forall₂ (fun v e => Entry v e.1 (.integer e.2))
      [.map [("name", .string "coal"), ("count", .integer 9223372036854775807)],
        .map [("count", .integer 3), ("name", .string "wood")],
        .map [("name", .string "coal"), ("count", .integer (-2))]]
      [("coal", 9223372036854775807), ("wood", 3), ("coal", -2)] :=
    .cons ⟨rfl, rfl, .inl ⟨_, rfl⟩⟩ (.cons ⟨rfl, rfl, .inl ⟨_, rfl⟩⟩ (.cons ⟨rfl, rfl, .inl ⟨_, rfl⟩⟩ .nil))
  have hfits : ∀ (name : String) (front : List (String × Int64)),
      front <+: [("coal", 9223372036854775807), ("wood", 3), ("coal", -2)] → Fits (total name front) := by
    intro name front hfront
    have hfronts : front = [] ∨ front = [("coal", 9223372036854775807)] ∨
        front = [("coal", 9223372036854775807), ("wood", 3)] ∨ front = [("coal", 9223372036854775807), ("wood", 3), ("coal", -2)] := by
      rw [← List.mem_inits] at hfront
      simpa [List.inits] using hfront
    by_cases hcoal : "coal" = name
    · subst hcoal
      rcases hfronts with rfl | rfl | rfl | rfl
      all_goals exact ⟨by decide, by decide⟩
    · by_cases hwood : "wood" = name
      · subst hwood
        rcases hfronts with rfl | rfl | rfl | rfl
        all_goals exact ⟨by decide, by decide⟩
      · rw [total_eq_zero]
        · exact ⟨by decide, by decide⟩
        · rcases hfronts with rfl | rfl | rfl | rfl
          all_goals simp [Ne.symm hcoal, Ne.symm hwood]
  obtain ⟨inventory, hnames, htotals, hclean, -⟩ := clean_counts.1 _ _ (by simp) hentries hfits
  have hnot : ¬ ∃ name count, Entry (.string "coal") name count := by
    rintro ⟨name, count, hname, -⟩
    cases hname
  exact ⟨⟨inventory, hnames, htotals, hclean⟩, clean_counts.2.1 _ ⟨.string "coal", by simp, hnot⟩,
    clean_counts.2.2 _ ⟨("y", .string "coal"), by simp, hnot⟩⟩

end RemoteConsole.Reply
