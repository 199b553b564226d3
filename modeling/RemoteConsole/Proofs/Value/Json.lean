import Mathlib.Data.List.Sort
import RemoteConsole.Proofs.Assoc
import RemoteConsole.Proofs.Double.Closest
import RemoteConsole.Proofs.Text.ByteOrder
import RemoteConsole.Proofs.Value.Canon
import RemoteConsole.Value.Json

/-!
# Values as JSON, and JSON as values

JSON has no numbers but finite ones and keeps the members of an object in the order of their names. A
value has no integers beyond 64 bits. Apart from that the two conversions undo each other at every
depth: integers and whole numbers are not confused, and an empty map is no empty list.
-/

namespace RemoteConsole

/-! ## Entries in the order of bytes -/

namespace Assoc

variable {α β : Type}

def inByteOrder (entries : List (String × α)) : List (String × α) :=
  entries.insertionSort fun e f => e.1.toUTF8.toList ≤ f.1.toUTF8.toList

theorem pairwise_inByteOrder {entries : List (String × α)} (h : (keys entries).Nodup) :
    (keys (inByteOrder entries)).Pairwise (· < ·) := by
  have htotal : Std.Total fun e f : String × α => e.1.toUTF8.toList ≤ f.1.toUTF8.toList :=
    ⟨fun e f => List.le_total _ _⟩
  have htrans : IsTrans (String × α) fun e f => e.1.toUTF8.toList ≤ f.1.toUTF8.toList :=
    ⟨fun e f g => List.le_trans⟩
  have hsorted := List.pairwise_insertionSort (fun e f : String × α => e.1.toUTF8.toList ≤ f.1.toUTF8.toList) entries
  have hdistinct : (keys (inByteOrder entries)).Nodup := ((List.perm_insertionSort _ entries).map Prod.fst).nodup_iff.mpr h
  refine List.pairwise_map.mpr ((hsorted.and (List.pairwise_map.mp hdistinct)).imp ?_)
  rintro e f ⟨hle, hne⟩
  exact lt_of_le_of_ne (Text.Utf8.toUTF8_le_iff.mp hle) hne

theorem ordered_eq_inByteOrder {entries : List (String × α)} (h : (keys entries).Nodup) :
    ordered entries = inByteOrder entries :=
  eq_of_perm_of_pairwise ((perm_ordered h).trans (List.perm_insertionSort _ _).symm) (pairwise_ordered entries)
    (pairwise_inByteOrder h)

theorem map_inByteOrder (f : α → β) (entries : List (String × α)) :
    (inByteOrder entries).map (fun e => (e.1, f e.2)) = inByteOrder (entries.map fun e => (e.1, f e.2)) :=
  List.map_insertionSort _ _ _ _ fun _ _ _ _ => Iff.rfl

theorem keys_map (f : α → β) (entries : List (String × α)) : keys (entries.map fun e => (e.1, f e.2)) = keys entries :=
  List.map_map

end Assoc

/-! ## What is kept -/

mutual

/-- The value as JSON holds it: numbers that are not finite are nil, and maps are in the order of the bytes of their
keys. -/
def Value.inJson : Value → Value
  | .number n => if n.isFinite then .number n else .nil
  | .list items => .list (itemsInJson items)
  | .map entries => .map (Assoc.inByteOrder (entriesInJson entries))
  | v => v

def itemsInJson : List Value → List Value
  | [] => []
  | v :: rest => v.inJson :: itemsInJson rest

def entriesInJson : List (String × Value) → List (String × Value)
  | [] => []
  | (k, v) :: rest => (k, v.inJson) :: entriesInJson rest

end

mutual

/-- The JSON as a value holds it: integers that do not fit are doubles. -/
def Json.inValue : Json → Json
  | .integer i => if -2 ^ 63 ≤ i ∧ i < 2 ^ 63 then .integer i else .double (Double.ofInt i)
  | .array items => .array (itemsInValue items)
  | .object members => .object (membersInValue members)
  | j => j

def itemsInValue : List Json → List Json
  | [] => []
  | j :: rest => j.inValue :: itemsInValue rest

def membersInValue : List (String × Json) → List (String × Json)
  | [] => []
  | (n, j) :: rest => (n, j.inValue) :: membersInValue rest

end

/-! ## Item by item -/

theorem jsonOfValues_eq (items : List Value) : jsonOfValues items = items.map Value.toJson :=
  eq_map rfl (fun _ _ => rfl) items

theorem jsonOfEntries_eq (entries : List (String × Value)) :
    jsonOfEntries entries = entries.map fun e => (e.1, e.2.toJson) :=
  eq_map rfl (fun _ _ => rfl) entries

theorem valuesOfJson_eq (items : List Json) : valuesOfJson items = items.map Value.ofJson :=
  eq_map rfl (fun _ _ => rfl) items

theorem entriesOfJson_eq (members : List (String × Json)) :
    entriesOfJson members = members.map fun e => (e.1, Value.ofJson e.2) :=
  eq_map rfl (fun _ _ => rfl) members

theorem itemsInJson_eq (items : List Value) : itemsInJson items = items.map Value.inJson :=
  eq_map rfl (fun _ _ => rfl) items

theorem entriesInJson_eq (entries : List (String × Value)) :
    entriesInJson entries = entries.map fun e => (e.1, e.2.inJson) :=
  eq_map rfl (fun _ _ => rfl) entries

theorem itemsInValue_eq (items : List Json) : itemsInValue items = items.map Json.inValue :=
  eq_map rfl (fun _ _ => rfl) items

theorem membersInValue_eq (members : List (String × Json)) :
    membersInValue members = members.map fun e => (e.1, e.2.inValue) :=
  eq_map rfl (fun _ _ => rfl) members

/-! ## From values to JSON and back -/

theorem ofJsonInteger_toInt (i : Int64) : Value.ofJsonInteger i.toInt = .integer i := by
  rw [Value.ofJsonInteger, if_pos ⟨i.le_toInt, i.toInt_lt⟩, Int64.ofInt_toInt]

theorem Value.ofJson_object {members : List (String × Json)} (h : (Assoc.keys members).Nodup) :
    ofJson (.object members) = .map (members.map fun e => (e.1, ofJson e.2)) := by
  rw [ofJson, entriesOfJson_eq, ofEntries, Assoc.ofList_of_nodup]
  rwa [Assoc.keys_map]

theorem Value.ofJson_toJson {v : Value} (h : v.DistinctKeys) : ofJson v.toJson = v.inJson := by
  induction v using ind with
  | hnil | hboolean | hstring => rfl
  | hinteger i => exact ofJsonInteger_toInt i
  | hnumber n =>
    rw [toJson, inJson]
    split <;> rfl
  | hlist items ih =>
    cases h with
    | list hitems =>
      rw [toJson, ofJson, inJson, jsonOfValues_eq, valuesOfJson_eq, itemsInJson_eq, List.map_map]
      exact congrArg _ (List.map_congr_left fun v hv => ih v hv (hitems v hv))
  | hmap entries ih =>
    cases h with
    | map hkeys hentries =>
      have hback : ((entries.map fun e => (e.1, e.2.toJson)).map fun e => (e.1, ofJson e.2)) =
          entries.map fun e => (e.1, e.2.inJson) := by
        rw [List.map_map]
        exact List.map_congr_left fun e he => congrArg (e.1, ·) (ih e he (hentries e he))
      rw [toJson, jsonOfEntries_eq, ofJson_object (Assoc.nodup_of_pairwise (Assoc.pairwise_ordered _)),
        Assoc.ordered_eq_inByteOrder (by rwa [Assoc.keys_map]), Assoc.map_inByteOrder, hback, inJson, entriesInJson_eq]

/-! ## From JSON to values and back -/

namespace Json

theorem ind {P : Json → Prop} (hnull : P .null) (hboolean : ∀ b, P (.boolean b)) (hinteger : ∀ i, P (.integer i))
    (hdouble : ∀ d, P (.double d)) (hstring : ∀ s, P (.string s))
    (harray : ∀ items, (∀ j ∈ items, P j) → P (.array items))
    (hobject : ∀ members, (∀ e ∈ members, P e.2) → P (.object members)) (j : Json) : P j := by
  refine @Json.rec P (fun items => ∀ j ∈ items, P j) (fun members => ∀ e ∈ members, P e.2) (fun e => P e.2)
    hnull hboolean hinteger hdouble hstring harray hobject ?_ ?_ ?_ ?_ ?_ j
  · exact List.forall_mem_nil _
  · exact fun _ _ hj hitems => List.forall_mem_cons.mpr ⟨hj, hitems⟩
  · exact List.forall_mem_nil _
  · exact fun _ _ he hmembers => List.forall_mem_cons.mpr ⟨he, hmembers⟩
  · exact fun _ _ hj => hj

/-- Every number is finite, of an integer the double nearest to it, and the names of an object are distinct and in the
order of their bytes, at every depth. -/
inductive Proper : Json → Prop where
  | null : Proper .null
  | boolean (b : Bool) : Proper (.boolean b)
  | integer {i : Int} : (Double.ofInt i).isFinite = true → Proper (.integer i)
  | double {d : Double} : d.isFinite = true → Proper (.double d)
  | string (s : String) : Proper (.string s)
  | array {items : List Json} : (∀ j ∈ items, Proper j) → Proper (.array items)
  | object {members : List (String × Json)} :
    (Assoc.keys members).Pairwise (fun m n => m.toUTF8.toList < n.toUTF8.toList) → (∀ e ∈ members, Proper e.2) →
    Proper (.object members)

theorem toJson_ofJsonInteger {i : Int} (h : (Double.ofInt i).isFinite = true) :
    (Value.ofJsonInteger i).toJson = (integer i).inValue := by
  rw [Value.ofJsonInteger, inValue]
  split
  next hfits => rw [Value.toJson, Int64.toInt_ofInt_of_le hfits.1 hfits.2]
  next => rw [Value.toJson, if_pos h]

theorem toJson_ofJson {j : Json} (h : j.Proper) : (Value.ofJson j).toJson = j.inValue := by
  induction j using ind with
  | hnull | hboolean | hstring => rfl
  | hinteger i =>
    cases h with
    | integer hfinite => exact toJson_ofJsonInteger hfinite
  | hdouble d =>
    cases h with
    | double hfinite => exact if_pos hfinite
  | harray items ih =>
    cases h with
    | array hitems =>
      rw [Value.ofJson, Value.toJson, inValue, valuesOfJson_eq, jsonOfValues_eq, itemsInValue_eq, List.map_map]
      exact congrArg _ (List.map_congr_left fun j hj => ih j hj (hitems j hj))
  | hobject members ih =>
    cases h with
    | object hkeys hmembers =>
      have hordered : (Assoc.keys members).Pairwise (· < ·) := hkeys.imp Text.Utf8.toUTF8_lt_iff.mp
      have hback : ((members.map fun e => (e.1, Value.ofJson e.2)).map fun e => (e.1, e.2.toJson)) =
          members.map fun e => (e.1, e.2.inValue) := by
        rw [List.map_map]
        exact List.map_congr_left fun e he => congrArg (e.1, ·) (ih e he (hmembers e he))
      rw [Value.ofJson_object (Assoc.nodup_of_pairwise hordered), Value.toJson, jsonOfEntries_eq, hback,
        Assoc.ordered_of_pairwise (by rwa [Assoc.keys_map]), inValue, membersInValue_eq]

end Json

/-! ## Both ways -/

/-- **The conversions undo each other, but for what the other side cannot hold.** A value that goes through JSON comes
back with nil for its numbers that are not finite and with its maps in the order of bytes. JSON that goes through a
value comes back with the nearest doubles for its integers beyond 64 bits. -/
theorem Value.json_inverse {v : Value} {j : Json} (hv : v.DistinctKeys) (hj : j.Proper) :
    ofJson v.toJson = v.inJson ∧ (ofJson j).toJson = j.inValue ∧ ∀ i : Int, Double.RoundsTo i (Double.ofInt i) :=
  ⟨ofJson_toJson hv, Json.toJson_ofJson hj, Double.roundsTo_ofInt⟩

theorem Value.json_inverse_nested :
    let v : Value := .map [("z", .list [.number .nan, .number (Double.zero true), .integer 0]), ("", .map []),
      ("é", .map [("b", .nil), ("a", .number (.infinite true))])]
    let j : Json := .object [("a", .array [.integer 18446744073709551615, .double (Double.zero false),
      .integer (-9223372036854775808)]), ("é", .object [])]
    v.DistinctKeys ∧ j.Proper ∧
    v.inJson = .map [("", .map []), ("z", .list [.nil, .number (Double.zero true), .integer 0]),
      ("é", .map [("a", .nil), ("b", .nil)])] ∧
    (ofJson j).toJson = .object [("a", .array [.double (Double.ofInt 18446744073709551615), .double (Double.zero false),
      .integer (-9223372036854775808)]), ("é", .object [])] := by
  intro v j
  have hnumbers : (Value.list [.number .nan, .number (Double.zero true), .integer 0]).DistinctKeys :=
    .list (by simp [DistinctKeys.number, DistinctKeys.integer])
  have hinner : (Value.map [("b", .nil), ("a", .number (.infinite true))]).DistinctKeys :=
    .map (by decide) (by simp [DistinctKeys.nil, DistinctKeys.number])
  have hempty : (Value.map []).DistinctKeys := .map .nil (List.forall_mem_nil _)
  have hv : v.DistinctKeys := .map (by decide) (by simp [hnumbers, hinner, hempty])
  have hword {i : Int} (hlow : -2 ^ 63 ≤ i) (hhigh : i < 2 ^ 64) : (Json.integer i).Proper :=
    .integer (Double.isFinite_ofInt hlow hhigh)
  have hitems : (Json.array [.integer 18446744073709551615, .double (Double.zero false),
      .integer (-9223372036854775808)]).Proper :=
    .array (by simp [hword, Json.Proper.double (d := Double.zero false) rfl])
  have hobject : (Json.object []).Proper := .object .nil (List.forall_mem_nil _)
  have hj : j.Proper := .object (by decide +kernel) (by simp [hitems, hobject])
  obtain ⟨hback, hforth, -⟩ := json_inverse hv hj
  exact ⟨hv, hj, hback.symm.trans rfl, hforth.trans rfl⟩

end RemoteConsole
