import RemoteConsole.Proofs.Table.Decoded
import RemoteConsole.Proofs.Text.Trim
import RemoteConsole.Reply.Decode

/-!
# Envelopes

A reply that is a table is an error or a payload by its outermost fields alone. Cleaning comes
first, but it neither makes nor unmakes the envelope of a failure: what it collapses has no boolean
in it and gives none. Whatever text a payload holds, it is never looked at for banners.
-/

namespace RemoteConsole.Reply

open Text

def envelope (succeeded : Bool) (payload : Value) : Value :=
  .map [("a", .boolean succeeded), ("b", payload)]

/-- A map of nothing but `a` and `b` in which `a` is false. -/
def FailedEnvelope (v : Value) : Prop :=
  ∃ entries, v = .map entries ∧ (∀ k ∈ Assoc.keys entries, k = "a" ∨ k = "b") ∧
    Assoc.get? "a" entries = some (.boolean false)

/-! ## What an inventory collapses to -/

theorem map_of_mapM_some {α β : Type} {f : α → Option β} {l : List α} {l' : List β}
    (h : l.mapM f = some l') : l.map f = l'.map some := by
  induction l generalizing l' with
  | nil =>
    cases h
    rfl
  | cons a l ih =>
    rw [List.mapM_cons] at h
    obtain ⟨b, hb, h⟩ := Option.bind_eq_some_iff.mp h
    obtain ⟨m, hm, h⟩ := Option.bind_eq_some_iff.mp h
    cases h
    rw [List.map_cons, List.map_cons, hb, ih hm]

def Numeric (v : Value) : Prop := (∃ i, v = .integer i) ∨ ∃ n, v = .number n

theorem inventoryEntry?_numeric {v : Value} {e : String × Value} (h : inventoryEntry? v = some e) :
    Numeric e.2 := by
  unfold inventoryEntry? at h
  split at h
  · cases h
    exact .inl ⟨_, rfl⟩
  · cases h
    exact .inr ⟨_, rfl⟩
  · cases h

theorem addCounts_numeric {total count : Value} (h : Numeric count) : Numeric (addCounts total count) := by
  unfold addCounts
  split
  · simp only
    split
    · exact .inl ⟨_, rfl⟩
    · exact .inr ⟨_, rfl⟩
  · split
    · exact .inr ⟨_, rfl⟩
    · exact h

theorem tally_numeric {inventory : List (String × Value)} {e : String × Value}
    (h : ∀ f ∈ inventory, Numeric f.2) (he : Numeric e.2) : ∀ f ∈ tally inventory e, Numeric f.2 := by
  intro f hf
  unfold tally at hf
  simp only at hf
  split at hf
  · rcases Assoc.mem_put hf with rfl | hf
    · exact addCounts_numeric he
    · exact h f hf
  · rcases Assoc.mem_put hf with rfl | hf
    · exact he
    · exact h f hf

theorem foldl_tally_numeric {entries inventory : List (String × Value)} (he : ∀ e ∈ entries, Numeric e.2)
    (h : ∀ f ∈ inventory, Numeric f.2) : ∀ f ∈ entries.foldl tally inventory, Numeric f.2 := by
  induction entries generalizing inventory with
  | nil => exact h
  | cons e entries ih =>
    apply ih
    · intro f hf
      exact he f (List.mem_cons_of_mem _ hf)
    · exact tally_numeric h (he e List.mem_cons_self)

theorem collapse?_cases {elements : List Value} {v : Value} (h : collapse? elements = some v) :
    (∀ x ∈ elements, ∃ e, inventoryEntry? x = some e) ∧
      ∃ inventory, v = .map inventory ∧ ∀ e ∈ inventory, Numeric e.2 := by
  unfold collapse? at h
  split at h
  · cases h
  obtain ⟨entries, hentries, rfl⟩ := Option.map_eq_some_iff.mp h
  have hmap := map_of_mapM_some hentries
  constructor
  · intro x hx
    have hin : inventoryEntry? x ∈ entries.map some := hmap ▸ List.mem_map_of_mem hx
    obtain ⟨e, -, he⟩ := List.mem_map.mp hin
    exact ⟨e, he.symm⟩
  · refine ⟨_, rfl, foldl_tally_numeric (fun e he => ?_) (by simp)⟩
    have hin : some e ∈ elements.map inventoryEntry? := hmap ▸ List.mem_map_of_mem he
    obtain ⟨x, -, hx⟩ := List.mem_map.mp hin
    exact inventoryEntry?_numeric hx

theorem not_failed_of_collapse {elements : List Value} {v : Value} (h : collapse? elements = some v) :
    ¬ FailedEnvelope v := by
  obtain ⟨-, inventory, rfl, hnumeric⟩ := collapse?_cases h
  rintro ⟨entries, hv, -, hfalse⟩
  cases hv
  rcases hnumeric _ (Assoc.mem_of_get? hfalse) with ⟨i, hi⟩ | ⟨n, hn⟩
  · cases hi
  · cases hn

theorem scalar_boolean (b : Bool) : Table.Scalar (.boolean b) := trivial

theorem inventoryEntry?_scalar {v : Value} (h : Table.Scalar v) : inventoryEntry? v = none := by
  cases v with
  | list items => exact h.elim
  | map entries => exact h.elim
  | _ => rfl

theorem collapse?_scalar {elements : List Value} {v : Value} (hv : Table.Scalar v) (h : v ∈ elements) :
    collapse? elements = none := by
  cases hc : collapse? elements with
  | none => rfl
  | some w =>
    obtain ⟨e, he⟩ := (collapse?_cases hc).1 _ h
    rw [inventoryEntry?_scalar hv] at he
    cases he

/-! ## Cleaning keeps the outermost shape of a failure -/

theorem keys_cleanEntries (entries : List (String × Value)) :
    Assoc.keys (cleanEntries entries) = Assoc.keys entries := by
  induction entries with
  | nil => rfl
  | cons e entries ih =>
    obtain ⟨k, v⟩ := e
    rw [cleanEntries, Assoc.keys_cons, Assoc.keys_cons, ih]

theorem get?_cleanEntries (key : String) (entries : List (String × Value)) :
    Assoc.get? key (cleanEntries entries) = (Assoc.get? key entries).map clean := by
  induction entries with
  | nil => rfl
  | cons e entries ih =>
    obtain ⟨k, v⟩ := e
    by_cases hk : k = key
    · simp [cleanEntries, Assoc.get?, hk]
    · simp [cleanEntries, Assoc.get?, hk, ih]

theorem clean_map_of_scalar {entries : List (String × Value)} {key : String} {v : Value} (hv : Table.Scalar v)
    (h : Assoc.get? key entries = some v) : clean (.map entries) = .map (cleanEntries entries) := by
  have hin : v ∈ entries.map Prod.snd := List.mem_map_of_mem (Assoc.mem_of_get? h)
  rw [clean, collapse?_scalar hv hin]
  rfl

theorem clean_of_scalar {v : Value} (h : Table.Scalar v) : clean v = v := by
  cases v with
  | list items => exact h.elim
  | map entries => exact h.elim
  | _ => rfl

theorem clean_eq_scalar {v w : Value} (hw : Table.Scalar w) (h : clean v = w) : v = w := by
  have hcollapse {elements : List Value} {u : Value} (hu : ¬ Table.Scalar u) :
      ¬ Table.Scalar ((collapse? elements).getD u) := by
    cases hc : collapse? elements with
    | none => exact hu
    | some c =>
      obtain ⟨-, inventory, rfl, -⟩ := collapse?_cases hc
      exact id
  rw [← h] at hw
  cases v with
  | list items =>
    rw [clean] at hw
    exact absurd hw (hcollapse id)
  | map entries =>
    rw [clean] at hw
    exact absurd hw (hcollapse id)
  | _ => exact h

theorem failedEnvelope_clean (v : Value) : FailedEnvelope (clean v) ↔ FailedEnvelope v := by
  constructor
  · intro h
    -- what collapses holds numbers only, so no `false` has come out of it
    cases v with
    | map entries =>
      rw [clean] at h
      cases hc : collapse? (entries.map Prod.snd) with
      | some w =>
        rw [hc] at h
        exact absurd h (not_failed_of_collapse hc)
      | none =>
        rw [hc] at h
        obtain ⟨entries', hmap, hkeys, hfalse⟩ := h
        cases hmap
        rw [keys_cleanEntries] at hkeys
        rw [get?_cleanEntries] at hfalse
        obtain ⟨w, hw, hclean⟩ := Option.map_eq_some_iff.mp hfalse
        exact ⟨entries, rfl, hkeys, by rw [hw, clean_eq_scalar (scalar_boolean false) hclean]⟩
    | list items =>
      rw [clean] at h
      cases hc : collapse? items with
      | some w =>
        rw [hc] at h
        exact absurd h (not_failed_of_collapse hc)
      | none =>
        rw [hc] at h
        obtain ⟨_, hmap, -⟩ := h
        cases hmap
    | _ => exact h
  · rintro ⟨entries, rfl, hkeys, hfalse⟩
    refine ⟨cleanEntries entries, clean_map_of_scalar (scalar_boolean false) hfalse, ?_, ?_⟩
    · rwa [keys_cleanEntries]
    · rw [get?_cleanEntries, hfalse]
      rfl

/-! ## Opening -/

theorem isEnvelope_iff {entries : List (String × Value)} :
    isEnvelope entries = true ↔ ∀ k ∈ Assoc.keys entries, k = "a" ∨ k = "b" := by
  simp [isEnvelope]

theorem openEnvelope_error_iff (v : Value) (raw : String) :
    (∃ e, openEnvelope v raw = .error e) ↔ FailedEnvelope v := by
  constructor
  · rintro ⟨e, h⟩
    unfold openEnvelope at h
    split at h
    · next entries =>
      split at h
      · next hkeys =>
        simp only at h
        split at h
        · cases h
        · next hfalse => exact ⟨entries, rfl, isEnvelope_iff.mp hkeys, hfalse⟩
        · cases h
      · cases h
    · cases h
  · rintro ⟨entries, rfl, hkeys, hfalse⟩
    refine ⟨payloadError ((Assoc.get? "b" entries).getD .nil) raw, ?_⟩
    simp only [openEnvelope, isEnvelope_iff.mpr hkeys, if_true, hfalse]

/-! ## Errors keep the reply as received -/

theorem payloadError_raw (payload : Value) (raw : String) : (payloadError payload raw).raw = raw := by
  unfold payloadError
  split
  · rfl
  · simp only
    split
    · split <;> rfl
    · split <;> rfl
  · rfl
  · rfl

theorem openEnvelope_raw {v : Value} {raw : String} {e : RemoteError} (h : openEnvelope v raw = .error e) :
    e.raw = raw := by
  obtain ⟨entries, rfl, hkeys, hfalse⟩ := (openEnvelope_error_iff v raw).mp ⟨e, h⟩
  simp only [openEnvelope, isEnvelope_iff.mpr hkeys, if_true, hfalse] at h
  cases h
  exact payloadError_raw _ raw

theorem decodePlain_raw {text : List Char} {raw : String} {e : RemoteError} (h : decodePlain text raw = .error e) :
    e.raw = raw := by
  unfold decodePlain at h
  split at h
  · cases h
    rfl
  · split at h
    · cases h
    · cases h

theorem decode_raw {reply : String} {e : RemoteError} (h : decode reply = .error e) : e.raw = reply := by
  unfold decode at h
  simp only at h
  split at h
  · cases h
  · split at h
    · exact openEnvelope_raw h
    · exact decodePlain_raw h
  · exact decodePlain_raw h

/-! ## Tables -/

theorem decode_of_table {reply : String} {v : Value} (hopen : (trim reply.toList).head? = some '{')
    (hdecode : Table.decode (trim reply.toList) = .ok v) : decode reply = openEnvelope (clean v) reply := by
  obtain ⟨rest, hrest⟩ := List.head?_eq_some_iff.mp hopen
  rw [decode]
  simp only [hrest]
  rw [decodeTable, ← hrest, trim_idem, hdecode]
  rfl

theorem trim_literal_map (entries : List (String × Value)) :
    trim (Value.map entries).literal = (Value.map entries).literal := by
  apply trim_of_ends
  · intro c hc
    cases hc
    decide
  · intro c hc
    rw [Value.literal, ← List.cons_append, List.getLast?_concat] at hc
    cases hc
    decide

theorem trim_envelope (succeeded : Bool) (v : Value) :
    trim (envelope succeeded v).toLiteral.toList = (envelope succeeded v).literal := by
  rw [Value.toLiteral, String.toList_ofList]
  exact trim_literal_map _

theorem distinctKeys_envelope (succeeded : Bool) {v : Value} (hv : v.DistinctKeys) :
    (envelope succeeded v).DistinctKeys := by
  refine .map (by simp [Assoc.keys]) ?_
  simp only [List.forall_mem_cons]
  exact ⟨.boolean _, hv, by simp⟩

theorem decode_envelope (succeeded : Bool) {v : Value} (hv : v.DistinctKeys) :
    decode (envelope succeeded v).toLiteral =
      openEnvelope (clean (envelope succeeded v.canon)) (envelope succeeded v).toLiteral := by
  apply decode_of_table
  · rw [trim_envelope]
    rfl
  · rw [trim_envelope]
    exact Table.decode_literal (distinctKeys_envelope succeeded hv)

theorem clean_envelope (succeeded : Bool) (v : Value) :
    clean (envelope succeeded v) = envelope succeeded (clean v) := by
  have hfirst : Assoc.get? "a" [("a", .boolean succeeded), ("b", v)] = some (.boolean succeeded) := rfl
  exact clean_map_of_scalar (scalar_boolean succeeded) hfirst

theorem failedEnvelope_envelope (v : Value) : FailedEnvelope (envelope false v) :=
  ⟨_, rfl, by simp [Assoc.keys], rfl⟩

/-- **Replies are classified by their outermost fields.** An envelope that was written is opened,
whatever it holds; a reply that reads as a table is an error exactly when it is the envelope of a
failure, before cleaning and after it; and every error keeps the reply as it was received. -/
theorem decode_classifies :
    (∀ v : Value, v.DistinctKeys →
      decode (envelope true v).toLiteral = .ok (clean v.canon) ∧
        ∃ e, decode (envelope false v).toLiteral = .error e) ∧
    (∀ (reply : String) (v : Value), (trim reply.toList).head? = some '{' →
      Table.decode (trim reply.toList) = .ok v →
        ((∃ e, decode reply = .error e) ↔ FailedEnvelope (clean v)) ∧
          (FailedEnvelope (clean v) ↔ FailedEnvelope v)) ∧
    ∀ (reply : String) (e : RemoteError), decode reply = .error e → e.raw = reply := by
  refine ⟨fun v hv => ⟨?_, ?_⟩, fun reply v hopen hdecode => ⟨?_, failedEnvelope_clean v⟩, fun reply e => decode_raw⟩
  · rw [decode_envelope true hv, clean_envelope]
    rfl
  · rw [decode_envelope false hv, openEnvelope_error_iff, failedEnvelope_clean]
    exact failedEnvelope_envelope _
  · rw [decode_of_table hopen hdecode]
    exact openEnvelope_error_iff _ _

/-- A payload that looks like a failure, a failure that says nothing, a table with a field too many
and a banner between blanks. -/
theorem decode_classifies_nested :
    decode (envelope true (.list [envelope false (.string "[string \""), .map []])).toLiteral =
        .ok (.list [envelope false (.string "[string \""), .list []]) ∧
      (∃ e, decode (envelope false (.map [])).toLiteral = .error e) ∧
      ((∃ e, decode " {a=false,c=0}" = .error e) ↔ FailedEnvelope (clean (.map [("a", .boolean false), ("c", .integer 0)]))) ∧
      ∃ e, decode "Cannot execute command \n" = .error e ∧ e.raw = "Cannot execute command \n" := by
  have hinner : (envelope false (.string "[string \"")).DistinctKeys := by
    refine .map (by decide) ?_
    simp only [List.forall_mem_cons]
    exact ⟨.boolean _, .string _, by simp⟩
  have hitems : (Value.list [envelope false (.string "[string \""), .map []]).DistinctKeys := by
    refine .list ?_
    simp only [List.forall_mem_cons]
    exact ⟨hinner, .map (by decide) (by simp), by simp⟩
  refine ⟨(decode_classifies.1 _ hitems).1, (decode_classifies.1 (.map []) (.map (by decide) (by simp))).2, ?_, ?_⟩
  · have htrim : trim " {a=false,c=0}".toList = ['{', 'a', '=', 'f', 'a', 'l', 's', 'e', ',', 'c', '=', '0', '}'] := by
      decide +kernel
    refine (decode_classifies.2.1 " {a=false,c=0}" (.map [("a", .boolean false), ("c", .integer 0)]) ?_ ?_).1
    · rw [htrim]
      rfl
    · rw [htrim]
      rfl
  · have htrim : trim "Cannot execute command \n".toList = commandBanner := by decide +kernel
    have hbanner : isFailureBanner commandBanner = true := by decide +kernel
    have hdecode : decode "Cannot execute command \n" =
        .error ((bannerReport commandBanner).toError "Cannot execute command \n") := by
      have hplain : decode "Cannot execute command \n" = decodePlain commandBanner "Cannot execute command \n" := by
        rw [decode, htrim]
        rfl
      rw [hplain, decodePlain, if_pos hbanner]
    exact ⟨_, hdecode, decode_classifies.2.2 _ _ hdecode⟩

end RemoteConsole.Reply
