import RemoteConsole.Proofs.Table.Decoded
import RemoteConsole.Proofs.Table.Grammar

/-!
# What a reply denotes

A tree denotes a table as written, said without the order in which the table is filled: positional
fields are numbered by the positional fields before them, a key stands at its first place with its
last value. A literal that denotes nothing is a fault; the first one in the order of the source is
the error. A text is read as what its one tree denotes, so nothing that the tree leaves out can
change the result.
-/

namespace RemoteConsole.Table

/-- Every key stands where it is first written, with the value that it is last written with. -/
structure Merges (pairs entries : List (Key × Raw)) : Prop where
  keys : Assoc.keys entries = (Assoc.keys pairs).eraseDups
  values : ∀ k, Assoc.get? k entries = Assoc.get? k pairs.reverse

mutual

inductive Means : Node → Raw → Prop
  | number {text : List Char} {v : Value} : numberOf text = .ok v → Means (.number text) (.scalar v)
  | string {body : List Char} {s : String} :
    stringOf body = .ok s → Means (.string body) (.scalar (.string s))
  | special (d : Double) : Means (.special d) (.scalar (.number d))
  | boolean (b : Bool) : Means (.boolean b) (.scalar (.boolean b))
  | nil : Means .nil (.scalar .nil)
  | table {fields : List Field} {pairs entries : List (Key × Raw)} :
    MeansFields 0 fields pairs → Merges pairs entries → Means (.table fields) (.table entries)

/-- The pairs that fields denote, behind a number of positional fields. -/
inductive MeansFields : Nat → List Field → List (Key × Raw) → Prop
  | nil {before : Nat} : MeansFields before [] []
  | positional {before : Nat} {value : Node} {raw : Raw} {fields : List Field}
    {pairs : List (Key × Raw)} :
    Means value raw → MeansFields (before + 1) fields pairs →
    MeansFields before (.positional value :: fields) ((.int (before + 1 : Nat), raw) :: pairs)
  | named {before : Nat} {name : List Char} {value : Node} {raw : Raw} {fields : List Field}
    {pairs : List (Key × Raw)} :
    Means value raw → MeansFields before fields pairs →
    MeansFields before (.named name value :: fields) ((.str (String.ofList name), raw) :: pairs)
  | keyed {before : Nat} {keyNode value : Node} {keyRaw raw : Raw} {key : Key}
    {fields : List Field} {pairs : List (Key × Raw)} :
    Means keyNode keyRaw → keyOf keyRaw = .ok key → Means value raw →
    MeansFields before fields pairs →
    MeansFields before (.keyed keyNode value :: fields) ((key, raw) :: pairs)

end

/-! ## Faults in the order of the source -/

def faultOf {α : Type} : Except ReadError α → List ReadError
  | .error e => [e]
  | .ok _ => []

/-- What keeps a tree from being a key, found when the key is complete. -/
def Node.keyFaults : Node → List ReadError
  | .nil => [.literal "nil".toList .nilKey]
  | .table _ => [.literal "{...}".toList .tableKey]
  | _ => []

mutual

def Node.faults : Node → List ReadError
  | .table fields => faultsOf fields
  | .number text => faultOf (numberOf text)
  | .string body => faultOf (stringOf body)
  | .special _ | .boolean _ | .nil => []

def faultsOf : List Field → List ReadError
  | [] => []
  | .positional value :: fields | .named _ value :: fields => value.faults ++ faultsOf fields
  | .keyed key value :: fields => key.faults ++ key.keyFaults ++ value.faults ++ faultsOf fields

end

/-! ## Merging -/

theorem merges_ofList (pairs : List (Key × Raw)) : Merges pairs (Assoc.ofList pairs) :=
  ⟨Assoc.keys_ofList pairs, fun k => Assoc.get?_ofList k pairs⟩

theorem Merges.eq_ofList {pairs entries : List (Key × Raw)} (h : Merges pairs entries) :
    entries = Assoc.ofList pairs := by
  have hkeys : Assoc.keys entries = Assoc.keys (Assoc.ofList pairs) := by
    rw [h.keys, Assoc.keys_ofList]
  refine Assoc.ext_get? hkeys (hkeys ▸ Assoc.nodup_ofList pairs) fun k => ?_
  rw [h.values, Assoc.get?_ofList]

/-! ## What a tree denotes is built -/

mutual

theorem Means.ofNode_eq {node : Node} {raw : Raw} (h : Means node raw) : Raw.ofNode node = .ok raw :=
  match h with
  | .number hv => by rw [Raw.ofNode, hv]; rfl
  | .string hs => by rw [Raw.ofNode, hs]; rfl
  | .special d => rfl
  | .boolean b => rfl
  | .nil => rfl
  | .table hfields hmerges => by rw [Raw.ofNode, hfields.entriesOf_eq, hmerges.eq_ofList]; rfl

theorem MeansFields.entriesOf_eq {before : Nat} {fields : List Field} {pairs entries : List (Key × Raw)}
    (h : MeansFields before fields pairs) :
    entriesOf fields (before + 1) entries = .ok (Assoc.putAll pairs entries) :=
  match h with
  | .nil => by rw [entriesOf]; rfl
  | .positional hv hfields => by
    rw [entriesOf, hv.ofNode_eq]
    exact hfields.entriesOf_eq
  | .named hv hfields => by
    rw [entriesOf, hv.ofNode_eq]
    exact hfields.entriesOf_eq
  | .keyed hk hkey hv hfields => by
    rw [entriesOf, hk.ofNode_eq]
    simp only [bind, Except.bind, hkey, hv.ofNode_eq]
    exact hfields.entriesOf_eq

end

/-! ## Keys -/

theorem double?_number {text : List Char} {v : Value} (h : double? text = .ok v) :
    ∃ d, v = .number d := by
  unfold double? at h
  split at h
  · next d _ =>
    cases h
    exact ⟨d, rfl⟩
  · cases h

theorem hexInteger_integer {text : List Char} {i : Option Int64} {v : Value}
    (h : (match i with
      | some i => Except.ok (Value.integer i)
      | none => .error (ReadError.literal text .hexOutOfRange)) = .ok v) : ∃ i, v = .integer i := by
  cases i with
  | none => cases h
  | some i =>
    cases h
    exact ⟨i, rfl⟩

theorem numberOf_numeric {text : List Char} {v : Value} (h : numberOf text = .ok v) :
    (∃ i, v = .integer i) ∨ ∃ d, v = .number d := by
  unfold numberOf at h
  simp only at h
  split at h
  · exact .inl (hexInteger_integer h)
  · exact .inl (hexInteger_integer h)
  · split at h
    · exact .inr (double?_number h)
    · split at h
      · next i _ =>
        cases h
        exact .inl ⟨i, rfl⟩
      · exact .inr (double?_number h)

theorem keyOf_number (d : Double) : ∃ key, keyOf (.scalar (.number d)) = .ok key := by
  rw [keyOf]
  cases d.truncate? with
  | none => exact ⟨_, rfl⟩
  | some i =>
    simp only
    split
    · exact ⟨_, rfl⟩
    · exact ⟨_, rfl⟩

theorem Means.keyOf_cases {node : Node} {raw : Raw} (h : Means node raw) :
    (node.keyFaults = [] ∧ ∃ key, keyOf raw = .ok key) ∨
      ∃ e, node.keyFaults = [e] ∧ keyOf raw = .error e := by
  cases h with
  | number hv =>
    left
    refine ⟨rfl, ?_⟩
    rcases numberOf_numeric hv with ⟨i, rfl⟩ | ⟨d, rfl⟩
    · exact ⟨_, rfl⟩
    · exact keyOf_number d
  | string => exact .inl ⟨rfl, _, rfl⟩
  | special d => exact .inl ⟨rfl, keyOf_number d⟩
  | boolean => exact .inl ⟨rfl, _, rfl⟩
  | nil => exact .inr ⟨_, rfl, rfl⟩
  | table => exact .inr ⟨_, rfl, rfl⟩

/-! ## Faults and meanings -/

theorem exists_of_faultOf_nil {α : Type} {x : Except ReadError α} (h : faultOf x = []) :
    ∃ a, x = .ok a := by
  cases x with
  | error e => cases h
  | ok a => exact ⟨a, rfl⟩

theorem error_of_faultOf_cons {α : Type} {x : Except ReadError α} {e : ReadError}
    {later : List ReadError} (h : faultOf x = e :: later) : x = .error e := by
  cases x with
  | error e' =>
    cases h
    rfl
  | ok a => cases h

mutual

theorem exists_means : ∀ {node : Node}, node.faults = [] → ∃ raw, Means node raw
  | .table fields, h => by
    obtain ⟨pairs, hpairs⟩ := exists_meansFields 0 (show faultsOf fields = [] from h)
    exact ⟨_, .table hpairs (merges_ofList pairs)⟩
  | .number text, h => by
    obtain ⟨v, hv⟩ := exists_of_faultOf_nil h
    exact ⟨_, .number hv⟩
  | .string body, h => by
    obtain ⟨s, hs⟩ := exists_of_faultOf_nil h
    exact ⟨_, .string hs⟩
  | .special d, _ => ⟨_, .special d⟩
  | .boolean b, _ => ⟨_, .boolean b⟩
  | .nil, _ => ⟨_, .nil⟩

theorem exists_meansFields : ∀ {fields : List Field} (before : Nat), faultsOf fields = [] →
    ∃ pairs, MeansFields before fields pairs
  | [], _, _ => ⟨[], .nil⟩
  | .positional value :: fields, before, h => by
    rw [faultsOf, List.append_eq_nil_iff] at h
    obtain ⟨raw, hraw⟩ := exists_means h.1
    obtain ⟨pairs, hpairs⟩ := exists_meansFields (before + 1) h.2
    exact ⟨_, .positional hraw hpairs⟩
  | .named name value :: fields, before, h => by
    rw [faultsOf, List.append_eq_nil_iff] at h
    obtain ⟨raw, hraw⟩ := exists_means h.1
    obtain ⟨pairs, hpairs⟩ := exists_meansFields before h.2
    exact ⟨_, .named hraw hpairs⟩
  | .keyed key value :: fields, before, h => by
    simp only [faultsOf, List.append_eq_nil_iff] at h
    obtain ⟨⟨⟨hkey, hkeyFaults⟩, hvalue⟩, hfields⟩ := h
    obtain ⟨keyRaw, hkeyRaw⟩ := exists_means hkey
    obtain ⟨raw, hraw⟩ := exists_means hvalue
    obtain ⟨pairs, hpairs⟩ := exists_meansFields before hfields
    rcases hkeyRaw.keyOf_cases with ⟨-, k, hk⟩ | ⟨e, he, -⟩
    · exact ⟨_, .keyed hkeyRaw hk hraw hpairs⟩
    · rw [hkeyFaults] at he
      cases he

end

/-- Without faults up to a place in the order of the source, what stands there decides. -/
theorem bind_fault {α β : Type} {x : Except ReadError α} {f : α → Except ReadError β}
    {first rest later : List ReadError} {e : ReadError} (h : first ++ rest = e :: later)
    (herror : ∀ {es : List ReadError}, first = e :: es → x = .error e)
    (hok : first = [] → rest = e :: later → ∃ a, x = .ok a ∧ f a = .error e) :
    x >>= f = .error e := by
  cases first with
  | nil =>
    obtain ⟨a, hx, hf⟩ := hok rfl h
    rw [hx]
    exact hf
  | cons e' es =>
    obtain ⟨rfl, -⟩ := List.cons.inj h
    rw [herror rfl]
    rfl

mutual

theorem ofNode_fault : ∀ {node : Node} {e : ReadError} {later : List ReadError},
    node.faults = e :: later → Raw.ofNode node = .error e
  | .table fields, e, later, h => by
    rw [Raw.ofNode, entriesOf_fault h]
    rfl
  | .number text, e, later, h => by
    rw [Raw.ofNode, error_of_faultOf_cons h]
    rfl
  | .string body, e, later, h => by
    rw [Raw.ofNode, error_of_faultOf_cons h]
    rfl

theorem entriesOf_fault : ∀ {fields : List Field} {e : ReadError} {later : List ReadError}
    {next : Nat} {entries : List (Key × Raw)}, faultsOf fields = e :: later →
    entriesOf fields next entries = .error e
  | .positional value :: fields, e, later, next, entries, h => by
    rw [entriesOf]
    refine bind_fault h (fun hv => ofNode_fault hv) fun hv hfields => ?_
    obtain ⟨raw, hraw⟩ := exists_means hv
    exact ⟨raw, hraw.ofNode_eq, entriesOf_fault hfields⟩
  | .named name value :: fields, e, later, next, entries, h => by
    rw [entriesOf]
    refine bind_fault h (fun hv => ofNode_fault hv) fun hv hfields => ?_
    obtain ⟨raw, hraw⟩ := exists_means hv
    exact ⟨raw, hraw.ofNode_eq, entriesOf_fault hfields⟩
  | .keyed key value :: fields, e, later, next, entries, h => by
    rw [faultsOf, List.append_assoc, List.append_assoc] at h
    rw [entriesOf]
    refine bind_fault h (fun hk => ofNode_fault hk) fun hk h => ?_
    obtain ⟨keyRaw, hkeyRaw⟩ := exists_means hk
    refine ⟨keyRaw, hkeyRaw.ofNode_eq, bind_fault h ?_ fun hkey h => ?_⟩
    · intro es hes
      rcases hkeyRaw.keyOf_cases with ⟨hnone, -⟩ | ⟨e', he', hkeyOf⟩
      · rw [hnone] at hes
        cases hes
      · rw [he'] at hes
        cases hes
        exact hkeyOf
    · rcases hkeyRaw.keyOf_cases with ⟨-, k, hkeyOf⟩ | ⟨e', he', -⟩
      · refine ⟨k, hkeyOf, bind_fault h (fun hv => ofNode_fault hv) fun hv hfields => ?_⟩
        obtain ⟨raw, hraw⟩ := exists_means hv
        exact ⟨raw, hraw.ofNode_eq, entriesOf_fault hfields⟩
      · rw [hkey] at he'
        cases he'

end

/-! ## Where a fault stands -/

def ReadError.OfLiteral : ReadError → Prop
  | .grammar _ _ => False
  | .literal _ _ | .escape _ => True

theorem double?_ofLiteral {text : List Char} {e : ReadError} (h : double? text = .error e) :
    e.OfLiteral := by
  unfold double? at h
  split at h
  · cases h
  · cases h
    trivial

theorem numberOf_ofLiteral {text : List Char} {e : ReadError} (h : numberOf text = .error e) :
    e.OfLiteral := by
  unfold numberOf at h
  simp only at h
  split at h
  · split at h <;> cases h
    trivial
  · split at h <;> cases h
    trivial
  · split at h
    · exact double?_ofLiteral h
    · split at h
      · cases h
      · exact double?_ofLiteral h

theorem stringOf_ofLiteral {body : List Char} {e : ReadError} (h : stringOf body = .error e) :
    e.OfLiteral := by
  unfold stringOf at h
  cases hu : unescape body with
  | error fault =>
    rw [hu] at h
    cases h
    trivial
  | ok s =>
    rw [hu] at h
    cases h

theorem keyFaults_ofLiteral {node : Node} {e : ReadError} (h : e ∈ node.keyFaults) : e.OfLiteral := by
  cases node with
  | nil =>
    rw [List.mem_singleton.mp h]
    trivial
  | table fields =>
    rw [List.mem_singleton.mp h]
    trivial
  | _ => cases h

mutual

theorem faults_ofLiteral : ∀ {node : Node} {e : ReadError}, e ∈ node.faults → e.OfLiteral
  | .table fields, e, h => faultsOf_ofLiteral (show e ∈ faultsOf fields from h)
  | .number text, e, h => by
    rw [Node.faults] at h
    cases hn : numberOf text with
    | error e' =>
      rw [hn] at h
      rw [List.mem_singleton.mp h]
      exact numberOf_ofLiteral hn
    | ok v =>
      rw [hn] at h
      cases h
  | .string body, e, h => by
    rw [Node.faults] at h
    cases hs : stringOf body with
    | error e' =>
      rw [hs] at h
      rw [List.mem_singleton.mp h]
      exact stringOf_ofLiteral hs
    | ok v =>
      rw [hs] at h
      cases h

theorem faultsOf_ofLiteral : ∀ {fields : List Field} {e : ReadError}, e ∈ faultsOf fields → e.OfLiteral
  | .positional value :: fields, e, h => by
    rcases List.mem_append.mp h with h | h
    · exact faults_ofLiteral h
    · exact faultsOf_ofLiteral h
  | .named name value :: fields, e, h => by
    rcases List.mem_append.mp h with h | h
    · exact faults_ofLiteral h
    · exact faultsOf_ofLiteral h
  | .keyed key value :: fields, e, h => by
    simp only [faultsOf, List.mem_append] at h
    rcases h with ((h | h) | h) | h
    · exact faults_ofLiteral h
    · exact keyFaults_ofLiteral h
    · exact faults_ofLiteral h
    · exact faultsOf_ofLiteral h

end

/-! ## Trees that are written differently -/

mutual

/-- The trees differ only in how strings are quoted and keys are written. -/
inductive Alike : Node → Node → Prop
  | number (text : List Char) : Alike (.number text) (.number text)
  | special (d : Double) : Alike (.special d) (.special d)
  | boolean (b : Bool) : Alike (.boolean b) (.boolean b)
  | nil : Alike .nil .nil
  | string {body body' : List Char} :
    stringOf body = stringOf body' → Alike (.string body) (.string body')
  | table {fields fields' : List Field} :
    AlikeFields fields fields' → Alike (.table fields) (.table fields')

inductive AlikeField : Field → Field → Prop
  | positional {value value' : Node} :
    Alike value value' → AlikeField (.positional value) (.positional value')
  | named (name : List Char) {value value' : Node} :
    Alike value value' → AlikeField (.named name value) (.named name value')
  | keyed {key key' value value' : Node} :
    Alike key key' → Alike value value' → AlikeField (.keyed key value) (.keyed key' value')
  | bracketed {name body : List Char} {value value' : Node} :
    stringOf body = .ok (String.ofList name) → Alike value value' →
    AlikeField (.named name value) (.keyed (.string body) value')
  | unbracketed {name body : List Char} {value value' : Node} :
    stringOf body = .ok (String.ofList name) → Alike value value' →
    AlikeField (.keyed (.string body) value) (.named name value')

inductive AlikeFields : List Field → List Field → Prop
  | nil : AlikeFields [] []
  | cons {field field' : Field} {fields fields' : List Field} :
    AlikeField field field' → AlikeFields fields fields' →
    AlikeFields (field :: fields) (field' :: fields')

end

theorem entriesOf_bracketed {name body : List Char} (h : stringOf body = .ok (String.ofList name))
    (value : Node) (fields : List Field) (next : Nat) (entries : List (Key × Raw)) :
    entriesOf (.keyed (.string body) value :: fields) next entries =
      entriesOf (.named name value :: fields) next entries := by
  rw [entriesOf, entriesOf, Raw.ofNode, h]
  rfl

mutual

theorem Alike.ofNode_eq {node node' : Node} (h : Alike node node') :
    Raw.ofNode node = Raw.ofNode node' :=
  match h with
  | .number text => rfl
  | .special d => rfl
  | .boolean b => rfl
  | .nil => rfl
  | .string hs => by rw [Raw.ofNode, Raw.ofNode, hs]
  | .table hfields => by rw [Raw.ofNode, Raw.ofNode, hfields.entriesOf_eq]

theorem AlikeField.entriesOf_eq {field field' : Field} (h : AlikeField field field')
    {fields fields' : List Field}
    (hfields : ∀ next entries, entriesOf fields next entries = entriesOf fields' next entries)
    (next : Nat) (entries : List (Key × Raw)) :
    entriesOf (field :: fields) next entries = entriesOf (field' :: fields') next entries :=
  match h with
  | .positional hv => by simp only [entriesOf, hv.ofNode_eq, hfields]
  | .named name hv => by simp only [entriesOf, hv.ofNode_eq, hfields]
  | .keyed hk hv => by simp only [entriesOf, hk.ofNode_eq, hv.ofNode_eq, hfields]
  | .bracketed hs hv => by
    rw [entriesOf_bracketed hs]
    simp only [entriesOf, hv.ofNode_eq, hfields]
  | .unbracketed hs hv => by
    rw [entriesOf_bracketed hs]
    simp only [entriesOf, hv.ofNode_eq, hfields]

theorem AlikeFields.entriesOf_eq {fields fields' : List Field} (h : AlikeFields fields fields')
    {next : Nat} {entries : List (Key × Raw)} :
    entriesOf fields next entries = entriesOf fields' next entries :=
  match h with
  | .nil => rfl
  | .cons hfield hfields => hfield.entriesOf_eq (fun _ _ => hfields.entriesOf_eq) next entries

end

/-! ## Reading a text -/

/-- What a text with this tree is to be read as. -/
inductive Result (node : Node) : Except ReadError Raw → Prop
  | ok {raw : Raw} : Means node raw → (∀ other, Means node other → other = raw) → Result node (.ok raw)
  | fault {e : ReadError} {later : List ReadError} :
    node.faults = e :: later → (∀ raw, ¬ Means node raw) → Result node (.error e)

theorem result_ofNode (node : Node) : Result node (Raw.ofNode node) := by
  cases hfaults : node.faults with
  | nil =>
    obtain ⟨raw, hraw⟩ := exists_means hfaults
    rw [hraw.ofNode_eq]
    refine .ok hraw fun other hother => ?_
    have heq := hother.ofNode_eq
    rw [hraw.ofNode_eq] at heq
    exact (Except.ok.inj heq).symm
  | cons e later =>
    have herror := ofNode_fault hfaults
    rw [herror]
    refine .fault hfaults fun raw hraw => ?_
    rw [hraw.ofNode_eq] at herror
    cases herror

theorem read_of_reply {s : List Char} {node : Node} (h : Reply s node) :
    Raw.read s = Raw.ofNode node := by
  rw [Raw.read, read?_of_reply h]

theorem read_grammar_iff (s : List Char) :
    (∃ place expected, Raw.read s = .error (.grammar place expected)) ↔ ∀ node, ¬ Reply s node := by
  constructor
  · rintro ⟨place, expected, hread⟩ node hreply
    rw [read_of_reply hreply] at hread
    cases hfaults : node.faults with
    | nil =>
      obtain ⟨raw, hraw⟩ := exists_means hfaults
      rw [hraw.ofNode_eq] at hread
      cases hread
    | cons e later =>
      rw [ofNode_fault hfaults] at hread
      have hliteral : e.OfLiteral := faults_ofLiteral (hfaults ▸ List.mem_cons_self)
      rw [Except.error.inj hread] at hliteral
      exact hliteral
  · intro h
    have hnone : read? s = none := by
      rw [Option.eq_none_iff_forall_ne_some]
      exact fun node hnode => h node (read?_sound hnode)
    rw [Raw.read, hnone]
    exact ⟨_, _, rfl⟩

/-- **Reading agrees with the grammar.** A text off the grammar is a syntax error. Any other text has
one tree, and is read as what the tree denotes or as its first fault. Texts with trees alike are read
alike. -/
theorem read_reply (s : List Char) :
    ((∃ place expected, Raw.read s = .error (.grammar place expected)) ↔ ∀ node, ¬ Reply s node) ∧
    (∀ node, Reply s node → (∀ other, Reply s other → other = node) ∧ Result node (Raw.read s)) ∧
    ∀ s' node node', Reply s node → Reply s' node' → Alike node node' → Raw.read s = Raw.read s' := by
  refine ⟨read_grammar_iff s, fun node hreply => ⟨fun other hother => ?_, ?_⟩, ?_⟩
  · have heq := read?_of_reply hother
    rw [read?_of_reply hreply] at heq
    exact (Option.some.inj heq).symm
  · rw [read_of_reply hreply]
    exact result_ofNode node
  · intro s' node node' hreply hreply' halike
    rw [read_of_reply hreply, read_of_reply hreply', halike.ofNode_eq]

end RemoteConsole.Table
