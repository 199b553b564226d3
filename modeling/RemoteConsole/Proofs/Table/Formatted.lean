import RemoteConsole.Proofs.Table.Escape
import RemoteConsole.Proofs.Table.Meaning

/-!
# Strings as the remote side prints them

The remote side formats the bytes of a string (`%q`): a few are put behind a backslash, the other control bytes are
given by their decimal codes and all the rest stand as they are. A code has no more digits than it needs, unless a digit
follows that would be taken for one of it. Every string comes back from its format, by itself and wherever a table
holds it as a key or as a value.
-/

namespace RemoteConsole.Table

open Text
open Text.Utf8

/-! ## The format -/

def code (n : Nat) (padded : Bool) : List Char := if padded then threeDigits n else natText n

def formatByte (b : UInt8) (digitNext : Bool) : List UInt8 :=
  if b = 0x22 ∨ b = 0x5C ∨ b = 0x0A then [0x5C, b]
  else if b < 0x20 ∨ b = 0x7F then 0x5C :: encode (code b.toNat digitNext)
  else [b]

def isDigitByte (b : UInt8) : Bool := 0x30 ≤ b && b ≤ 0x39

def formatBytes : List UInt8 → List UInt8
  | [] => []
  | b :: bytes => formatByte b (bytes.head?.any isDigitByte) ++ formatBytes bytes

/-- What the remote side prints for a string of these bytes. -/
def printBytes (bytes : List UInt8) : List UInt8 := 0x22 :: (formatBytes bytes ++ [0x22])

def formatChar (c : Char) (digitNext : Bool) : List Char :=
  if c = '"' ∨ c = '\\' ∨ c = '\n' then ['\\', c]
  else if c.toNat < 0x20 ∨ c.toNat = 0x7F then '\\' :: code c.toNat digitNext
  else [c]

def formatted : List Char → List Char
  | [] => []
  | c :: s => formatChar c (s.head?.any Char.isDigit) ++ formatted s

def printed (s : String) : List Char := '"' :: (formatted s.toList ++ ['"'])

/-! ## Codes -/

theorem digits_code (n : Nat) (padded : Bool) : Digits (code n padded) := by
  cases padded with
  | false => exact digits_natText n
  | true => exact digits_threeDigits n

theorem digitsValue_code {n : Nat} (h : n < 1000) (padded : Bool) : digitsValue (code n padded) = n := by
  cases padded with
  | false => exact digitsValue_natText n
  | true => exact digitsValue_threeDigits h

theorem code_ne_nil (n : Nat) (padded : Bool) : code n padded ≠ [] := by
  cases padded with
  | false => exact natText_ne_nil n
  | true => exact List.cons_ne_nil _ _

theorem length_code {n : Nat} (h : n < 1000) (padded : Bool) : (code n padded).length ≤ 3 := by
  cases padded with
  | false => exact (Nat.length_toDigits_le_iff (by decide) (by decide)).mpr h
  | true => exact Nat.le_refl 3

theorem not_padded_of_length {n : Nat} {padded : Bool} (h : (code n padded).length < 3) : padded = false := by
  cases padded with
  | false => rfl
  | true => exact absurd h (Nat.lt_irrefl 3)

/-! ## Characters and bytes -/

theorem byte_inj {c : Char} (h : c.toNat < 0x80) (d : Char) (hd : d.toNat < 0x80) :
    UInt8.ofNat c.toNat = UInt8.ofNat d.toNat ↔ c = d := by
  constructor
  · intro heq
    have hnat := congrArg UInt8.toNat heq
    rw [toNat_byte (by omega), toNat_byte (by omega)] at hnat
    exact Char.toNat_inj.mp hnat
  · rintro rfl
    rfl

theorem encode_formatChar {c : Char} (h : c.toNat < 0x80) (digitNext : Bool) :
    encode (formatChar c digitNext) = formatByte (UInt8.ofNat c.toNat) digitNext := by
  have hbyte : (UInt8.ofNat c.toNat).toNat = c.toNat := toNat_byte (by omega)
  have hshort : UInt8.ofNat c.toNat = 0x22 ∨ UInt8.ofNat c.toNat = 0x5C ∨ UInt8.ofNat c.toNat = 0x0A ↔
      c = '"' ∨ c = '\\' ∨ c = '\n' :=
    or_congr (byte_inj h '"' (by decide)) (or_congr (byte_inj h '\\' (by decide)) (byte_inj h '\n' (by decide)))
  have hcontrol : UInt8.ofNat c.toNat < 0x20 ∨ UInt8.ofNat c.toNat = 0x7F ↔ c.toNat < 0x20 ∨ c.toNat = 0x7F := by
    rw [UInt8.lt_iff_toNat_lt, ← UInt8.toNat_inj, hbyte]
    rfl
  have hplain : encode [c] = [UInt8.ofNat c.toNat] := by rw [encode_singleton, utf8EncodeChar_ascii h]
  simp only [formatChar, formatByte, hshort, hcontrol, hbyte]
  split_ifs
  · exact congrArg (0x5C :: ·) hplain
  · rfl
  · exact hplain

theorem formatBytes_high {high : List UInt8} (h : ∀ b ∈ high, 0x80 ≤ b) (bytes : List UInt8) :
    formatBytes (high ++ bytes) = high ++ formatBytes bytes := by
  induction high with
  | nil => rfl
  | cons b high ih =>
    have hb : 0x80 ≤ b.toNat := UInt8.le_iff_toNat_le.mp (h b List.mem_cons_self)
    have hne (d : UInt8) (hd : d.toNat < 0x80) : b ≠ d := by
      rintro rfl
      omega
    have hlow : ¬ b < 0x20 := by
      rw [UInt8.lt_iff_toNat_lt]
      exact Nat.not_lt.mpr (Nat.le_trans (by decide) hb)
    have hplain (next : Bool) : formatByte b next = [b] := by
      simp [formatByte, hne, hlow]
    rw [List.cons_append, formatBytes, hplain, ih fun d hd => h d (List.mem_cons_of_mem _ hd)]
    rfl

theorem formatChar_high {c : Char} (h : 0x80 ≤ c.toNat) (digitNext : Bool) : formatChar c digitNext = [c] := by
  have hne (d : Char) (hd : d.toNat < 0x80) : c ≠ d := by
    rintro rfl
    omega
  rw [formatChar, if_neg (by simp [hne]), if_neg (by omega)]

theorem isDigitByte_head (s : List Char) : (encode s).head?.any isDigitByte = s.head?.any Char.isDigit := by
  cases s with
  | nil => rfl
  | cons c s =>
    have hdigit : c.isDigit = decide (0x30 ≤ c.toNat ∧ c.toNat ≤ 0x39) := by
      rw [Char.isDigit, ← Bool.decide_and]
      rfl
    have hbyte (b : UInt8) : isDigitByte b = decide (0x30 ≤ b.toNat ∧ b.toNat ≤ 0x39) := by
      rw [isDigitByte, ← Bool.decide_and]
      rfl
    rw [encode_cons]
    by_cases h : c.toNat < 0x80
    · rw [utf8EncodeChar_ascii h]
      simp only [List.singleton_append, List.head?_cons, Option.any_some]
      rw [hbyte, hdigit, toNat_byte (by omega)]
    · obtain ⟨b, more, hmore⟩ := List.exists_cons_of_ne_nil (String.utf8EncodeChar_ne_nil (c := c))
      have hb := utf8EncodeChar_high (Nat.not_lt.mp h) b (by simp [hmore])
      rw [UInt8.le_iff_toNat_le] at hb
      change 0x80 ≤ b.toNat at hb
      rw [hmore]
      simp only [List.cons_append, List.head?_cons, Option.any_some]
      rw [hbyte, hdigit, decide_eq_decide]
      omega

theorem encode_formatted (s : List Char) : encode (formatted s) = formatBytes (encode s) := by
  induction s with
  | nil => rfl
  | cons c s ih =>
    rw [formatted, encode_append, ih, encode_cons]
    by_cases h : c.toNat < 0x80
    · rw [encode_formatChar h, utf8EncodeChar_ascii h, List.singleton_append, formatBytes, isDigitByte_head]
    · have hhigh := Nat.not_lt.mp h
      rw [formatChar_high hhigh, formatBytes_high (utf8EncodeChar_high hhigh), encode_singleton]

theorem toUTF8_printed (s : String) : (String.ofList (printed s)).toUTF8.toList = printBytes s.toUTF8.toList := by
  rw [toList_toUTF8, toList_toUTF8, String.toList_ofList, printBytes, ← encode_formatted, printed, encode_cons,
    encode_append]
  rfl

/-! ## Reading -/

variable {c : Char} {s rest : List Char} {more : List UInt8}

theorem Body.run {run : List Char} (h : ∀ c ∈ run, c ≠ '\\' ∧ c ≠ '"') (hrest : Body '"' rest) : Body '"' (run ++ rest) := by
  induction run with
  | nil => exact hrest
  | cons c run ih =>
    obtain ⟨hc, hquote⟩ := h c List.mem_cons_self
    exact .plain hc hquote (ih fun d hd => h d (List.mem_cons_of_mem _ hd))

theorem body_formatChar (c : Char) (digitNext : Bool) (hrest : Body '"' rest) : Body '"' (formatChar c digitNext ++ rest) := by
  unfold formatChar
  split_ifs with hshort hcontrol
  · exact .escaped c hrest
  · obtain ⟨d, digits, hcode⟩ := List.exists_cons_of_ne_nil (code_ne_nil c.toNat digitNext)
    rw [hcode]
    refine .escaped d (.run (fun e he => ?_) hrest)
    have hdigit := digits_code c.toNat digitNext e (by simp [hcode, he])
    exact ⟨isDigit_ne hdigit rfl, isDigit_ne hdigit rfl⟩
  · simp only [not_or] at hshort
    exact .plain hshort.2.1 hshort.1 hrest

theorem body_formatted (s : List Char) : Body '"' (formatted s) := by
  induction s with
  | nil => exact .nil
  | cons c s ih => exact body_formatChar c _ ih

theorem stops_formatted (h : s.head?.any Char.isDigit = false) : Stops Char.isDigit (formatted s) := by
  cases s with
  | nil => simp [formatted, Stops]
  | cons c s =>
    have hc : c.isDigit = false := h
    rw [formatted, formatChar]
    split_ifs
    · exact stops_cons _ rfl
    · exact stops_cons _ rfl
    · exact stops_cons _ hc

theorem readsAs_formatChar {digitNext : Bool} (hstops : digitNext = false → Stops Char.isDigit rest)
    (h : ReadsAs Escape rest more) :
    ReadsAs Escape (formatChar c digitNext ++ rest) (String.utf8EncodeChar c ++ more) := by
  unfold formatChar
  split_ifs with hshort hcontrol
  · rcases hshort with rfl | rfl | rfl
    all_goals exact .escape (.short (by decide)) h
  · have hbyte : String.utf8EncodeChar c = [UInt8.ofNat (digitsValue (code c.toNat digitNext))] := by
      rw [digitsValue_code (by omega), utf8EncodeChar_ascii (by omega)]
    have hbound : digitsValue (code c.toNat digitNext) ≤ 255 := by
      rw [digitsValue_code (by omega)]
      omega
    rw [hbyte]
    exact .escape (.decimal (code_ne_nil _ _) (digits_code _ _) (length_code (by omega) _)
      (fun hlt => hstops (not_padded_of_length hlt)) hbound) h
  · simp only [not_or] at hshort
    exact .char hshort.2.1 h

theorem readsAs_formatted (s : List Char) : ReadsAs Escape (formatted s) (encode s) := by
  induction s with
  | nil => exact .nil
  | cons c s ih =>
    rw [encode_cons]
    exact readsAs_formatChar stops_formatted ih

theorem stringOf_formatted (s : String) : stringOf (formatted s.toList) = .ok s := by
  have hread := unescape_eq_ok_iff.mpr ⟨_, (readsAs_formatted s.toList).accepted, rfl⟩
  rw [decodeLossy_encode, String.ofList_toList] at hread
  rw [stringOf, hread]
  rfl

theorem atom_printed (s : String) : Atom (printed s) (.string (formatted s.toList)) :=
  .string (.inl rfl) (body_formatted s.toList)

/-! ## Tables -/

/-- A scalar of the grammar, as it is printed and what it denotes. -/
structure Spelling where
  text : List Char
  node : Node
  value : Value
  atom : Atom text node
  means : Means node (.scalar value)

inductive RemoteKey where
  | name (s : String)
  | scalar (a : Spelling) (key : Key) (keyOf_eq : keyOf (.scalar a.value) = .ok key)

/-- What the remote side can print. -/
inductive RemoteValue where
  | string (s : String)
  | scalar (a : Spelling)
  | table (fields : List (RemoteKey × RemoteValue))

namespace RemoteKey

def text : RemoteKey → List Char
  | name s => printed s
  | scalar a _ _ => a.text

def node : RemoteKey → Node
  | name s => .string (formatted s.toList)
  | scalar a _ _ => a.node

def key : RemoteKey → Key
  | name s => .str s
  | scalar _ key _ => key

theorem written (k : RemoteKey) : Written k.text k.node := by
  cases k with
  | name s => exact .atom (atom_printed s)
  | scalar a => exact .atom a.atom

theorem means (k : RemoteKey) : ∃ raw, Means k.node raw ∧ keyOf raw = .ok k.key := by
  cases k with
  | name s => exact ⟨_, .string (stringOf_formatted s), rfl⟩
  | scalar a key hkey => exact ⟨_, a.means, hkey⟩

end RemoteKey

namespace RemoteValue

mutual

def text : RemoteValue → List Char
  | string s => printed s
  | scalar a => a.text
  | table fields => '{' :: (joined (texts fields) ++ ['}'])

def texts : List (RemoteKey × RemoteValue) → List (List Char)
  | [] => []
  | (k, v) :: fields => ('[' :: (k.text ++ "] = ".toList ++ v.text)) :: texts fields

end

mutual

def node : RemoteValue → Node
  | string s => .string (formatted s.toList)
  | scalar a => a.node
  | table fields => .table (nodes fields)

def nodes : List (RemoteKey × RemoteValue) → List Field
  | [] => []
  | (k, v) :: fields => .keyed k.node v.node :: nodes fields

end

mutual

/-- What is meant: a key that is printed again has its last value. -/
def raw : RemoteValue → Raw
  | string s => .scalar (.string s)
  | scalar a => .scalar a.value
  | table fields => .table (Assoc.ofList (pairs fields))

def pairs : List (RemoteKey × RemoteValue) → List (Key × Raw)
  | [] => []
  | (k, v) :: fields => (k.key, v.raw) :: pairs fields

end

def ofStrings (fields : List (String × String)) : RemoteValue := table (fields.map fun e => (.name e.1, string e.2))

theorem pairs_eq (fields : List (RemoteKey × RemoteValue)) : pairs fields = fields.map fun e => (e.1.key, e.2.raw) :=
  eq_map rfl (fun _ _ => rfl) fields

end RemoteValue

theorem writtenFields_joined {texts : List (List Char)} {fields : List Field}
    (h : List.Forall₂ WrittenField texts fields) : WrittenFields (joined texts) fields := by
  induction h with
  | nil => exact .nil
  | @cons text field texts fields hfield hfields ih =>
    cases hfields with
    | nil => simpa [joined] using WrittenFields.last hfield .nil
    | cons => simpa [joined] using WrittenFields.more hfield .nil (c := ',') rfl (.blank (c := ' ') rfl .nil) ih

mutual

theorem RemoteValue.written : (v : RemoteValue) → Written v.text v.node
  | .string s => .atom (atom_printed s)
  | .scalar a => .atom a.atom
  | .table fields => by
    simpa [text, node] using Written.table .nil (writtenFields_joined (fieldsWritten fields))

theorem RemoteValue.fieldsWritten : (fields : List (RemoteKey × RemoteValue)) →
    List.Forall₂ WrittenField (texts fields) (nodes fields)
  | [] => .nil
  | (k, v) :: fields => by
    have hspace : Layout [' '] := .blank rfl .nil
    have hfield := WrittenField.keyed .nil k.written .nil hspace hspace v.written
    exact .cons (by simpa using hfield) (fieldsWritten fields)

end

mutual

theorem RemoteValue.means : (v : RemoteValue) → Means v.node v.raw
  | .string s => .string (stringOf_formatted s)
  | .scalar a => a.means
  | .table fields => .table (fieldsMean fields) (merges_ofList (pairs fields))

theorem RemoteValue.fieldsMean : (fields : List (RemoteKey × RemoteValue)) → MeansFields 0 (nodes fields) (pairs fields)
  | [] => .nil
  | (k, v) :: fields => by
    obtain ⟨raw, hraw, hkey⟩ := k.means
    exact .keyed hraw hkey v.means (fieldsMean fields)

end

theorem decode_text (v : RemoteValue) : decode v.text = .ok (normalize v.raw) := by
  rw [decode, read_of_reply (.of_written v.written), v.means.ofNode_eq]
  rfl

theorem normalize_ofStrings {fields : List (String × String)} (hne : fields ≠ []) (hnodup : (Assoc.keys fields).Nodup) :
    normalize (RemoteValue.ofStrings fields).raw = .map (fields.map fun e => (e.1, .string e.2)) := by
  have hpairs : RemoteValue.pairs (fields.map fun e => (.name e.1, .string e.2)) =
      fields.map fun e => (Key.str e.1, Raw.scalar (.string e.2)) := by
    rw [RemoteValue.pairs_eq, List.map_map]
    rfl
  have hkeys : (Assoc.keys (fields.map fun e => (Key.str e.1, Raw.scalar (.string e.2)))).Nodup := by
    have hinj : Function.Injective Key.str := fun _ _ h => Key.str.inj h
    simpa [Assoc.keys, Function.comp_def] using hnodup.map hinj
  have hvalues : (Assoc.keys (fields.map fun e => (e.1, Value.string e.2))).Nodup := by
    simpa [Assoc.keys, Function.comp_def] using hnodup
  have hentries : normalizeEntries (fields.map fun e => (Key.str e.1, Raw.scalar (.string e.2))) =
      (fields.map fun e => (e.1, Value.string e.2)).map fun e => (Key.str e.1, e.2) := by
    rw [normalizeEntries_eq, List.map_map, List.map_map]
    rfl
  rw [RemoteValue.ofStrings, RemoteValue.raw, hpairs, Assoc.ofList_of_nodup hkeys, normalize, hentries,
    arrange_strings (by simpa using hne) hvalues]

/-- **What is printed is read.** The bytes that the remote side prints for a string make a text, and the text denotes
the string again. A table of strings under different names denotes the map from these names to these strings, and the
text that is printed for any table denotes the table, with every key and every value that is a string at any depth. -/
theorem decode_printed :
    (∀ s : String, (String.ofList (printed s)).toUTF8.toList = printBytes s.toUTF8.toList) ∧
    (∀ s : String, decode (printed s) = .ok (.string s)) ∧
    (∀ fields : List (String × String), fields ≠ [] → (Assoc.keys fields).Nodup →
      decode (RemoteValue.ofStrings fields).text = .ok (.map (fields.map fun e => (e.1, .string e.2)))) ∧
    ∀ v : RemoteValue, decode v.text = .ok (normalize v.raw) := by
  refine ⟨toUTF8_printed, fun s => decode_text (.string s), fun fields hne hnodup => ?_, decode_text⟩
  rw [decode_text, normalize_ofStrings hne hnodup]

theorem decode_printed_pair :
    (RemoteValue.ofStrings [("\n", "\r1"), ("é", "\"")]).text =
      '{' :: "[\"\\\n\"] = \"\\0131\", [\"é\"] = \"\\\"\"".toList ++ ['}'] ∧
    decode (RemoteValue.ofStrings [("\n", "\r1"), ("é", "\"")]).text =
      .ok (.map [("\n", .string "\r1"), ("é", .string "\"")]) :=
  ⟨by decide +kernel, decode_printed.2.2.1 _ (List.cons_ne_nil _ _) (by decide)⟩

end RemoteConsole.Table
