import RemoteConsole.Proofs.Reply.Banner
import RemoteConsole.Proofs.Table.Literal

/-!
# Errors that say nothing

The message of an error is blank if its own text is. Otherwise it is blank only where a step falls back to
what was cut already: nothing stands behind the banner of an interface call or in front of a trace, or the
last line is nothing but the banner of a command.
-/

namespace RemoteConsole.Reply

open Text

/-! ## Payloads -/

theorem not_blank_literal (v : Value) : ¬ Blank v.literal := by
  have hsigned (negative : Bool) (n : Numeral) : ¬ Blank (Table.signed negative n.text) := by
    obtain ⟨c, rest, htext, hc⟩ := n.text_head
    have hvisible : isBlank c = false := isBlank_of_written (by simp [Spelling.written, Char.isAlphanum, hc])
    apply not_blank_of_mem (c := c) _ hvisible
    rw [htext]
    cases negative <;> simp [Table.signed]
  cases v with
  | nil => decide
  | boolean b => cases b <;> decide
  | integer i =>
    obtain ⟨negative, n, h, -⟩ := Table.intText_numeral i.toInt
    rw [Value.literal, h]
    exact hsigned negative n
  | number d =>
    cases d with
    | nan => decide
    | infinite negative => cases negative <;> decide
    | finite negative place =>
      obtain ⟨n, h, -⟩ := Double.literal_numeral negative place
      rw [Value.literal, h]
      exact hsigned negative n
  | string s => exact not_blank_of_mem (c := '"') (by simp [Value.literal, quote]) (by decide)
  | list items => exact not_blank_of_mem (c := '{') (by simp [Value.literal]) (by decide)
  | map entries => exact not_blank_of_mem (c := '{') (by simp [Value.literal]) (by decide)

def ownText? : Value → Option String
  | .string text => some text
  | payload => messageField? payload

theorem message_payloadError (entries : List (String × Value)) (raw : String) :
    (payloadError (.map entries) raw).message.toList =
      ((messageField? (.map entries)).map fun text => (textReport text.toList).message).getD (Value.map entries).literal := by
  unfold payloadError
  simp only
  cases messageField? (.map entries) with
  | none => split <;> exact String.toList_ofList
  | some text => split <;> exact String.toList_ofList

theorem blank_payloadError (payload : Value) (raw : String) :
    Blank (payloadError payload raw).message.toList ↔
      ∃ text, ownText? payload = some text ∧ (Blank text.toList ∨ Bare text.toList) := by
  have hliteral (v : Value) (hown : ownText? v = none) :
      Blank v.toLiteral.toList ↔ ∃ text, ownText? v = some text ∧ (Blank text.toList ∨ Bare text.toList) := by
    simp [hown, Value.toLiteral, not_blank_literal]
  have htext (text : String) : Blank (textReport text.toList).message ↔
      ∃ text', some text = some text' ∧ (Blank text'.toList ∨ Bare text'.toList) := by
    simp [blank_textReport]
  cases payload with
  | string text =>
    have hmessage : (payloadError (.string text) raw).message.toList = (textReport text.toList).message := String.toList_ofList
    rw [hmessage]
    exact htext text
  | map entries =>
    rw [message_payloadError]
    cases hfield : messageField? (.map entries) with
    | none =>
      rw [Option.map_none, Option.getD_none, ← String.toList_ofList (l := (Value.map entries).literal)]
      exact hliteral (.map entries) hfield
    | some text =>
      have hown : ownText? (.map entries) = some text := hfield
      rw [hown]
      exact htext text
  | nil =>
    have hunknown : ¬ Blank "unknown remote error".toList := by decide
    constructor
    · exact fun h => absurd h hunknown
    · rintro ⟨text, hown, -⟩
      cases hown
  | boolean b => exact hliteral (.boolean b) rfl
  | integer i => exact hliteral (.integer i) rfl
  | number n => exact hliteral (.number n) rfl
  | list items => exact hliteral (.list items) rfl

/-! ## Cleaning keeps the error text -/

theorem asString?_eq_some {v : Value} {text : String} : v.asString? = some text ↔ v = .string text := by
  cases v <;> simp [Value.asString?]

theorem asString?_clean (v : Value) : (clean v).asString? = v.asString? := by
  have hscalar (text : String) : Table.Scalar (.string text) := trivial
  apply Option.ext
  intro text
  rw [asString?_eq_some, asString?_eq_some]
  exact ⟨clean_eq_scalar (hscalar text), fun h => by rw [h, clean_of_scalar (hscalar text)]⟩

theorem asString?_of_collapse {elements : List Value} {w : Value} (h : collapse? elements = some w) (key : String) :
    (∀ x ∈ elements, x.asString? = none) ∧ (w.get? key).bind Value.asString? = none := by
  obtain ⟨helements, inventory, rfl, hnumeric⟩ := collapse?_cases h
  constructor
  · intro x hx
    obtain ⟨e, he⟩ := helements x hx
    cases x with
    | string text => cases he
    | _ => rfl
  · rw [Option.bind_eq_none_iff]
    intro x hx
    rcases hnumeric _ (Assoc.mem_of_get? hx) with ⟨i, rfl⟩ | ⟨n, rfl⟩
    · rfl
    · rfl

theorem textField_clean (key : String) (v : Value) :
    ((clean v).get? key).bind Value.asString? = (v.get? key).bind Value.asString? := by
  cases v with
  | map entries =>
    rw [clean]
    cases hc : collapse? (entries.map Prod.snd) with
    | none =>
      rw [Option.getD_none, Value.get?, Value.get?, get?_cleanEntries]
      cases Assoc.get? key entries with
      | none => rfl
      | some x => exact asString?_clean x
    | some w =>
      obtain ⟨helements, hw⟩ := asString?_of_collapse hc key
      rw [Option.getD_some, hw, eq_comm, Option.bind_eq_none_iff]
      exact fun x hx => helements x (List.mem_map_of_mem (Assoc.mem_of_get? hx))
  | list items =>
    rw [clean]
    cases hc : collapse? items with
    | none => rfl
    | some w => exact (asString?_of_collapse hc key).2
  | _ => rfl

theorem messageField?_clean (v : Value) : messageField? (clean v) = messageField? v := by
  unfold messageField?
  simp only [textField_clean]

theorem ownText?_eq (v : Value) : ownText? v = v.asString?.or (messageField? v) := by
  cases v with
  | string text => rfl
  | _ => rfl

theorem ownText?_clean (v : Value) : ownText? (clean v) = ownText? v := by
  rw [ownText?_eq, ownText?_eq, asString?_clean, messageField?_clean]

/-! ## Replies -/

def Tabular (reply : String) (v : Value) : Prop :=
  (trim reply.toList).head? = some '{' ∧ Table.decode (trim reply.toList) = .ok v

/-- The reply is the envelope of a failure with an error text. -/
def OwnText (reply text : String) : Prop :=
  ∃ v, Tabular reply v ∧ FailedEnvelope v ∧ (v.get? "b").bind ownText? = some text

theorem openEnvelope_failed {v : Value} (h : FailedEnvelope v) (raw : String) :
    openEnvelope v raw = .error (payloadError ((v.get? "b").getD .nil) raw) := by
  obtain ⟨entries, rfl, hkeys, hfalse⟩ := h
  simp only [openEnvelope, isEnvelope_iff.mpr hkeys, if_true, hfalse, Value.get?]

theorem ownText?_payload_clean {v : Value} (h : FailedEnvelope v) :
    ownText? (((clean v).get? "b").getD .nil) = (v.get? "b").bind ownText? := by
  obtain ⟨entries, rfl, -, hfalse⟩ := h
  rw [clean_map_of_scalar (scalar_boolean false) hfalse, Value.get?, Value.get?, get?_cleanEntries]
  cases Assoc.get? "b" entries with
  | none => rfl
  | some payload => exact ownText?_clean payload

theorem blank_table {reply : String} {v : Value} (h : Tabular reply v) :
    (∃ e, decode reply = .error e ∧ Blank e.message.toList) ↔
      ∃ text, OwnText reply text ∧ (Blank text.toList ∨ Bare text.toList) := by
  rw [decode_of_table h.1 h.2]
  constructor
  · rintro ⟨e, herror, hblank⟩
    have hfailed : FailedEnvelope (clean v) := (openEnvelope_error_iff _ _).mp ⟨e, herror⟩
    rw [openEnvelope_failed hfailed] at herror
    cases herror
    have hv : FailedEnvelope v := (failedEnvelope_clean v).mp hfailed
    obtain ⟨text, hown, htext⟩ := (blank_payloadError _ _).mp hblank
    rw [ownText?_payload_clean hv] at hown
    exact ⟨text, ⟨v, h, hv, hown⟩, htext⟩
  · rintro ⟨text, ⟨w, hw, hfailed, hown⟩, htext⟩
    obtain rfl : v = w := Except.ok.inj (h.2.symm.trans hw.2)
    rw [← ownText?_payload_clean hfailed] at hown
    exact ⟨_, openEnvelope_failed ((failedEnvelope_clean v).mpr hfailed) reply, (blank_payloadError _ _).mpr ⟨text, hown, htext⟩⟩

theorem decodePlain_error {text : List Char} {raw : String} {e : RemoteError} :
    decodePlain text raw = .error e ↔ isFailureBanner text = true ∧ e = (bannerReport text).toError raw := by
  unfold decodePlain
  by_cases hbanner : isFailureBanner text = true
  · rw [if_pos hbanner, Except.error.injEq, eq_comm, and_iff_right hbanner]
  · rw [if_neg hbanner]
    constructor
    · intro h
      split at h <;> cases h
    · exact fun h => absurd h.1 hbanner

theorem decode_plain {reply : String} {e : RemoteError} (h : ∀ v, ¬ Tabular reply v) :
    decode reply = .error e ↔ decodePlain (trim reply.toList) reply = .error e := by
  unfold Tabular at h
  unfold decode
  simp only
  split
  · next hnil =>
    rw [hnil, decodePlain_error]
    exact ⟨nofun, fun h => absurd h.1 (by decide)⟩
  · next rest htext =>
    rw [htext] at h ⊢
    rw [decodeTable, ← htext, trim_idem, htext]
    cases hdecode : Table.decode ('{' :: rest) with
    | ok v => exact absurd ⟨rfl, hdecode⟩ (h v)
    | error err => rfl
  · rfl

theorem tabular_failure (text : List Char) : Tabular (failure text) (envelope false (.string (String.ofList text))) := by
  unfold Tabular
  rw [failure, trim_envelope]
  exact ⟨rfl, Table.decode_literal (distinctKeys_envelope false (.string _))⟩

theorem ownText_failure {text : List Char} {own : String} : OwnText (failure text) own ↔ own = String.ofList text := by
  constructor
  · rintro ⟨v, hv, -, hown⟩
    obtain rfl : envelope false (.string (String.ofList text)) = v := Except.ok.inj ((tabular_failure text).2.symm.trans hv.2)
    exact (Option.some.inj hown).symm
  · rintro rfl
    exact ⟨_, tabular_failure text, failedEnvelope_envelope _, rfl⟩

/-- **When an error says nothing.** Its message is blank exactly when the reply is the envelope of a
failure with a blank error text, or with one that tells nothing behind the banner of an interface call;
or when the reply is no table and the banner of a failure without a message. -/
theorem decode_blank_iff (reply : String) :
    (∃ e, decode reply = .error e ∧ Blank e.message.toList) ↔
      (∃ text, OwnText reply text ∧ (Blank text.toList ∨ Bare text.toList)) ∨
        (∀ v, ¬ Tabular reply v) ∧ Mute (trim reply.toList) := by
  by_cases h : ∃ v, Tabular reply v
  · obtain ⟨v, hv⟩ := h
    rw [blank_table hv, or_iff_left]
    exact fun h => h.1 v hv
  · rw [not_exists] at h
    have hown : ¬ ∃ text, OwnText reply text ∧ (Blank text.toList ∨ Bare text.toList) := by
      rintro ⟨text, ⟨v, hv, -⟩, -⟩
      exact h v hv
    have herror (e : RemoteError) : decode reply = .error e ∧ Blank e.message.toList ↔
        isFailureBanner (trim reply.toList) = true ∧ e = (bannerReport (trim reply.toList)).toError reply ∧
          Blank e.message.toList := by
      rw [decode_plain h, decodePlain_error, and_assoc]
    simp only [herror, exists_and_left, exists_eq_left, or_iff_right hown, and_iff_right h, mute_iff, Report.toError,
      String.toList_ofList]

/-- The banner of a command alone, and the envelope of a failure whose error text is the banner of an
interface call alone: neither has a blank error text, and the errors say nothing. -/
theorem decode_silent :
    (decode "Cannot execute command" = .error ⟨"", "Cannot execute command", none⟩ ∧
      ¬ ∃ text, OwnText "Cannot execute command" text) ∧
    decode (failure interfaceBanner) = .error ⟨"", failure interfaceBanner, none⟩ ∧
      ∀ text, OwnText (failure interfaceBanner) text → ¬ Blank text.toList := by
  have htrim : trim "Cannot execute command".toList = commandBanner := by decide +kernel
  have hplain (v : Value) : ¬ Tabular "Cannot execute command" v := by
    rintro ⟨hopen, -⟩
    rw [htrim] at hopen
    cases hopen
  refine ⟨⟨?_, ?_⟩, ?_, ?_⟩
  · rw [decode_plain hplain, htrim, decodePlain_error]
    decide +kernel
  · rintro ⟨text, v, hv, -⟩
    exact hplain v hv
  · have hreport : (textReport interfaceBanner).toError (failure interfaceBanner) = ⟨"", failure interfaceBanner, none⟩ := by
      decide +kernel
    rw [decode_failure, hreport]
  · intro text hown
    rw [ownText_failure.mp hown, String.toList_ofList]
    decide

end RemoteConsole.Reply
