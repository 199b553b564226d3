import RemoteConsole.Reply.Inventory
import RemoteConsole.Reply.Message
import RemoteConsole.Table.Normal

/-!
# Decoding replies

A reply is a table, a scalar, plain text or the banner of a failed command. A table whose only
fields are `a`, a boolean, and `b` is an envelope: it holds the payload of a call that succeeded
or the error of one that failed.
-/

namespace RemoteConsole

structure RemoteError where
  message : String
  raw : String
  traceback : Option String
deriving DecidableEq, Repr

namespace Reply

open Text

def Report.toError (report : Report) (raw : String) : RemoteError :=
  ⟨String.ofList report.message, raw, report.traceback.map String.ofList⟩

def decodeTable (s : List Char) : Except Table.ReadError Value := clean <$> Table.decode (trim s)

/-- The text of the first of the fields `message`, `error` and `msg` that is a string. -/
def messageField? (payload : Value) : Option String :=
  ["message", "error", "msg"].findSome? fun key => (payload.get? key).bind Value.asString?

def payloadError (payload : Value) (raw : String) : RemoteError :=
  match payload with
  | .string text => (textReport text.toList).toError raw
  | .map entries =>
    let base := match messageField? (.map entries) with
      | some text => (textReport text.toList).toError raw
      | none => ⟨(Value.map entries).toLiteral, raw, none⟩
    match (Assoc.get? "traceback" entries).bind Value.asString? with
    | some trace => { base with traceback := some trace }
    | none => base
  | .nil => ⟨"unknown remote error", raw, none⟩
  | other => ⟨other.toLiteral, raw, none⟩

def isEnvelope (entries : List (String × Value)) : Bool :=
  (Assoc.keys entries).all fun k => k == "a" || k == "b"

/-- The outcome that a value reports: an envelope its payload or its error, any other value
itself. -/
def openEnvelope (value : Value) (raw : String) : Except RemoteError Value :=
  match value with
  | .map entries =>
    if isEnvelope entries then
      let payload := (Assoc.get? "b" entries).getD .nil
      match Assoc.get? "a" entries with
      | some (.boolean true) => .ok payload
      | some (.boolean false) => .error (payloadError payload raw)
      | _ => .ok value
    else .ok value
  | _ => .ok value

/-- The value of a reply that is no table: an error banner, a scalar, or text. -/
def decodePlain (text : List Char) (raw : String) : Except RemoteError Value :=
  if isFailureBanner text then .error ((bannerReport text).toError raw)
  else match Table.decode text with
    | .ok value => .ok value
    | .error _ => .ok (.string (String.ofList text))

def decode (reply : String) : Except RemoteError Value :=
  let text := trim reply.toList
  match text with
  | [] => .ok .nil
  | '{' :: _ =>
    match decodeTable text with
    | .ok value => openEnvelope value reply
    | .error _ => decodePlain text reply
  | _ => decodePlain text reply

end Reply

end RemoteConsole
