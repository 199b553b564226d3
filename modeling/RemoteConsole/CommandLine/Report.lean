import RemoteConsole.Error
import RemoteConsole.Text.Search

/-!
# Reports of failures

A report names what was being done and then its causes, each indented; several causes are
numbered.
-/

namespace RemoteConsole

def ControlError.messages (e : ControlError) : List String :=
  match e with
  | .unreadable => [e.message, "stream did not contain valid UTF-8"]
  | _ => [e.message]

namespace CommandLine

structure Report where
  context : Option String
  error : ControlError

def indented (label rest : String) (message : String) : String :=
  let lines := (Text.splitAt (· == '\n') message.toList).map String.ofList
  label ++ String.intercalate ("\n" ++ rest) lines

def causesText (causes : List String) : String :=
  let numbered := causes.length > 1
  String.join (causes.mapIdx fun i cause =>
    "\n" ++ (if numbered then indented s!"    {i}: " "       " cause else indented "    " "    " cause))

def Report.text (r : Report) : String :=
  match r.context.toList ++ r.error.messages with
  | [] => ""
  | [message] => s!"Error: {message}\n"
  | message :: causes => s!"Error: {message}\n\nCaused by:{causesText causes}\n"

end CommandLine

end RemoteConsole
