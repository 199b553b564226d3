import RemoteConsole.Error
import RemoteConsole.Script.Registry

/-!
# Batches

A batch is idle or open. An open one queues the commands that wait to be sent together; each has a
tag made from its place, under which its reply is found again.
-/

namespace RemoteConsole

structure Batch where
  isOpen : Bool
  queue : List Command

namespace Batch

def idle : Batch := ⟨false, []⟩

def opened : Batch := ⟨true, []⟩

def add (command : Command) (b : Batch) : Batch := { b with queue := b.queue ++ [command] }

end Batch

def batchEntries (registry : Registry) (measured : Bool) (queue : List Command) : List (String × String) :=
  Assoc.ofList (queue.mapIdx fun i c => (c.tag i, registry.compileCommand measured c))

structure BatchResult where
  results : List (String × Except RemoteError Value)

namespace BatchResult

def empty : BatchResult := ⟨[]⟩

def result? (index : Nat) (r : BatchResult) : Option (Except RemoteError Value) :=
  r.results[index]?.map Prod.snd

def byTag? (tag : String) (r : BatchResult) : Option (Except RemoteError Value) :=
  Assoc.get? tag r.results

def firstError? (r : BatchResult) : Option RemoteError :=
  r.results.findSome? fun
    | (_, .error e) => some e
    | (_, .ok _) => none

/-- Takes the reply of each tag out of the replies and files what it decodes to. -/
def file : (tags : List String) → (replies : List (String × String)) →
    (results : List (String × Except RemoteError Value)) → Except ControlError BatchResult
  | [], _, results => .ok ⟨results⟩
  | tag :: tags, replies, results =>
    match Assoc.get? tag replies with
    | some reply => file tags (Assoc.erase tag replies) (Assoc.put tag (Reply.decode reply) results)
    | none => .error (.transport s!"no reply for transaction entry `{tag}`")

/-- Files the replies under the tags that were sent; each needs one. -/
def ofReplies (tags : List String) (replies : List (String × String)) : Except ControlError BatchResult :=
  file tags replies []

end BatchResult

end RemoteConsole
