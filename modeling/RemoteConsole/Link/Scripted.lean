import RemoteConsole.Assoc
import RemoteConsole.Link.Basic
import RemoteConsole.Text.Search

/-!
# Scripted remote sides

A stand-in for a remote side answers by rules. Each command is answered by the first rule that it
meets and that is not used up; a command that meets none is answered with nothing.
-/

namespace RemoteConsole

inductive Condition where
  | always
  | equals (text : String)
  | startsWith (text : String)
  | contains (text : String)

def Condition.holds (command : String) : Condition → Bool
  | always => true
  | equals text => command == text
  | startsWith text => (Text.after? text.toList command.toList).isSome
  | contains text => Text.contains text.toList command.toList

inductive Effect where
  | reply (text : String)
  | fail (text : String)
  | crash (text : String)
  | drop

structure Rule where
  condition : Condition
  uses : Option Nat
  effect : Effect

def Rule.meets (command : String) (r : Rule) : Bool := r.condition.holds command && r.uses != some 0

def lookupRule (command : String) : List Rule → Effect × List Rule
  | [] => (.reply "", [])
  | rule :: rest =>
    if rule.meets command then (rule.effect, { rule with uses := rule.uses.map (· - 1) } :: rest)
    else
      let (effect, rest) := lookupRule command rest
      (effect, rule :: rest)

def lookup (command : String) : Action (List Rule) Effect := fun rules =>
  let (effect, rules) := lookupRule command rules
  (.ok effect, rules)

namespace Scripted

def respond (command : String) : Action (List Rule) (Option String) := do
  match (← lookup command) with
  | .reply text => return some text
  | .fail text => Action.fail (.transport text)
  | .crash text => Action.crash (.text text)
  | .drop => return none

/-- Every request takes a microsecond. -/
def send (command : String) : Action (List Rule) LinkReply := do
  match (← respond command) with
  | some text => return ⟨text, ⟨1000⟩⟩
  | none => Action.fail (.transport "dropped")

def sendBatch (entries : List (String × String)) : Action (List Rule) (List (String × String)) :=
  entries.foldlM (fun replies (tag, command) => do
    match (← respond command) with
    | some text => return Assoc.put tag text replies
    | none => return replies) []

/-- Closing fails if a rule says so. -/
def close : Action (List Rule) Unit := do
  match (← lookup "<close>") with
  | .fail text => Action.fail (.transport text)
  | _ => return ()

def link (interruptible : Bool) : Link (List Rule) where
  send := send
  sendBatch := sendBatch
  close := close
  interrupt := if interruptible then some (Action.fail (.transport "interrupted")) else none

end Scripted

end RemoteConsole
