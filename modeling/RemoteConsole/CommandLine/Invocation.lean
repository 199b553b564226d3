import RemoteConsole.CommandLine.Options
import RemoteConsole.Text.Numeral

/-!
# Invocations

A command line names one request. Options of the whole line stand before the name of the request,
its own options and words after it.
-/

namespace RemoteConsole.CommandLine

inductive Request where
  | exec (script : String)
  /-- Calls a capability of an agent; admin capabilities go by their plain names if asked for. -/
  | call (capability : String) (args : List String) (agent : Nat) (admin : Bool)
  | list (admin : Bool)
  | fingerprints
  | reload
deriving DecidableEq, Repr

structure Invocation where
  config : Option String
  noCache : Bool
  request : Request
deriving DecidableEq, Repr

def helpOption : OptionSpec := ⟨"help", some 'h', .halting .help⟩

def adminOption : OptionSpec := ⟨"admin", none, .switch⟩

def requestNames : List String := ["exec", "call", "list", "fingerprints", "reload"]

def mainGrammar : Grammar where
  options := [⟨"config", some 'c', .valued (· != "")⟩, ⟨"no-cache", none, .switch⟩, helpOption,
    ⟨"version", some 'V', .halting .version⟩]
  least := 0
  most := some 0
  commands := "help" :: requestNames

def isAgentNumber (s : String) : Bool := (Text.readNat? 64 s.toList).isSome

def requestGrammar (name : String) : Grammar :=
  match name with
  | "exec" => ⟨[helpOption], 1, some 1, []⟩
  | "call" => ⟨[⟨"agent", some 'a', .valued isAgentNumber⟩, adminOption, helpOption], 1, none, []⟩
  | "list" => ⟨[adminOption, helpOption], 0, some 0, []⟩
  | _ => ⟨[helpOption], 0, some 0, []⟩

def Request.read (name : String) (words : List String) : Except Halt Request := do
  let (w, _) ← (requestGrammar name).read words
  match name, w.positional with
  | "exec", [script] => return exec script
  | "call", capability :: args =>
    let agent := ((w.value? "agent").bind fun s => Text.readNat? 64 s.toList).getD 0
    return call capability args agent (w.has "admin")
  | "list", _ => return list (w.has "admin")
  | "fingerprints", _ => return fingerprints
  | "reload", _ => return reload
  | _, _ => .error .refused

def versionText : String := "simctl 0.1.0\n"

def helpText : String := String.join <| List.map (· ++ "\n")
  ["Usage: simctl [-c|--config FILE] [--no-cache] REQUEST",
    "",
    "Requests:",
    "  exec SCRIPT                                         run a literal text",
    "  call [-a|--agent N] [--admin] CAPABILITY [ARGS...]  call a capability of an agent",
    "  list [--admin]                                      list the capabilities of agent 0",
    "  fingerprints                                        print the remote fingerprints",
    "  reload                                              install all scripts again"]

def readHelp : List String → Halt
  | [] => .help
  | [topic] => if mainGrammar.commands.contains topic then .help else .refused
  | _ => .refused

/-- Reads a command line. The path of the configuration file can also come from a variable. -/
def Invocation.read (configVariable : Option String) (words : List String) : Except Halt Invocation := do
  let (w, rest) ← mainGrammar.read words
  match rest with
  | [] => .error .refused
  | "help" :: topics => .error (readHelp topics)
  | name :: words =>
    let request ← Request.read name words
    let config := (w.value? "config").or configVariable
    if config = some "" then .error .refused
    return ⟨config, w.has "no-cache", request⟩

end RemoteConsole.CommandLine
