import RemoteConsole.CommandLine.Invocation
import RemoteConsole.CommandLine.Report
import RemoteConsole.Config.File
import RemoteConsole.Json.Printer
import RemoteConsole.Link.Rcon
import RemoteConsole.Session.Basic
import RemoteConsole.Value.Json

/-!
# Running an invocation

A run loads the configuration, connects, brings a session up, carries out the request and closes
the session. It prints the result, or reports the first failure.
-/

namespace RemoteConsole.CommandLine

structure Result where
  exitCode : Nat
  output : String
  errors : String
deriving DecidableEq, Repr

namespace Result

def success (output : String) : Result := ⟨0, output, ""⟩

def failure (r : Report) : Result := ⟨1, "", r.text⟩

def crashed (c : Crash) : Result :=
  match c with
  | .text message => ⟨101, "", message ++ "\n"⟩
  | .other => ⟨101, "", ""⟩

end Result

/-! ## Requests -/

variable {σ τ α : Type}

def reporting (context : Option String) (x : Action σ α) : ExceptT Report (Action σ) α := ExceptT.mk fun s =>
  match x s with
  | (.ok a, s) => (.ok (.ok a), s)
  | (.error e, s) => (.ok (.error ⟨context, e⟩), s)
  | (.crash c, s) => (.crash c, s)

/-- An argument: JSON if it is that, else a string. -/
def argument (word : String) : Value :=
  match Json.read? word with
  | some j => .ofJson j
  | none => .string word

def printed (j : Json) : String := j.prettyText ++ "\n"

def Request.perform (r : Request) : ExceptT Report (Action (Session σ)) String :=
  match r with
  | .exec script => do return printed (← reporting none (Session.executeText script)).toJson
  | .call capability args agent admin => do
    reporting none (Session.setAdminVisible agent admin)
    let v ← reporting (some s!"calling `{capability}` on agent {agent}")
      (Session.call agent capability (args.map argument))
    return printed v.toJson
  | .list admin => do
    reporting none (Session.setAdminVisible 0 admin)
    let names := (← reporting none (Session.namespace? 0)).names
    return String.join (names.map (· ++ "\n"))
  | .fingerprints => do
    let mirror ← reporting none (Action.read (·.console.registry.mirror))
    return printed (.object (mirror.map fun (name, hash) => (name, .string hash)))
  | .reload => do
    reporting none Session.reload
    let count ← reporting none (Action.read (·.console.registry.fragments.length))
    return s!"reinstalled {count} script fragments\n"

/-! ## Runs -/

def Invocation.configure (i : Invocation) (env : String → Option String) (files : FileTree) (home : String := ".") :
    Except Report Config :=
  match Config.load i.config files env home with
  | .ok c => .ok (if i.noCache then { c with scripts := { c.scripts with caching := false } } else c)
  | .error e => .error ⟨some "loading configuration", e⟩

/-- A run over a connection: its result, the connection at its end and the time that it waited. -/
structure Run (τ : Type) where
  result : Result
  connection : Rcon τ
  waited : Duration

def starting (e : ControlError) : Result := .failure ⟨some "starting session", e⟩

def Request.runIn (r : Request) (s : Session (Rcon τ)) : Run τ :=
  let (outcome, s) := r.perform.run s
  let (closing, s) := Session.close s
  let result := match outcome, closing with
    | .ok (.ok output), .error e => { Result.failure ⟨none, e⟩ with output }
    | .ok (.ok output), _ => .success output
    | .ok (.error report), _ => .failure report
    | .error e, _ => .failure ⟨none, e⟩
    | .crash c, _ => .crashed c
  ⟨result, s.console.wire.state, s.console.waited⟩

def Request.run (peer : Peer τ) (files : FileTree) (config : Config) (r : Request) (c : Rcon τ) : Run τ :=
  let settings := config.connection
  match Rcon.connect peer settings.password settings.connectTimeout settings.readTimeout c with
  | (.error e, c) => ⟨starting e, c, ⟨0⟩⟩
  | (.crash crash, c) => ⟨.crashed crash, c, ⟨0⟩⟩
  | (.ok (), c) =>
    match Session.start config files Hooks.empty (.connect (Rcon.link peer) c) with
    | .error e => ⟨starting e, c, ⟨0⟩⟩
    | .ok (.ok (), s) => r.runIn s
    | .ok (.error e, s) => ⟨starting e, s.console.wire.state, s.console.waited⟩
    | .ok (.crash crash, s) => ⟨.crashed crash, s.console.wire.state, s.console.waited⟩

end RemoteConsole.CommandLine
