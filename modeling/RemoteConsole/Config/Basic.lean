import RemoteConsole.Error
import RemoteConsole.Double.Text

/-!
# Configuration

The settings of the connection, of the scripts and of the session, each with a default. Variables
of the environment override some of them.
-/

namespace RemoteConsole

structure ConnectionConfig where
  host : String
  port : Nat
  password : String
  connectTimeout : Nat
  /-- Milliseconds, as the other timeouts and intervals. -/
  readTimeout : Nat
deriving DecidableEq, Repr

structure ScriptConfig where
  libraryDir : String
  toolsDir : String
  /-- Fingerprints of earlier sessions count; otherwise everything is installed again. -/
  caching : Bool
  bootstrapLibraries : List String
deriving DecidableEq, Repr

structure SessionConfig where
  agents : Nat
  /-- Zero turns the heartbeat off. -/
  heartbeatInterval : Nat
  teardownTimeout : Nat
  gameSpeed : Double
deriving DecidableEq, Repr

structure Config where
  connection : ConnectionConfig
  scripts : ScriptConfig
  session : SessionConfig
deriving DecidableEq, Repr

namespace Config

/-- The scripts are those of the package itself, which stands in the home directory. -/
def default (home : String := ".") : Config where
  connection := ⟨"127.0.0.1", 27015, "factorio", 5000, 30000⟩
  scripts := ⟨home ++ "/scripts/lib", home ++ "/src/tools", true, ["serialize", "actions"]⟩
  session := ⟨1, 0, 2000, Double.ofInt 1⟩

def isSpeed (d : Double) : Bool := (Double.zero false).lt d && d.isFinite

def validate (c : Config) : Except ControlError Unit :=
  if c.session.agents = 0 then .error (.config "session.agents must be at least 1")
  else if !isSpeed c.session.gameSpeed then
    .error (.config s!"session.game_speed must be positive, got {String.ofList (NumberStyle.message.render c.session.gameSpeed)}")
  else if c.connection.host = "" then .error (.config "rcon.host is empty")
  else .ok ()

def overrideNat (name what value : String) (bits : Nat) : Except ControlError Nat :=
  match Text.readNat? bits value.toList with
  | some n => .ok n
  | none => .error (.config s!"{name}: bad {what} `{value}`")

def override (env : String → Option String) (c : Config) : Except ControlError Config := do
  let c := match env "SIMCTL_RCON_HOST" with
    | some host => { c with connection := { c.connection with host } }
    | none => c
  let c ← match env "SIMCTL_RCON_PORT" with
    | some value =>
      let port ← overrideNat "SIMCTL_RCON_PORT" "port" value 16
      pure { c with connection := { c.connection with port } }
    | none => pure c
  let c := match env "SIMCTL_RCON_PASSWORD" with
    | some password => { c with connection := { c.connection with password } }
    | none => c
  let c := match env "SIMCTL_CACHE_SCRIPTS" with
    | some value => { c with scripts := { c.scripts with caching := ["1", "true", "yes"].contains value } }
    | none => c
  match env "SIMCTL_AGENTS" with
  | some value =>
    let agents ← overrideNat "SIMCTL_AGENTS" "agent count" value 64
    return { c with session := { c.session with agents } }
  | none => return c

end Config

end RemoteConsole
