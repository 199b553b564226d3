import RemoteConsole.Config.Basic
import RemoteConsole.Files.Tree
import RemoteConsole.Text.Utf8
import RemoteConsole.Toml.Reader

/-!
# Configuration files

A configuration file is a TOML document with a table for each section. Settings that it leaves out
keep their defaults, and names that are no settings are passed over.
-/

namespace RemoteConsole

structure Setting (α : Type) where
  name : String
  set : Toml → α → Option α

namespace Setting

variable {α : Type}

def text? : Toml → Option String
  | .string s => some s
  | _ => none

def boolean? : Toml → Option Bool
  | .boolean b => some b
  | _ => none

def nat? (bits : Nat) : Toml → Option Nat
  | .integer i => if 0 ≤ i.toInt ∧ i.toInt < 2 ^ bits then some i.toInt.toNat else none
  | _ => none

def double? : Toml → Option Double
  | .float d => some d
  | .integer i => some (Double.ofInt i.toInt)
  | _ => none

def texts? : Toml → Option (List String)
  | .array items => items.mapM text?
  | _ => none

def setNamed (settings : List (Setting α)) (entries : Toml.Entries) (config : α) : Option α :=
  entries.foldlM (fun c (name, v) => match settings.find? (·.name == name) with
    | some s => s.set v c
    | none => some c) config

def setInOrder (settings : List (Setting α)) (values : List Toml) (config : α) : Option α :=
  (settings.zip values).foldlM (fun c (s, v) => s.set v c) config

/-- Reads a section: a table of settings, or an array of them in order. A date has no settings. -/
def setAll (settings : List (Setting α)) (v : Toml) (config : α) : Option α :=
  match v with
  | .table _ entries | .inlineTable entries => setNamed settings entries config
  | .array items => setInOrder settings items config
  | .tables items => setInOrder settings (items.map (Toml.table .header)) config
  | .date => some config
  | _ => none

end Setting

open Setting

def ConnectionConfig.settings : List (Setting ConnectionConfig) :=
  [⟨"host", fun v c => (text? v).map fun host => { c with host }⟩,
    ⟨"port", fun v c => (nat? 16 v).map fun port => { c with port }⟩,
    ⟨"password", fun v c => (text? v).map fun password => { c with password }⟩,
    ⟨"connect_timeout_ms", fun v c => (nat? 64 v).map fun connectTimeout => { c with connectTimeout }⟩,
    ⟨"read_timeout_ms", fun v c => (nat? 64 v).map fun readTimeout => { c with readTimeout }⟩]

def ScriptConfig.settings : List (Setting ScriptConfig) :=
  [⟨"library_dir", fun v c => (text? v).map fun libraryDir => { c with libraryDir }⟩,
    ⟨"tools_dir", fun v c => (text? v).map fun toolsDir => { c with toolsDir }⟩,
    ⟨"cache_scripts", fun v c => (boolean? v).map fun caching => { c with caching }⟩,
    ⟨"bootstrap_libraries", fun v c => (texts? v).map fun bootstrapLibraries => { c with bootstrapLibraries }⟩]

def SessionConfig.settings : List (Setting SessionConfig) :=
  [⟨"agents", fun v c => (nat? 64 v).map fun agents => { c with agents }⟩,
    ⟨"heartbeat_interval_ms", fun v c => (nat? 64 v).map fun heartbeatInterval => { c with heartbeatInterval }⟩,
    ⟨"teardown_timeout_ms", fun v c => (nat? 64 v).map fun teardownTimeout => { c with teardownTimeout }⟩,
    ⟨"game_speed", fun v c => (double? v).map fun gameSpeed => { c with gameSpeed }⟩]

namespace Config

def settings : List (Setting Config) :=
  [⟨"rcon", fun v c => (setAll ConnectionConfig.settings v c.connection).map fun connection => { c with connection }⟩,
    ⟨"scripts", fun v c => (setAll ScriptConfig.settings v c.scripts).map fun scripts => { c with scripts }⟩,
    ⟨"session", fun v c => (setAll SessionConfig.settings v c.session).map fun session => { c with session }⟩]

def ofText (text : List Char) (home : String := ".") : Except ControlError Config :=
  match (Toml.read? text).bind fun document => setAll settings document (default home) with
  | some config => .ok config
  | none => .error (.config "TOML parse error")

def cannotRead (path reason : String) : ControlError := .config s!"cannot read {path}: {reason}"

def ofFile (path : String) (files : FileTree) (home : String := ".") : Except ControlError Config :=
  match files.at? path with
  | none => .error (cannotRead path "No such file or directory (os error 2)")
  | some (.directory _) => .error (cannotRead path "Is a directory (os error 21)")
  | some (.file bytes) =>
    match Text.Utf8.decode? bytes with
    | none => .error (cannotRead path "stream did not contain valid UTF-8")
    | some text => ofText text home

/-- The configuration of a session: a file if one is given, then the environment. It must be valid. -/
def load (path : Option String) (files : FileTree) (env : String → Option String) (home : String := ".") :
    Except ControlError Config := do
  let config ← match path with
    | some path => ofFile path files home
    | none => pure (default home)
  let config ← config.override env
  config.validate
  return config

end Config

end RemoteConsole
