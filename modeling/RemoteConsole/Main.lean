import Std.Async.DNS
import Std.Async.TCP
import Std.Async.Timer
import RemoteConsole.CommandLine.Run

/-!
# The command line program

The program is a pure run over the bytes that have arrived. What the run writes is sent; when it
finds too few bytes, more are read and it is run again from the start.
-/

namespace RemoteConsole

open Std.Async Std.Net

/-! ## Files -/

def copyFile (path : String) (files : FileTree) : IO FileTree := do
  try return files.write path (← IO.FS.readBinFile path).toList
  catch _ => return files

/-- Copies what a directory on disk holds into a tree. The file `index` in a directory lists its
entries, one a line, and puts a slash after those that are directories. -/
partial def copyDirectory (path : String) (files : FileTree) : IO FileTree := do
  let index ← try IO.FS.readFile (FileTree.join path "index") catch _ => return files
  let names := ((Text.lines index.toList).filter (!·.isEmpty)).map String.ofList
  names.foldlM (fun files name =>
    if name.endsWith "/" then copyDirectory (FileTree.join path name) (files.makeDirectory (FileTree.join path name))
    else copyFile (FileTree.join path name) files) files

/-! ## The connection -/

def firstAddress (host : String) (port : UInt16) : Async (Option SocketAddress) := do
  match IPv4Addr.ofString host with
  | some address => return some (.v4 ⟨address, port⟩)
  | none =>
    match (← DNS.getAddrInfo host "").toList with
    | .v4 address :: _ => return some (.v4 ⟨address, port⟩)
    | .v6 address :: _ => return some (.v6 ⟨address, port⟩)
    | [] => return none

def connect (c : ConnectionConfig) : IO TCP.Socket.Client := do
  match (← (firstAddress c.host (UInt16.ofNat c.port)).block) with
  | none => throw (IO.userError s!"cannot resolve {c.host}:{c.port}")
  | some address =>
    let client ← TCP.Socket.Client.mk
    (client.connect address).block
    client.noDelay
    return client

/-- The bytes that come next, or nothing at the end of the input or when the time is over. -/
def receive (client : TCP.Socket.Client) (timeout : Nat) : Async (Option ByteArray) := do
  let clock ← Selector.sleep (Std.Time.Millisecond.Offset.ofInt timeout)
  Selectable.one #[.case (client.recvSelector 65536) (fun bytes => pure bytes), .case clock (fun _ => pure none)]

/-- Nothing answers at once: what arrives is read from the connection between two runs. -/
def silent : Peer Unit := fun _ s => (([], ⟨0⟩), s)

partial def converse (client : TCP.Socket.Client) (timeout : Nat) (run : List UInt8 → CommandLine.Run Unit)
    (arrived : List UInt8) (sent waited : Nat) : IO CommandLine.Result := do
  let r := run arrived
  IO.sleep (UInt32.ofNat ((r.waited.nanoseconds - waited) / 1000000))
  let written := r.connection.written
  unless (written.drop sent).isEmpty do (client.send ⟨(written.drop sent).toArray⟩).block
  if !r.connection.starved then return r.result
  match (← (receive client timeout).block) with
  | some bytes => converse client timeout run (arrived ++ bytes.toList) written.length r.waited.nanoseconds
  | none => return r.result

def runRequest (files : FileTree) (config : Config) (r : CommandLine.Request) : IO CommandLine.Result := do
  try
    let client ← connect config.connection
    converse client config.connection.readTimeout
      (fun arrived => r.run silent files config (Rcon.new () arrived)) [] 0 0
  catch e => return CommandLine.starting (.transport e.toString)

/-! ## The program -/

def environmentNames : List String :=
  ["SIMCTL_CONFIG", "SIMCTL_RCON_HOST", "SIMCTL_RCON_PORT", "SIMCTL_RCON_PASSWORD", "SIMCTL_CACHE_SCRIPTS",
    "SIMCTL_AGENTS"]

def readEnvironment : IO (String → Option String) := do
  let found ← environmentNames.mapM fun name => do return (name, ← IO.getEnv name)
  return fun name => (Assoc.get? name found).join

def runInvocation (env : String → Option String) (i : CommandLine.Invocation) : IO CommandLine.Result := do
  let settings ← match i.config with
    | some path => copyFile path .empty
    | none => pure .empty
  match i.configure env settings with
  | .error report => return .failure report
  | .ok config =>
    let files ← copyDirectory config.scripts.libraryDir .empty
    runRequest (← copyDirectory config.scripts.toolsDir files) config i.request

def runWords (words : List String) : IO CommandLine.Result := do
  let env ← readEnvironment
  match CommandLine.Invocation.read (env "SIMCTL_CONFIG") words with
  | .ok i => runInvocation env i
  | .error .help => return .success CommandLine.helpText
  | .error .version => return .success CommandLine.versionText
  | .error .refused => return ⟨2, "", CommandLine.helpText⟩

end RemoteConsole

def main (words : List String) : IO UInt32 := do
  let result ← RemoteConsole.runWords words
  (← IO.getStdout).putStr result.output
  (← IO.getStderr).putStr result.errors
  return UInt32.ofNat result.exitCode
