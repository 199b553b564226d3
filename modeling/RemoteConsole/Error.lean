import RemoteConsole.Reply.Decode
import RemoteConsole.Script.Structure

/-!
# Errors of the control plane

Failures of the transport and of the structure of a script end what was going on. A failure that
the remote side reports always reaches the immediate caller. A capability that is missing on the
remote side is handled inside the session, by a reload.
-/

namespace RemoteConsole

inductive BatchFault where
  | addOutside
  | executeOutside
deriving DecidableEq, Repr

inductive ControlError where
  | transport (message : String)
  | script (fragment : String) (issue : Script.Issue)
  | remote (error : RemoteError)
  /-- The remote side does not know a capability that is installed there. -/
  | cacheMismatch (capability : String)
  | missingLibrary (name : String)
  | unknownFragment (name : String)
  | loading (directory identifier reason : String)
  | unknownCapability (name : String) (agent : Nat)
  | transaction (fault : BatchFault)
  | invalidArgument (capability message : String)
  | config (message : String)
  | unreadable
deriving DecidableEq, Repr

def BatchFault.message : BatchFault → String
  | addOutside => "add() called with no open transaction"
  | executeOutside => "execute() called with no open transaction"

namespace ControlError

def message : ControlError → String
  | transport text => s!"transport error: {text}"
  | script fragment issue =>
    s!"syntax error in fragment `{fragment}` (line {issue.line}): {issue.fault.message}"
  | remote error => s!"remote error: {error.message}"
  | cacheMismatch capability => s!"capability `{capability}` is not registered on the remote side"
  | missingLibrary name => s!"library script `{name}` not found"
  | unknownFragment name => s!"unknown script fragment `{name}`"
  | loading directory identifier reason =>
    s!"failed to load capability from `{directory}` ({identifier}): {reason}"
  | unknownCapability name agent => s!"no capability named `{name}` on agent {agent}"
  | transaction fault => s!"transaction error: {fault.message}"
  | invalidArgument capability text => s!"invalid argument for `{capability}`: {text}"
  | config text => s!"configuration error: {text}"
  | unreadable => "IO error: stream did not contain valid UTF-8"

def isFatal : ControlError → Bool
  | transport _ | script _ _ | missingLibrary _ | loading _ _ _ => true
  | _ => false

end ControlError

end RemoteConsole
