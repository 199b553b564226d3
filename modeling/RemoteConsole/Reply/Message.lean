import RemoteConsole.Reply.Location

/-!
# Messages of remote errors

An error text holds a message among banners, locations, the name of the interface that failed
and a stack trace. The message is found by cutting these away.
-/

namespace RemoteConsole.Reply

open Text

/-- What the remote side writes before an error of an interface call. -/
def interfaceBanner : List Char := "Error when running interface function".toList

/-- From this marker on an error text is a stack trace. -/
def tracebackMarker : List Char := "stack traceback".toList

def commandBanner : List Char := "Cannot execute command".toList

def chunkMarker : List Char := "[string \"".toList

structure Report where
  message : List Char
  traceback : Option (List Char)

def splitTraceback (s : List Char) : Report :=
  match cutFirst? tracebackMarker s with
  | some (head, rest) => ⟨head, some (trim (tracebackMarker ++ rest))⟩
  | none => ⟨s, none⟩

/-- The texts between an odd quote and the next one. -/
def quotedOf : List (List Char) → List (List Char)
  | _ :: inside :: after :: rest => inside :: quotedOf (after :: rest)
  | _ => []

def quotedParts (s : List Char) : List (List Char) := quotedOf (splitAt (· == '"') s)

/-- The last text in quotes that is not blank; else the last segment between colons that is not
blank, where a closing `in main chunk` does not count; else the text itself. -/
def extractMessage (s : List Char) : List Char :=
  let nonBlank (parts : List (List Char)) := (parts.map trim).filter (!·.isEmpty)
  match (nonBlank (quotedParts s)).getLast? with
  | some quoted => quoted
  | none =>
    let segments := nonBlank (splitAt (· == ':') s)
    let segments := if segments.getLast? = some "in main chunk".toList then segments.dropLast else segments
    segments.getLast?.getD s

/-- What follows `interface.function:` and the blanks after it at the start of a text. -/
def afterInterfaceName? (s : List Char) : Option (List Char) := do
  let s := trimStart s
  if (s.takeWhile isModuleChar).isEmpty then none
  else
    let s ← after? ['.'] (s.dropWhile isModuleChar)
    if (s.takeWhile isModuleChar).isEmpty then none
    else (after? [':'] (s.dropWhile isModuleChar)).map trimStart

def interfaceReport (s : List Char) : Report :=
  let rest := ((cutFirst? interfaceBanner s).map Prod.snd).getD s
  let ⟨head, traceback⟩ := splitTraceback rest
  let message := stripLocations ((afterInterfaceName? head).getD head)
  ⟨if message.isEmpty then extractMessage head else message, traceback⟩

def textReport (s : List Char) : Report :=
  if contains interfaceBanner s then interfaceReport s
  else
    let ⟨head, traceback⟩ := splitTraceback s
    let message := stripLocations head
    ⟨if message.isEmpty then trim s else message, traceback⟩

def isFailureBanner (s : List Char) : Bool :=
  contains chunkMarker ((lines s).getLast?.getD s)
    || (after? commandBanner s).isSome
    || contains interfaceBanner s

def stripCommandBanner (line : List Char) : List Char :=
  match after? commandBanner (trimStart line) with
  | none => line
  | some rest =>
    let rest := trimStart ((after? ['.'] rest).getD rest)
    match after? "Error:".toList rest with
    | some rest => trimStart rest
    | none => rest

/-- The message and the trace of a failure banner. A location is cut away before quotes are
looked for, since the source of a chunk is quoted too. -/
def bannerReport (s : List Char) : Report :=
  if contains interfaceBanner s then textReport s
  else
    let ⟨head, traceback⟩ := splitTraceback s
    let line := ((lines head).reverse.find? fun l => !(trim l).isEmpty).getD head
    let line := (stripCommandBanner line).dropWhile fun c => c == ':' || c == ' '
    let message := if (location? line).isSome then stripLocations line else extractMessage line
    ⟨if message.isEmpty then trim line else message, traceback⟩

end RemoteConsole.Reply
