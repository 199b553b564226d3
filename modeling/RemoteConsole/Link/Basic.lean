import RemoteConsole.Action

/-!
# Links

A link is a blocking channel of text requests and replies. Any state machine can stand behind it,
so what is said of a link here holds of every remote side. Only one request is under way at a
time: the wire serializes them, and a crash inside a request leaves the wire unusable for more.
-/

namespace RemoteConsole

structure Duration where
  nanoseconds : Nat
deriving DecidableEq, Repr

structure LinkReply where
  text : String
  elapsed : Duration

structure Link (σ : Type) where
  send : String → Action σ LinkReply
  sendBatch : List (String × String) → Action σ (List (String × String))
  close : Action σ Unit
  /-- How a request ends that is broken off, if the link can break one off. -/
  interrupt : Option (Action σ LinkReply)

def Link.zoom {σ τ : Type} (part : τ → σ) (update : σ → τ → τ) (l : Link σ) : Link τ where
  send command := Action.zoom part update (l.send command)
  sendBatch entries := Action.zoom part update (l.sendBatch entries)
  close := Action.zoom part update l.close
  interrupt := l.interrupt.map (Action.zoom part update)

inductive Sent where
  | command (text : String)
  | batch (entries : List (String × String))
  | close
deriving DecidableEq, Repr

/-- What was sent and, for a command that was answered, the text of the reply. -/
structure Exchange where
  item : Sent
  reply : Option String
deriving DecidableEq, Repr

structure Wire (σ : Type) where
  link : Link σ
  state : σ
  poisoned : Bool
  exchanges : List Exchange

namespace Wire

variable {σ α : Type}

def connect (link : Link σ) (state : σ) : Wire σ := ⟨link, state, false, []⟩

def sent (w : Wire σ) : List Sent := w.exchanges.map Exchange.item

/-- Sends one item and leaves the wire poisoned if the link crashes. -/
def transmit (item : Sent) (text : α → Option String) (request : Action σ α) : Action (Wire σ) α := fun w =>
  let (outcome, state) := request w.state
  let reply := match outcome with
    | .ok a => text a
    | _ => none
  (outcome, { w with state, poisoned := w.poisoned || outcome.isCrash, exchanges := w.exchanges ++ [⟨item, reply⟩] })

def ask (command : String) (request : Action σ LinkReply) : Action (Wire σ) LinkReply :=
  transmit (.command command) (fun r => some r.text) request

def lockPoisoned : ControlError := .transport "console link lock poisoned"

def send (command : String) : Action (Wire σ) LinkReply := fun w =>
  if w.poisoned then (.error lockPoisoned, w)
  else ask command (w.link.send command) w

def sendBatch (entries : List (String × String)) : Action (Wire σ) (List (String × String)) := fun w =>
  if w.poisoned then (.error lockPoisoned, w)
  else transmit (.batch entries) (fun _ => none) (w.link.sendBatch entries) w

/-- Closes the link, also when it is poisoned. -/
def close : Action (Wire σ) Unit := fun w => transmit .close (fun _ => none) w.link.close w

/-- Closes while a request is under way: the link itself is left alone, and the request is broken
off if the link can do so. Returns whether it was and how it ended. -/
def closeDuring (command : String) : Action (Wire σ) (Bool × Outcome LinkReply) := fun w =>
  if w.poisoned then (.ok (false, .error lockPoisoned), w)
  else match w.link.interrupt with
    | some broken =>
      let (ending, w) := ask command broken w
      (.ok (true, ending), w)
    | none =>
      let (ending, w) := ask command (w.link.send command) w
      (.ok (false, ending), w)

end Wire

end RemoteConsole
