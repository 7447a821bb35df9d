import Librespot.Base.Run

/-!
# The dealer's goroutines (`dealer/dealer.go`, `dealer/recv.go`)

`recvLoop` reads frames and closes the receivers at the end, `dispatchLoop` sends to them, and other
goroutines register receivers and close the dealer. One step is what a goroutine does up to the next
point where another one can come in between. A receiver is the number of its channel. A panic other
than that of a send ends the program and has no step.
-/

namespace Librespot.Dealer

inductive FrameType where
  | message
  | request
  | ping
  | pong
  | other
deriving DecidableEq, Repr

/-- `decodes` tells whether the payload can be decoded. -/
structure RawMessage where
  type : FrameType
  uri : String := ""
  messageIdent : String := ""
  payloads : Nat := 0
  decodes : Bool := true
deriving DecidableEq, Repr

structure MessageReceiver where
  uriPrefixes : List String
  c : Nat
deriving DecidableEq, Repr

/-- A call of `ReceiveMessage` or `ReceiveRequest` that has found the dealer open. -/
inductive Registration where
  | message (uriPrefixes : List String)
  | request (uri : String)
deriving DecidableEq, Repr

/-- Where `recvLoop` is. While it closes receivers it holds their lock for reading. -/
inductive RecvLoop where
  | notStarted
  | reading
  | handing (m : RawMessage)
  | leaving
  | retrying
  | closingRequests (left : List Nat)
  | closingMessages (left : List Nat)
  | stopped
deriving DecidableEq, Repr

inductive DispatchLoop where
  | notStarted
  | idle
  | handling (m : RawMessage)
  | sending (targets : List Nat)
  | requesting (c : Nat)
  | replying
  | stopped
  | crashed
deriving DecidableEq, Repr

structure State where
  done : Bool := false
  dispatchCh : List RawMessage := []
  messageReceivers : List MessageReceiver := []
  requestReceivers : List (String × Nat) := []
  channels : Nat := 0
  closed : List Nat := []
  registering : List Registration := []
  recv : RecvLoop := .notStarted
  dispatch : DispatchLoop := .notStarted
  sent : List (Nat × Bool) := []
deriving DecidableEq, Repr

inductive Label where
  | receiveMessage (uriPrefixes : List String)
  | receiveRequest (uri : String)
  | register (i : Nat)
  | close
  | frame (m : RawMessage)
  | readFails
  | hand
  | quit
  | leave
  | reconnected
  | giveUp
  /-- The receiver of requests `i` of those left, which are in a map, or the next one of messages. -/
  | closeNext (i : Nat)
  | take
  | stopDispatch
  | lookup
  | send
  | abandon
  | reply
deriving DecidableEq, Repr

namespace State

def startReceiving (s : State) : State :=
  if s.recv = .notStarted ∧ s.dispatch = .notStarted then
    { s with recv := .reading, dispatch := .idle }
  else s

def addMessageReceiver (uriPrefixes : List String) (s : State) : State :=
  { s with
    messageReceivers := s.messageReceivers ++ [{ uriPrefixes, c := s.channels }]
    channels := s.channels + 1 }

def addRequestReceiver (uri : String) (s : State) : State :=
  { s with
    requestReceivers := s.requestReceivers ++ [(uri, s.channels)]
    channels := s.channels + 1 }

def register (i : Nat) (s : State) : Option State := do
  let registration ← s.registering[i]?
  let s := { s with registering := s.registering.eraseIdx i }
  match registration, s.recv with
  | .message _, .closingMessages _ | .request _, .closingRequests _ => none
  | .message uriPrefixes, _ => some (s.addMessageReceiver uriPrefixes).startReceiving
  | .request uri, _ =>
    if (s.requestReceivers.lookup uri).isSome then none
    else some (s.addRequestReceiver uri).startReceiving

def closeNext (i : Nat) (s : State) : Option State :=
  match s.recv with
  | .closingRequests [] =>
    some { s with recv := .closingMessages (s.messageReceivers.map (·.c)) }
  | .closingRequests left => left[i]?.map fun c =>
    { s with closed := c :: s.closed, recv := .closingRequests (left.eraseIdx i) }
  | .closingMessages (c :: left) =>
    some { s with closed := c :: s.closed, recv := .closingMessages left }
  | .closingMessages [] => some { s with recv := .stopped }
  | _ => none

def beginClosing (s : State) : State :=
  { s with recv := .closingRequests (s.requestReceivers.map (·.2)) }

/-! ## `dispatchLoop` -/

def matchedReceivers (uri : String) (s : State) : List Nat :=
  (s.messageReceivers.filter fun recv =>
    recv.uriPrefixes.any fun p => p.toList.isPrefixOf uri.toList).map (·.c)

def lookup (m : RawMessage) (s : State) : Option DispatchLoop :=
  match m.type with
  | .message =>
    if m.payloads > 1 then none
    else
      match s.matchedReceivers m.uri with
      | [] => some .idle
      | targets => some (if m.decodes then .sending targets else .idle)
  | .request =>
    match s.requestReceivers.lookup m.messageIdent with
    | none => some .idle
    | some c => some (if m.decodes then .requesting c else .idle)
  | _ => some .idle

def isClosed (c : Nat) (s : State) : Bool := c ∈ s.closed

def sendTo (c : Nat) (next : DispatchLoop) (s : State) : State :=
  { s with
    sent := s.sent ++ [(c, s.isClosed c)]
    dispatch := if s.isClosed c then .crashed else next }

def send (s : State) : Option State :=
  match s.dispatch with
  | .sending [c] => some (s.sendTo c .idle)
  | .sending (c :: targets) => some (s.sendTo c (.sending targets))
  | .requesting c => some (s.sendTo c .replying)
  | _ => none

def abandon (s : State) : Option State :=
  if ¬ s.done then none
  else
    match s.dispatch with
    | .sending _ | .requesting _ | .replying => some { s with dispatch := .idle }
    | _ => none

def step (s : State) : Label → Option State
  | .receiveMessage uriPrefixes =>
    if uriPrefixes = [] then none
    else if s.done then some s
    else some { s with registering := s.registering ++ [.message uriPrefixes] }
  | .receiveRequest uri =>
    if s.done then some s
    else some { s with registering := s.registering ++ [.request uri] }
  | .register i => s.register i
  | .close => some { s with done := true }
  | .frame m =>
    if s.recv ≠ .reading then none
    else if m.type = .message ∨ m.type = .request then some { s with recv := .handing m }
    else some s
  | .readFails => if s.recv = .reading then some { s with recv := .leaving } else none
  | .hand =>
    match s.recv with
    | .handing m =>
      if s.dispatchCh.length < 8 then
        some { s with dispatchCh := s.dispatchCh ++ [m], recv := .reading }
      else none
    | _ => none
  | .quit =>
    match s.done, s.recv with
    | true, .reading | true, .handing _ => some { s with recv := .leaving }
    | _, _ => none
  | .leave =>
    if s.recv ≠ .leaving then none
    else if s.done then some s.beginClosing
    else some { s with recv := .retrying }
  | .reconnected => if s.recv = .retrying then some { s with recv := .reading } else none
  | .giveUp => if s.recv = .retrying then some { s with done := true }.beginClosing else none
  | .closeNext i => s.closeNext i
  | .take =>
    match s.dispatch, s.dispatchCh with
    | .idle, m :: rest => some { s with dispatchCh := rest, dispatch := .handling m }
    | _, _ => none
  | .stopDispatch =>
    if s.done ∧ s.dispatch = .idle then some { s with dispatch := .stopped } else none
  | .lookup => do
    match s.dispatch with
    | .handling m =>
      let dispatch ← s.lookup m
      some { s with dispatch }
    | _ => none
  | .send => s.send
  | .abandon => s.abandon
  | .reply => if s.dispatch = .replying then some { s with dispatch := .idle } else none

end State

end Librespot.Dealer
