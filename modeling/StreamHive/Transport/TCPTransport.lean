import Std.Data.ExtTreeMap
import StreamHive.Verified.Threads
import StreamHive.Verified.Transition

/-!
# The TCP transport

The bookkeeping of `TCPTransport` and the goroutines that share it: the accept loop, one
goroutine for each accepted connection, the calls to `Dial`, the serve loop of each
registered peer, and the calls to `Drain` and `Close`.  Every critical section of `t.mu`
is one step; closing a socket, a callback and the outcome of a blocking call are steps of
their own.  What the network, the handshakes, the frame handler and the deadlines do is
up to the environment.

`sync.Once` lets one call of `Drain` or `Close` in; nothing else reads it, so it is
taken together with the critical section of `beginShutdown`.
-/

namespace StreamHive.Transport

open Verified Threads

/-! ## State -/

/-- `transportLifecycleState` -/
inductive LifecycleState where
  | open_
  | draining
  | closed
  deriving DecidableEq, Repr

/-- A connection wrapped as a peer; `id` tells two of them apart, as their addresses in
memory do. -/
structure TCPPeer where
  id : Nat
  remoteAddr : String
  outbound : Bool
  dialTarget : String
  deriving DecidableEq, Repr

/-- What happens to a peer, in the order in which it should. -/
inductive PeerEvent where
  | registered
  | onPeer
  | served
  | onPeerDisconnected
  deriving DecidableEq, Repr

/-- The transport.  Channels are numbered as they are made; `closes` lists every call of
`close` on one.  `opened` and `closed` are the connections that were accepted or dialed,
and those that the transport has closed; `log` is what happened to the peers. -/
structure TCPTransport where
  maxPeers : Int
  state : LifecycleState
  listener : Bool
  bound : Bool
  peers : Std.ExtTreeMap String TCPPeer
  connections : List TCPPeer
  workCount : Nat
  workDone : Nat
  channels : Nat
  closes : List Nat
  activePeers : Int
  shutdownTrackedPeers : Int
  shutdownTrackedGoroutines : Int
  finished : Bool
  opened : List TCPPeer
  closed : List TCPPeer
  log : List (TCPPeer × PeerEvent)

namespace TCPTransport

/-- `NewTCPTransport` -/
def new (maxPeers : Int) : TCPTransport where
  maxPeers := maxPeers
  state := .open_
  listener := false
  bound := false
  peers := ∅
  connections := []
  workCount := 0
  workDone := 0
  channels := 1
  closes := [0]
  activePeers := 0
  shutdownTrackedPeers := 0
  shutdownTrackedGoroutines := 0
  finished := false
  opened := []
  closed := []
  log := []

/-! ## Critical sections -/

variable (t : TCPTransport)

def startWorkLocked : Option TCPTransport :=
  if t.state ≠ .open_ then
    none
  else
    some { t with
      workDone := if t.workCount = 0 then t.channels else t.workDone
      channels := if t.workCount = 0 then t.channels + 1 else t.channels
      workCount := t.workCount + 1
      shutdownTrackedGoroutines := t.shutdownTrackedGoroutines + 1 }

def finishWork : TCPTransport :=
  if t.workCount = 0 then
    t
  else
    { t with
      workCount := t.workCount - 1
      shutdownTrackedGoroutines := t.shutdownTrackedGoroutines - 1
      closes := if t.workCount - 1 = 0 then t.closes ++ [t.workDone] else t.closes }

def trackConnection (tp : TCPPeer) : Option TCPTransport :=
  if t.state ≠ .open_ then none else some { t with connections := t.connections.insert tp }

def removeConnection (tp : TCPPeer) : TCPTransport :=
  { t with connections := t.connections.erase tp }

/-- The accept loop admits a connection: it starts work for it and tracks it. -/
def admitted (tp : TCPPeer) : Option TCPTransport := do
  let t ← t.startWorkLocked
  some { t with connections := t.connections.insert tp }

/-- What the critical section of `handlePeer` decides. -/
inductive Registration where
  | registered
  | transportClosed
  | duplicate
  | full
  deriving DecidableEq, Repr

/-- Something has happened to a peer. -/
def note (tp : TCPPeer) (event : PeerEvent) : TCPTransport :=
  { t with log := t.log ++ [(tp, event)] }

/-- The critical section of `handlePeer`. -/
def register (tp : TCPPeer) : Registration × TCPTransport :=
  if t.state ≠ .open_ then
    (.transportClosed, t)
  else if tp.remoteAddr ∈ t.peers then
    (.duplicate, t)
  else if t.maxPeers > 0 ∧ t.peers.size ≥ t.maxPeers then
    (.full, t)
  else
    match t.startWorkLocked with
    | none => (.transportClosed, t)
    | some t =>
      (.registered, { t with
        peers := t.peers.insert tp.remoteAddr tp
        activePeers := t.activePeers + 1
        shutdownTrackedPeers := t.shutdownTrackedPeers + 1 }.note tp .registered)

/-- The critical section of `unregisterPeer`. -/
def unregister (tp : TCPPeer) : TCPTransport :=
  if tp.remoteAddr ∈ t.peers then
    { t with
      peers := t.peers.erase tp.remoteAddr
      activePeers := t.activePeers - 1
      shutdownTrackedPeers := t.shutdownTrackedPeers - 1 }
  else
    t

def registeredConnection (tp : TCPPeer) : Bool :=
  t.peers[tp.remoteAddr]? = some tp

/-- The tracked connections that are not registered, and those that are. -/
def snapshotConnections : List TCPPeer × List TCPPeer :=
  (t.connections.filter fun tp => !t.registeredConnection tp,
    t.connections.filter fun tp => t.registeredConnection tp)

/-- The state that `beginShutdown` leaves. -/
def beginShutdown : TCPTransport :=
  { t with state := .draining, listener := false }

def markClosed : TCPTransport := { t with state := .closed }

/-- `ListenAndAccept` installs its listener, unless it is too late or there is one. -/
def listen : Option TCPTransport := do
  if t.listener then
    none
  let t ← t.startWorkLocked
  some { t with listener := true, bound := true }

/-! ## Sockets -/

/-- A connection is accepted or dialed. -/
def openConn (remoteAddr : String) (outbound : Bool) (dialTarget : String) :
    TCPPeer × TCPTransport :=
  let tp : TCPPeer := ⟨t.opened.length, remoteAddr, outbound, dialTarget⟩
  (tp, { t with opened := t.opened ++ [tp] })

/-- `tp.Close` -/
def closeConn (tp : TCPPeer) : TCPTransport :=
  { t with closed := t.closed.insert tp }

/-- What has happened to a peer so far. -/
def history (tp : TCPPeer) : List PeerEvent :=
  (t.log.filter fun entry => entry.1 = tp).map Prod.snd

end TCPTransport

/-! ## Goroutines -/

/-- What the environment decides when a goroutine runs. -/
inductive Choice where
  | proceed
  | fail
  | connect (remoteAddr : String)
  | peer (tp : TCPPeer)
  deriving DecidableEq, Repr

/-- An error returned by `Dial`. -/
inductive DialError where
  | transportClosed
  | failed
  deriving DecidableEq, Repr

/-- A goroutine of `handleAcceptedConn`, from `handshaking` on, or a call of `Dial`: what
it does next.  `result` is what `Dial` returns, `none` for nil. -/
inductive Handler where
  | beginning (addr : String)
  | dialing (addr : String)
  | opened (tp : TCPPeer)
  | untracked (tp : TCPPeer)
  | handshaking (tp : TCPPeer)
  | failed (tp : TCPPeer)
  | registering (tp : TCPPeer)
  | refused (tp : TCPPeer)
  | late (tp : TCPPeer)
  | announcing (tp : TCPPeer)
  | starting (tp : TCPPeer)
  | leaving (tp : TCPPeer) (result : Option DialError)
  | finishing (result : Option DialError)
  | returned (result : Option DialError)
  deriving DecidableEq, Repr

/-- A goroutine of `peerServe`, from its loop through `unregisterPeer`. -/
inductive Serve where
  | serving (tp : TCPPeer)
  | ended (tp : TCPPeer)
  | unlisted (tp : TCPPeer)
  | notifying (tp : TCPPeer)
  | notified (tp : TCPPeer)
  | gone
  deriving DecidableEq, Repr

/-- A call of `Close` (`hard`) or `Drain`. -/
inductive Stop where
  | entering (hard : Bool)
  | begun (hard : Bool) (pending active : List TCPPeer)
  | closing (hard : Bool) (left : List TCPPeer)
  | awaiting
  | waiting (done : Nat)
  | drained
  | expired
  | forcing (left : List TCPPeer)
  | rejoining
  | joining (done : Nat)
  | completing
  | leaving
  | returned
  deriving DecidableEq, Repr

inductive Thread where
  | listening
  | accepting
  | blocked
  | accepted (tp : TCPPeer)
  | rejecting (tp : TCPPeer)
  | exiting
  | handler (h : Handler)
  | serve (s : Serve)
  | stop (s : Stop)
  deriving DecidableEq, Repr

/-- The next step of `handleAcceptedConn` and `Dial`, with the serve loop it starts. -/
def Handler.next (choice : Choice) (t : TCPTransport) :
    Handler → Option (TCPTransport × Handler × List Serve)
  | .beginning addr =>
    match t.startWorkLocked with
    | some t => some (t, .dialing addr, [])
    | none => some (t, .returned (some .transportClosed), [])
  | .dialing addr =>
    match choice with
    | .connect remoteAddr =>
      -- The dialer refuses an empty address.
      if addr = "" then none
      else
        let (tp, t) := t.openConn remoteAddr true addr
        some (t, .opened tp, [])
    | .fail =>
      some (t, .finishing (some (if t.state ≠ .open_ then .transportClosed else .failed)),
        [])
    | _ => none
  | .opened tp =>
    match t.trackConnection tp with
    | some t => some (t, .handshaking tp, [])
    | none => some (t, .untracked tp, [])
  | .untracked tp => some (t.closeConn tp, .finishing (some .transportClosed), [])
  | .handshaking tp =>
    match choice with
    | .proceed => some (t, .registering tp, [])
    | .fail => some (t, .failed tp, [])
    | _ => none
  | .failed tp => some (t.closeConn tp, .leaving tp (some .failed), [])
  | .registering tp =>
    match t.register tp with
    | (.registered, t) => some (t, .announcing tp, [])
    | (.transportClosed, t) => some (t, .late tp, [])
    | (.duplicate, t) => some (t, .refused tp, [])
    | (.full, t) => some (t, .refused tp, [])
  -- A refused connection is closed, and `handlePeer` reports no error.
  | .refused tp => some (t.closeConn tp, .leaving tp none, [])
  | .late tp => some (t.closeConn tp, .leaving tp (some .transportClosed), [])
  | .announcing tp => some (t.note tp .onPeer, .starting tp, [])
  | .starting tp => some (t, .finishing none, [.serving tp])
  | .leaving tp result => some (t.removeConnection tp, .finishing result, [])
  | .finishing result => some (t.finishWork, .returned result, [])
  | .returned _ => none

/-- The next step of `peerServe`; its loop may end at any time. -/
def Serve.next (t : TCPTransport) : Serve → Option (TCPTransport × Serve)
  | .serving tp => some (t.note tp .served, .ended tp)
  | .ended tp => some (t.unregister tp, .unlisted tp)
  | .unlisted tp => some (t.removeConnection tp, .notifying tp)
  | .notifying tp => some (t.note tp .onPeerDisconnected, .notified tp)
  | .notified _ => some (t.finishWork, .gone)
  | .gone => none

/-- Close one of the connections that are left, in any order; then go on. -/
def Stop.closeNext (choice : Choice) (t : TCPTransport) (left : List TCPPeer)
    (again : List TCPPeer → Stop) (done : Stop) : Option (TCPTransport × Stop) :=
  match left, choice with
  | [], _ => some (t, done)
  | _, .peer tp => if tp ∈ left then some (t.closeConn tp, again (left.erase tp)) else none
  | _, _ => none

/-- Wait for a channel to be closed, or for a deadline. -/
def Stop.wait (choice : Choice) (t : TCPTransport) (done : Nat) (joined late : Stop) :
    Option (TCPTransport × Stop) :=
  match choice with
  | .proceed => if done ∈ t.closes then some (t, joined) else none
  | .fail => some (t, late)
  | _ => none

/-- The next step of `Drain` and `Close`. -/
def Stop.next (choice : Choice) (t : TCPTransport) : Stop → Option (TCPTransport × Stop)
  | .entering hard =>
    if t.state = .open_ then
      let (pending, active) := t.snapshotConnections
      some (t.beginShutdown, .begun hard pending active)
    else if t.finished then
      some (t, .returned)
    else
      none
  | .begun hard pending active =>
    some ({ t with bound := false },
      .closing hard (if hard then pending ++ active else pending))
  | .closing hard left =>
    closeNext choice t left (.closing hard) (if hard then .completing else .awaiting)
  | .awaiting => some (t, .waiting t.workDone)
  | .waiting done => wait choice t done .drained .expired
  | .drained => some (t.markClosed, .leaving)
  | .expired =>
    let (pending, active) := t.snapshotConnections
    some (t, .forcing (pending ++ active))
  | .forcing left => closeNext choice t left .forcing .rejoining
  | .rejoining => some (t, .joining t.workDone)
  | .joining done => wait choice t done .completing .completing
  | .completing => some (t.markClosed, .leaving)
  | .leaving => some ({ t with finished := true }, .returned)
  | .returned => none

/-- The next step of a goroutine, with those it starts. -/
def Thread.next : Program Choice TCPTransport Thread := fun choice t thread =>
  match thread with
  | .listening =>
    match t.listen with
    | some t => some (t, [.accepting])
    | none => some (t, [])
  | .accepting => if t.listener then some (t, [.blocked]) else some (t, [.exiting])
  | .blocked =>
    match choice with
    | .connect remoteAddr =>
      if t.bound then
        let (tp, t) := t.openConn remoteAddr false ""
        some (t, [.accepted tp])
      else
        none
    | .fail => some (t, [.exiting])
    | _ => none
  | .accepted tp =>
    match t.admitted tp with
    | some t => some (t, [.accepting, .handler (.handshaking tp)])
    | none => some (t, [.rejecting tp])
  | .rejecting tp => some (t.closeConn tp, [.accepting])
  | .exiting => some (t.finishWork, [])
  | .handler h =>
    (h.next choice t).map fun (t, h, serves) => (t, .handler h :: serves.map .serve)
  | .serve s => (s.next t).map fun (t, s) => (t, [.serve s])
  | .stop s => (s.next choice t).map fun (t, s) => (t, [.stop s])

/-! ## Runs -/

/-- A call on the transport from outside. -/
inductive Call where
  | listenAndAccept
  | dial (addr : String)
  | drain
  | close
  deriving DecidableEq, Repr

def Call.thread : Call → Thread
  | .listenAndAccept => .listening
  | .dial addr => .handler (.beginning addr)
  | .drain => .stop (.entering false)
  | .close => .stop (.entering true)

inductive Action where
  | call (c : Call)
  | run (i : Nat) (choice : Choice)
  deriving DecidableEq, Repr

abbrev System := Pool TCPTransport Thread

namespace System

def new (maxPeers : Int) : System := ⟨.new maxPeers, []⟩

def step (s : System) : Action → System
  | .call c => s.start c.thread
  | .run i choice => s.run Thread.next i choice

/-- The transport after some actions. -/
def after (maxPeers : Int) (actions : List Action) : System :=
  Transition.run step (new maxPeers) actions

end System

end StreamHive.Transport
