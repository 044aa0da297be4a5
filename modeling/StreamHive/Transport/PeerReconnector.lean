import Mathlib.Data.Finset.Basic
import StreamHive.Transport.TCPTransport

/-!
# The peer reconnector

`peerReconnector` dials its targets through the transport and dials a target again when
its peer disconnects.  The goroutines are those of the transport, in which a disconnect
callback now has sections of its own, one loop for each target that is being dialed, and
the call of `Start`.  Every critical section of `r.mu` is one step, together with the
check of the context before it; a loop's call of `Dial` runs as the transport's does.
-/

namespace StreamHive.Transport

open Verified Threads

/-! ## State -/

/-- The reconnector and its transport.  The keys of a map are a set; `started` says that
`Start` has returned. -/
structure PeerReconnector where
  tr : TCPTransport
  min : Int64
  max : Int64
  target : Finset String
  dialing : Finset String
  pending : Finset String
  cancelled : Bool
  started : Bool

/-- A goroutine of `loop`: what it does next. -/
inductive Loop where
  | starting (target : String) (initialDelay : Int64)
  | trying (target : String) (delay : Int64)
  | dialing (target : String) (delay : Int64) (h : Handler)
  | sleeping (target : String) (delay : Int64)
  | exiting (target : String)
  | retrying (target : String)
  deriving DecidableEq, Repr

/-- A goroutine; `scheduling` is a disconnect callback on its way from `noteDisconnect`
to `schedule`. -/
inductive Worker where
  | transport (th : Thread)
  | scheduling (tp : TCPPeer)
  | loop (l : Loop)
  | starter (left : List String)
  deriving DecidableEq, Repr

def nextBackoff (current maxDelay : Int64) : Int64 :=
  let next := current * 2
  if next ≤ 0 ∨ next > maxDelay then maxDelay else next

/-- The target that `OnPeerDisconnected` looks for. -/
def TCPPeer.disconnectTarget (tp : TCPPeer) : String :=
  if tp.dialTarget ≠ "" then tp.dialTarget else tp.remoteAddr

/-- The peer for which the disconnect callback is called next. -/
def Thread.disconnecting? : Thread → Option TCPPeer
  | .serve (.notifying tp) => some tp
  | _ => none

/-- What `Dial` has returned. -/
def Handler.returned? : Handler → Option (Option DialError)
  | .returned result => some result
  | _ => none

namespace PeerReconnector

/-- `newPeerReconnector`, over a new transport. -/
def new (maxPeers : Int) (targets : List String) (minBackoff maxBackoff : Int64) :
    PeerReconnector where
  tr := .new maxPeers
  min := minBackoff
  max := maxBackoff
  target := targets.toFinset
  dialing := ∅
  pending := ∅
  cancelled := false
  started := false

/-! ## Critical sections -/

/-- `schedule`, with the loop that it starts. -/
def schedule (r : PeerReconnector) (target : String) (initialDelay : Int64) :
    PeerReconnector × List Loop :=
  if r.cancelled then
    (r, [])
  else if target ∈ r.dialing then
    (r, [])
  else
    ({ r with dialing := insert target r.dialing }, [.starting target initialDelay])

/-- `noteDisconnect`, up to its call of `schedule` if there is one. -/
def noteDisconnect (r : PeerReconnector) (target : String) : PeerReconnector × Bool :=
  if r.cancelled then
    (r, false)
  else if target ∈ r.dialing then
    ({ r with pending := insert target r.pending }, false)
  else
    (r, true)

/-- `OnPeerDisconnected`, up to its call of `schedule` if there is one. -/
def onPeerDisconnected (r : PeerReconnector) (tp : TCPPeer) : PeerReconnector × Bool :=
  if tp.outbound = false then
    (r, false)
  else if tp.disconnectTarget ∉ r.target then
    (r, false)
  else
    r.noteDisconnect tp.disconnectTarget

def finishLoop (r : PeerReconnector) (target : String) : PeerReconnector × Bool :=
  ({ r with dialing := r.dialing.erase target, pending := r.pending.erase target },
    target ∈ r.pending)

/-- The disconnect callback of a peer returns. -/
def callbackReturns (r : PeerReconnector) (tp : TCPPeer) : PeerReconnector :=
  { r with tr := r.tr.note tp .onPeerDisconnected }

/-- `sleepContext`: the timer fires, or the context is done. -/
def sleepContext (choice : Choice) (r : PeerReconnector) : Option Bool :=
  match choice with
  | .proceed => some true
  | .fail => if r.cancelled then some false else none
  | _ => none

end PeerReconnector

/-! ## Goroutines -/

/-- The next step of `loop`: the loops in its place, and the serve loops that it starts. -/
def Loop.next (choice : Choice) (r : PeerReconnector) :
    Loop → Option (PeerReconnector × List Loop × List Serve)
  | .starting target initialDelay =>
    if initialDelay > 0 then
      match r.sleepContext choice with
      | some true => some (r, [.trying target r.min], [])
      | some false => some (r, [.exiting target], [])
      | none => none
    else
      some (r, [.trying target r.min], [])
  | .trying target delay =>
    if r.cancelled then
      some (r, [.exiting target], [])
    else
      some (r, [.dialing target delay (.beginning target)], [])
  | .dialing target delay h =>
    match h.returned? with
    | some none => some (r, [.exiting target], [])
    | some (some _) => some (r, [.sleeping target delay], [])
    | none =>
      (h.next choice r.tr).map fun (t, h, serves) =>
        ({ r with tr := t }, [.dialing target delay h], serves)
  | .sleeping target delay =>
    match r.sleepContext choice with
    | some true => some (r, [.trying target (nextBackoff delay r.max)], [])
    | some false => some (r, [.exiting target], [])
    | none => none
  | .exiting target =>
    let (r, retry) := r.finishLoop target
    some (r, if retry && !r.cancelled then [.retrying target] else [], [])
  | .retrying target =>
    let (r, loops) := r.schedule target r.min
    some (r, loops, [])

/-- The next step of a goroutine, with those it starts. -/
def Worker.next : Program Choice PeerReconnector Worker := fun choice r worker =>
  match worker with
  | .transport th =>
    match th.disconnecting? with
    | some tp =>
      match r.onPeerDisconnected tp with
      | (r, true) => some (r, [.scheduling tp])
      | (r, false) => some (r.callbackReturns tp, [.transport (.serve (.notified tp))])
    | none =>
      (th.next choice r.tr).map fun (t, ts) => ({ r with tr := t }, ts.map .transport)
  | .scheduling tp =>
    let (r, loops) := r.schedule tp.disconnectTarget r.min
    some (r.callbackReturns tp, .transport (.serve (.notified tp)) :: loops.map .loop)
  | .loop l =>
    (l.next choice r).map fun (r, loops, serves) =>
      (r, loops.map .loop ++ serves.map fun s => .transport (.serve s))
  | .starter [] => some ({ r with started := true }, [])
  | .starter (target :: left) =>
    let (r, loops) := r.schedule target 0
    some (r, .starter left :: loops.map .loop)

/-! ## Runs -/

namespace PeerReconnector

abbrev System := Pool PeerReconnector Worker

/-- A call on the transport, the call of `Start`, which comes to the targets in any order,
the end of the context, or a step of a goroutine. -/
inductive Action where
  | call (c : Call)
  | start (order : List String)
  | cancel
  | run (i : Nat) (choice : Choice)
  deriving DecidableEq, Repr

namespace System

def new (maxPeers : Int) (targets : List String) (minBackoff maxBackoff : Int64) : System :=
  ⟨.new maxPeers targets minBackoff maxBackoff, []⟩

def step (s : System) : Action → System
  | .call c => Pool.start s (.transport c.thread)
  | .start order =>
    if order.Nodup ∧ order.toFinset = s.shared.target then
      Pool.start s (.starter order)
    else
      s
  | .cancel => ⟨{ s.shared with cancelled := true }, s.threads⟩
  | .run i choice => Pool.run Worker.next s i choice

/-- The reconnector after some actions. -/
def after (maxPeers : Int) (targets : List String) (minBackoff maxBackoff : Int64)
    (actions : List Action) : System :=
  Transition.run step (new maxPeers targets minBackoff maxBackoff) actions

end System

end PeerReconnector

end StreamHive.Transport
