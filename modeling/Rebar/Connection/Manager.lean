import Rebar.Lib.HashMap
import Rebar.Lib.Machine
import Rebar.Lib.Saturating
import Rebar.Swim.Gossip
import Rebar.Transport.Connection

/-!
# The connection manager

The model of `connection/manager.rs`: the live connections, the known addresses and the counters of failed
reconnects, each a map from node ids.

* `ReconnectPolicy.backoffDelay`   the delay before an attempt, in nanoseconds;
* `ConnectionManager.*`            the calls, with the connections they close and what they return;
* `Call`, `connectionMachine`      the runs of a manager.

What the connector answers to a call that dials is an argument of the call.  A connection is its number; a
connection that goes out of scope is dropped without `close`.
-/

namespace Rebar.Connection
open Swim (NodeId SocketAddr)
open Transport (TransportError)

inductive ConnectionError where
  | transport (e : TransportError)
  | unknownNode (nodeId : NodeId)
  | alreadyConnected (nodeId : NodeId)
  | gaveUp (nodeId : NodeId)
deriving DecidableEq

inductive ConnectionEvent where
  | nodeDown (nodeId : NodeId)
  | reconnectTriggered (nodeId : NodeId)
  | reconnectGaveUp (nodeId : NodeId)
deriving DecidableEq

/-! ## the policy -/

abbrev Nanos := Nat

/-- `Duration::MAX` -/
def maxDuration : Nanos := 18446744073709551615999999999

def maxU32 : Nat := 4294967295

structure ReconnectPolicy where
  baseDelay : Nanos
  maxDelay : Nanos
  maxAttempts : UInt32

namespace ReconnectPolicy

def default : ReconnectPolicy := ⟨1000000000, 30000000000, 10⟩

def backoffDelay (policy : ReconnectPolicy) (attempt : UInt32) : Nanos :=
  let multiplier := min (2 ^ attempt.toNat) u64Max.toNat
  let multiplier := if multiplier ≤ maxU32 then multiplier else maxU32
  let delay := min (policy.baseDelay * multiplier) maxDuration
  if policy.maxDelay < delay then policy.maxDelay else delay

end ReconnectPolicy

/-! ## the manager -/

abbrev ConnId := Nat

structure ConnectionManager where
  connections : HashMap NodeId ConnId
  addresses : HashMap NodeId SocketAddr
  reconnectPolicy : ReconnectPolicy
  events : List ConnectionEvent
  reconnectAttempts : HashMap NodeId UInt32

namespace ConnectionManager

def withReconnectPolicy (policy : ReconnectPolicy) : ConnectionManager := ⟨∅, ∅, policy, [], ∅⟩

def new : ConnectionManager := withReconnectPolicy .default

def isConnected (m : ConnectionManager) (nodeId : NodeId) : Bool :=
  (m.connections.lookup nodeId).isSome

def connectionCount (m : ConnectionManager) : Nat := m.connections.keys.length

def connect (m : ConnectionManager) (nodeId : NodeId) (addr : SocketAddr)
    (answer : Except TransportError ConnId) : ConnectionManager × Except ConnectionError Unit :=
  match answer with
  | .error e => (m, .error (.transport e))
  | .ok conn =>
    ({ m with
      connections := m.connections.insert nodeId conn
      addresses := m.addresses.insert nodeId addr
      reconnectAttempts := m.reconnectAttempts.erase nodeId }, .ok ())

def disconnect (m : ConnectionManager) (nodeId : NodeId) :
    ConnectionManager × List ConnId × Except ConnectionError Unit :=
  ({ m with
    connections := m.connections.erase nodeId
    addresses := m.addresses.erase nodeId
    reconnectAttempts := m.reconnectAttempts.erase nodeId },
    (m.connections.lookup nodeId).toList, .ok ())

/-- `sent` is what `send` returns -/
def route (m : ConnectionManager) (nodeId : NodeId) (sent : Except TransportError Unit) :
    Except ConnectionError Unit :=
  match m.connections.lookup nodeId with
  | none => .error (.unknownNode nodeId)
  | some _ =>
    match sent with
    | .error e => .error (.transport e)
    | .ok () => .ok ()

def onNodeDiscovered (m : ConnectionManager) (nodeId : NodeId) (addr : SocketAddr)
    (answer : Except TransportError ConnId) : ConnectionManager × Except ConnectionError Unit :=
  if m.isConnected nodeId then (m, .ok ()) else m.connect nodeId addr answer

def onConnectionLost (m : ConnectionManager) (nodeId : NodeId) :
    ConnectionManager × List ConnectionEvent :=
  let m := { m with connections := m.connections.erase nodeId }
  if nodeId ∈ m.addresses then
    ({ m with reconnectAttempts := m.reconnectAttempts.insert nodeId 0 },
      [.nodeDown nodeId, .reconnectTriggered nodeId])
  else (m, [.nodeDown nodeId])

def reconnectAttemptCount (m : ConnectionManager) (nodeId : NodeId) : UInt32 :=
  (m.reconnectAttempts.lookup nodeId).getD 0

def failReconnect (m : ConnectionManager) (nodeId : NodeId) (e : TransportError) :
    ConnectionManager × Except ConnectionError Nanos :=
  let attempts := m.reconnectAttemptCount nodeId + 1
  if m.reconnectPolicy.maxAttempts ≤ attempts then
    ({ m with
      addresses := m.addresses.erase nodeId
      reconnectAttempts := m.reconnectAttempts.erase nodeId }, .error (.gaveUp nodeId))
  else
    ({ m with reconnectAttempts := m.reconnectAttempts.insert nodeId attempts },
      .error (.transport e))

def attemptReconnect (m : ConnectionManager) (nodeId : NodeId)
    (answer : Except TransportError ConnId) :
    ConnectionManager × List ConnId × Except ConnectionError Nanos :=
  match m.addresses.lookup nodeId with
  | none => (m, [], .error (.unknownNode nodeId))
  | some _ =>
    match answer with
    | .ok conn =>
      ({ m with
        connections := m.connections.insert nodeId conn
        reconnectAttempts := m.reconnectAttempts.erase nodeId },
        (m.connections.lookup nodeId).toList, .ok 0)
    | .error e =>
      match m.failReconnect nodeId e with
      | (m, result) => (m, [], result)

def nextBackoff (m : ConnectionManager) (nodeId : NodeId) : Nanos :=
  m.reconnectPolicy.backoffDelay (m.reconnectAttemptCount nodeId)

def exhausted (o : Order NodeId) (m : ConnectionManager) : List NodeId :=
  (HashMap.keysIn m.reconnectAttempts o).filter fun id =>
    m.reconnectPolicy.maxAttempts ≤ m.reconnectAttemptCount id

def reap (o : Order NodeId) (m : ConnectionManager) (stale : List NodeId) :
    ConnectionManager × List NodeId :=
  let reaped := stale.foldl (fun reaped id =>
    if !m.isConnected id && !reaped.contains id then reaped ++ [id] else reaped) (m.exhausted o)
  (reaped.foldl (fun m id => { m with
    addresses := m.addresses.erase id
    reconnectAttempts := m.reconnectAttempts.erase id }) m, reaped)

def drainEvents (m : ConnectionManager) : ConnectionManager × List ConnectionEvent :=
  ({ m with events := [] }, m.events)

/-- all connections are removed and closed, one after another; how many there were -/
def drainConnections (o : Order NodeId) (m : ConnectionManager) :
    ConnectionManager × List ConnId × Nat :=
  let closing := fun (drained : HashMap NodeId ConnId × List ConnId) (id : NodeId) =>
    (drained.1.erase id, drained.2 ++ (drained.1.lookup id).toList)
  let drained := (HashMap.keysIn m.connections o).foldl closing (m.connections, [])
  ({ m with connections := drained.1, addresses := ∅, reconnectAttempts := ∅ },
    drained.2, m.connectionCount)

end ConnectionManager

/-! ## runs -/

inductive Call where
  | connect (nodeId : NodeId) (addr : SocketAddr) (answer : Except TransportError ConnId)
  | disconnect (nodeId : NodeId)
  | onNodeDiscovered (nodeId : NodeId) (addr : SocketAddr) (answer : Except TransportError ConnId)
  | onConnectionLost (nodeId : NodeId)
  | attemptReconnect (nodeId : NodeId) (answer : Except TransportError ConnId)
  | reap (stale : List NodeId)
  | drainConnections
  | drainEvents

def ConnectionManager.after (o : Order NodeId) (m : ConnectionManager) : Call → ConnectionManager
  | .connect nodeId addr answer => (m.connect nodeId addr answer).1
  | .disconnect nodeId => (m.disconnect nodeId).1
  | .onNodeDiscovered nodeId addr answer => (m.onNodeDiscovered nodeId addr answer).1
  | .onConnectionLost nodeId => (m.onConnectionLost nodeId).1
  | .attemptReconnect nodeId answer => (m.attemptReconnect nodeId answer).1
  | .reap stale => (m.reap o stale).1
  | .drainConnections => (m.drainConnections o).1
  | .drainEvents => m.drainEvents.1

/-- a manager with any policy; the order is the one in which a call enumerates the maps -/
def connectionMachine : Machine ConnectionManager (Order NodeId × Call) where
  start m := ∃ policy, m = .withReconnectPolicy policy
  next m call := some (m.after call.1 call.2)

end Rebar.Connection
