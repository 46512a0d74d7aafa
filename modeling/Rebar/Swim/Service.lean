import Rebar.Swim.Detector

/-!
# The SWIM service

The model of `swim/service.rs`: the state behind the locks of a service as one record, and its two
entry points as functions on it.  Each is cut into the stages its comments name, so that the states
a call passes through can be named too.

* `tick`            `resolveProbe`, `expireSuspects`, `removeDead`, `probeNext`;
* `handleEnvelope`  `hearFrom`, `applyGossip`, then `handlePing`, `handleAck` or `handlePingReq`.

`Choices` holds what the environment decides in a call: the iteration order of each map and the
random target.  A frame's payload is the envelope it decodes to, if it decodes.
-/

namespace Rebar.Swim

inductive SwimKind where
  | ping
  | ack (about : Option NodeId)
  | pingReq (target : NodeId) (targetAddr : SocketAddr)
deriving DecidableEq

structure SwimEnvelope where
  source : NodeId
  sourceAddr : SocketAddr
  seq : UInt64
  kind : SwimKind
  gossip : List GossipUpdate
deriving DecidableEq

/-- whether the wire type of a frame is `Swim`, and what its payload decodes to -/
structure Frame where
  isSwim : Bool
  requestId : UInt64
  payload : Option SwimEnvelope
deriving DecidableEq

/-- the envelope of a frame, if it is a `Swim` frame that decodes -/
def Frame.decode (frame : Frame) : Option SwimEnvelope :=
  if frame.isSwim then frame.payload else none

structure Outgoing where
  nodeId : NodeId
  addr : SocketAddr
  frame : Frame
deriving DecidableEq

structure TickOutcome where
  outgoing : List Outgoing
  newlyDead : List NodeId
  removed : List NodeId
deriving DecidableEq

structure ProbeState where
  target : Option NodeId
  acked : Bool
deriving DecidableEq

structure RelayEntry where
  origin : NodeId
  originAddr : SocketAddr
  originSeq : UInt64
  target : NodeId
deriving DecidableEq

structure SwimService where
  selfId : NodeId
  selfAddr : SocketAddr
  config : SwimConfig
  seq : UInt64
  members : MembershipList
  detector : FailureDetector
  gossip : GossipQueue
  probe : ProbeState
  relays : HashMap UInt64 RelayEntry

structure Choices where
  members : Order NodeId
  suspects : Order NodeId
  dead : Order NodeId
  gossip : Order NodeId
  target : Pick Member

def Choices.default : Choices := ⟨.stored, .stored, .stored, .stored, .first⟩

/-- the node that is probed next, if it can be, is the given one -/
def Choices.probing (id : NodeId) : Choices :=
  { Choices.default with target := Pick.firstSuch fun m => m.nodeId = id }

namespace SwimService

def new (selfId : NodeId) (selfAddr : SocketAddr) (config : SwimConfig)
    (certHash : Option CertHash) : SwimService where
  selfId := selfId
  selfAddr := selfAddr
  config := config
  seq := 1
  members := .withSelf selfId selfAddr certHash
  detector := .new
  gossip := .new
  probe := ⟨none, false⟩
  relays := ∅

/-- node 1 at its start, with a number of indirect probes; without one, a missed ping is enough for a
suspicion -/
def fresh (indirectProbeCount : UInt64) : SwimService :=
  new 1 .home (.helpedBy indirectProbeCount) none

/-- the number is handed out and the counter moves on, wrapping -/
def nextSeq (s : SwimService) : SwimService × UInt64 := ({ s with seq := s.seq + 1 }, s.seq)

def addSeed (s : SwimService) (nodeId : NodeId) (addr : SocketAddr) : SwimService :=
  if nodeId = s.selfId then s
  else { s with members := s.members.add (Member.new nodeId addr) }

def stateOf (s : SwimService) (nodeId : NodeId) : Option NodeState :=
  (s.members.get nodeId).map (·.state)

def buildEnvelope (s : SwimService) (seq : UInt64) (kind : SwimKind)
    (gossip : List GossipUpdate) : Frame :=
  ⟨true, seq, some ⟨s.selfId, s.selfAddr, seq, kind, gossip⟩⟩

def drainGossip (c : Choices) (s : SwimService) : SwimService × List GossipUpdate :=
  let (gossip, out) := s.gossip.drain c.gossip s.config.maxGossipPerTick
  ({ s with gossip := gossip }, out)

def enqueueGossip (c : Choices) (s : SwimService) (update : GossipUpdate) : SwimService :=
  { s with gossip := s.gossip.add c.gossip update }

def takeProbe (s : SwimService) : SwimService × Option NodeId × Bool :=
  ({ s with probe := { s.probe with target := none } }, s.probe.target, s.probe.acked)

def setProbe (s : SwimService) (target : NodeId) : SwimService :=
  { s with probe := ⟨some target, false⟩ }

/-! ## one protocol period -/

def sendPingReqs (target : NodeId) (targetAddr : SocketAddr) :
    SwimService → List (NodeId × SocketAddr) → SwimService × List Outgoing
  | s, [] => (s, [])
  | s, (hid, haddr) :: helpers =>
    let (s, seq) := s.nextSeq
    let out : Outgoing := ⟨hid, haddr, s.buildEnvelope seq (.pingReq target targetAddr) []⟩
    let (s, outs) := sendPingReqs target targetAddr s helpers
    (s, out :: outs)

def helpers (c : Choices) (s : SwimService) (target : NodeId) : List (NodeId × SocketAddr) :=
  ((s.members.alivePeers c.members).filter fun p => p.1 ≠ target).take
    s.config.indirectProbeCount.toNat

def indirectProbes (c : Choices) (s : SwimService) (target : NodeId) :
    SwimService × List Outgoing :=
  match s.members.addrOf target with
  | some targetAddr => sendPingReqs target targetAddr s (s.helpers c target)
  | none => (s, [])

def nack (s : SwimService) (target : NodeId) (now : Instant) : SwimService :=
  let (detector, members) := s.detector.recordNack s.members target s.config now
  { s with detector := detector, members := members }

def gossipSuspicion (c : Choices) (s : SwimService) (target : NodeId) : SwimService :=
  match s.members.get target with
  | some m =>
    if m.state = .suspect then s.enqueueGossip c (.suspect target m.addr m.incarnation) else s
  | none => s

def resolveProbe (c : Choices) (s : SwimService) (now : Instant) : SwimService × List Outgoing :=
  match s.takeProbe with
  | (s, some target, false) =>
    let (s, out) := s.indirectProbes c target
    ((s.nack target now).gossipSuspicion c target, out)
  | (s, _, _) => (s, [])

def gossipDeath (c : Choices) (s : SwimService) (deadId : NodeId) : SwimService :=
  match s.members.get deadId with
  | some m => s.enqueueGossip c (.dead deadId m.addr m.incarnation)
  | none => s

def expireSuspects (c : Choices) (s : SwimService) (now : Instant) :
    SwimService × List NodeId :=
  let (detector, members, newlyDead) :=
    s.detector.checkSuspectTimeouts c.suspects s.members s.config now
  (newlyDead.foldl (gossipDeath c) { s with detector := detector, members := members }, newlyDead)

def removeDead (c : Choices) (s : SwimService) (now : Instant) : SwimService × List NodeId :=
  let (detector, members, removed) := s.detector.removeExpiredDead c.dead s.members s.config now
  ({ s with detector := detector, members := members }, removed)

def probeNext (c : Choices) (s : SwimService) : SwimService × List Outgoing :=
  match FailureDetector.tick c.members c.target s.members s.selfId with
  | some target =>
    match s.members.addrOf target with
    | some addr =>
      let s := s.setProbe target
      let (s, gossip) := s.drainGossip c
      let (s, seq) := s.nextSeq
      (s, [⟨target, addr, s.buildEnvelope seq .ping gossip⟩])
    | none => (s, [])
  | none => (s, [])

def tick (c : Choices) (s : SwimService) (now : Instant) : SwimService × TickOutcome :=
  let (s, probes) := s.resolveProbe c now
  let (s, newlyDead) := s.expireSuspects c now
  let (s, removed) := s.removeDead c now
  let (s, ping) := s.probeNext c
  (s, ⟨probes ++ ping, newlyDead, removed⟩)

/-! ## inbound frames -/

def ack (s : SwimService) (nodeId : NodeId) : SwimService :=
  let (detector, members) := s.detector.recordAck s.members nodeId
  { s with detector := detector, members := members }

def recordAlive (s : SwimService) (nodeId : NodeId) : SwimService :=
  if nodeId = s.selfId then s else s.ack nodeId

def introduce (s : SwimService) (source : NodeId) (addr : SocketAddr) : SwimService :=
  if (s.members.get source).isSome then s
  else { s with members := s.members.add (Member.new source addr) }

def hearFrom (s : SwimService) (source : NodeId) (addr : SocketAddr) : SwimService :=
  if source = s.selfId then s else (s.introduce source addr).ack source

def applyGossip (c : Choices) (s : SwimService) (update : GossipUpdate) : SwimService :=
  match s.members.applyUpdate update with
  | (members, some refutation) => { s with members := members }.enqueueGossip c refutation
  | (members, none) => { s with members := members }

def handlePing (c : Choices) (s : SwimService) (source : NodeId) (addr : SocketAddr) :
    SwimService × List Outgoing :=
  let (s, gossip) := s.drainGossip c
  let (s, replySeq) := s.nextSeq
  (s, [⟨source, addr, s.buildEnvelope replySeq (.ack none) gossip⟩])

def takeRelay (s : SwimService) (about : Option NodeId) (seq : UInt64) :
    SwimService × Option RelayEntry :=
  if about.isNone then ({ s with relays := s.relays.erase seq }, s.relays.lookup seq)
  else (s, none)

/-- the node an ack confirms is marked; a probe of it is acked -/
def confirm (s : SwimService) (confirmed : NodeId) : SwimService :=
  let s := s.recordAlive confirmed
  if s.probe.target = some confirmed then { s with probe := { s.probe with acked := true } } else s

def handleAck (s : SwimService) (source : NodeId) (seq : UInt64) (about : Option NodeId) :
    SwimService × List Outgoing :=
  match s.takeRelay about seq with
  | (s, some relay) =>
    let out : Outgoing := ⟨relay.origin, relay.originAddr,
      s.buildEnvelope relay.originSeq (.ack (some relay.target)) []⟩
    (s.recordAlive relay.target, [out])
  | (s, none) => (s.confirm (about.getD source), [])

def handlePingReq (s : SwimService) (source : NodeId) (addr : SocketAddr) (seq : UInt64)
    (target : NodeId) (targetAddr : SocketAddr) : SwimService × List Outgoing :=
  let (s, relaySeq) := s.nextSeq
  let s := { s with relays := s.relays.insert relaySeq ⟨source, addr, seq, target⟩ }
  (s, [⟨target, targetAddr, s.buildEnvelope relaySeq .ping []⟩])

def handleKind (c : Choices) (s : SwimService) (env : SwimEnvelope) :
    SwimService × List Outgoing :=
  match env.kind with
  | .ping => s.handlePing c env.source env.sourceAddr
  | .ack about => s.handleAck env.source env.seq about
  | .pingReq target targetAddr =>
    s.handlePingReq env.source env.sourceAddr env.seq target targetAddr

def handleEnvelope (c : Choices) (s : SwimService) (env : SwimEnvelope) :
    SwimService × List Outgoing :=
  (env.gossip.foldl (applyGossip c) (s.hearFrom env.source env.sourceAddr)).handleKind c env

def handleFrame (c : Choices) (s : SwimService) (frame : Frame) : SwimService × List Outgoing :=
  match frame.decode with
  | some env => s.handleEnvelope c env
  | none => (s, [])

end SwimService
end Rebar.Swim
