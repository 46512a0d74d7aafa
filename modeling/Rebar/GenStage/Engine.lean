import Rebar.GenStage.Dispatcher
import Rebar.Lib.HashMap

/-!
# The loop of a stage

The model of `gen_stage/engine.rs`: one command of a stage's channel at a time.

* `LoopState`   the state the source keeps under that name;
* `StageLoop`   a running stage: user state, loop state, every command it put into a channel and
                every event it emitted;
* `handle`      the handler of each command.

A stage is named by its `StageId`, which stands for the sender of its channel.  The events and the
messages are values of one type `V`, and demands are machine words, so sums of them wrap.
-/

namespace Rebar.Stage

abbrev StageId := Nat

def usizeSize : Nat := 2^64

def usizeMax : Nat := usizeSize - 1

def maxEventBuffer : Nat := 100000

inductive StageType where
  | producer
  | producerConsumer
  | consumer
deriving DecidableEq

inductive DemandMode where
  | automatic
  | manual
deriving DecidableEq

inductive CancelReason where
  | cancel
  | down
deriving DecidableEq

structure SubscribeOpts where
  maxDemand : Nat
  minDemand : Nat
  maxDemand_lt : maxDemand < usizeSize
  minDemand_lt : minDemand < usizeSize
deriving DecidableEq

def SubscribeOpts.default : SubscribeOpts := ⟨1000, 500, by decide, by decide⟩

/-- the callbacks of a stage; what a call replies goes to its caller only -/
structure GenStage (V S : Type) where
  handleDemand : Nat → S → S × List V
  handleEvents : List V → SubscriptionTag → S → S × List V
  handleSubscribe : StageType → SubscribeOpts → SubscriptionTag → S → S × DemandMode
  handleCancel : CancelReason → SubscriptionTag → S → S
  handleCall : V → S → S × List V
  handleCast : V → S → S × List V

/-- a stage that emits whatever it is given, and `events` whenever it is asked for some -/
def GenStage.echo (events : List Nat) : GenStage Nat Unit where
  handleDemand := fun _ _ => ((), events)
  handleEvents := fun events _ _ => ((), events)
  handleSubscribe := fun _ _ _ _ => ((), .automatic)
  handleCancel := fun _ _ _ => ()
  handleCall := fun msg _ => ((), [msg])
  handleCast := fun msg _ => ((), [msg])

inductive StageCommand (V : Type) where
  | subscribe (consumerTag : SubscriptionTag) (consumer : StageId) (opts : SubscribeOpts)
  | cancel (tag : SubscriptionTag) (reason : CancelReason)
  | askDemand (tag : SubscriptionTag) (demand : Nat)
  | events (tag : SubscriptionTag) (events : List V)
  | call (msg : V)
  | cast (msg : V)
  | subscriptionConfirmed (tag : SubscriptionTag) (producer : StageId) (opts : SubscribeOpts)
deriving DecidableEq

structure UpstreamSubscription where
  producer : StageId
  mode : DemandMode
  minDemand : Nat
  maxDemand : Nat
  pendingEvents : Nat
  outstandingDemand : Nat
deriving DecidableEq

structure DownstreamSubscription where
  consumer : StageId
deriving DecidableEq

structure LoopState (V : Type) where
  dispatcher : Dispatcher V
  upstreams : HashMap SubscriptionTag UpstreamSubscription
  downstreams : HashMap SubscriptionTag DownstreamSubscription
  consumerDemands : List ConsumerDemand
  eventBuffer : List V
  stageType : StageType

structure StageLoop (V S : Type) where
  user : S
  ls : LoopState V
  sent : List (StageId × StageCommand V)
  emitted : List V

/-- what `try_send` returns; a sender that cannot be upgraded counts as closed -/
inductive TrySend where
  | ok
  | full
  | closed
deriving DecidableEq

/-- the environment while a command is handled: the channels when the buffer is drained, when fresh
events are delivered and when the peer of a subscription is told something, and whether the stage's
own handle is still held -/
structure Peers where
  drain : SubscriptionTag → TrySend
  fresh : SubscriptionTag → TrySend
  reachable : SubscriptionTag → Bool
  held : Bool

def Peers.clear : Peers := ⟨fun _ => .ok, fun _ => .ok, fun _ => true, true⟩

variable {V S : Type}

/-- how an automatic subscription changes when events arrive, and what it asks for -/
def UpstreamSubscription.receive (up : UpstreamSubscription) (count room : Nat) :
    UpstreamSubscription × Nat :=
  let up := { up with
    pendingEvents := up.pendingEvents + count
    outstandingDemand := up.outstandingDemand - count }
  if up.minDemand ≤ up.pendingEvents then
    let ask := min (up.maxDemand - up.outstandingDemand) room
    ({ up with pendingEvents := 0, outstandingDemand := up.outstandingDemand + ask }, ask)
  else (up, 0)

/-! ## the loop state -/

namespace LoopState

def new (dispatcher : Dispatcher V) (stageType : StageType) : LoopState V :=
  ⟨dispatcher, ∅, ∅, [], [], stageType⟩

def dropOldest (buffer : List V) : List V :=
  if maxEventBuffer < buffer.length then buffer.drop (buffer.length - maxEventBuffer) else buffer

def bufferLeftover (ls : LoopState V) (leftover : List V) : LoopState V :=
  if leftover.isEmpty then ls
  else { ls with eventBuffer := dropOldest (ls.eventBuffer ++ leftover) }

def totalDownstreamDemand (ls : LoopState V) : Nat :=
  (ls.consumerDemands.map (·.pendingDemand)).sum % usizeSize

/-- a stage that passes events on pulls no more than it can dispatch -/
def downstreamRoom (ls : LoopState V) : Nat :=
  if ls.stageType = .producerConsumer then ls.totalDownstreamDemand else usizeMax

def addDemand (ls : LoopState V) (tag : SubscriptionTag) (demand : Nat) : LoopState V :=
  let i := ls.consumerDemands.findIdx (·.tag = tag)
  let add (cd : ConsumerDemand) : ConsumerDemand :=
    { cd with pendingDemand := (cd.pendingDemand + demand) % usizeSize }
  { ls with consumerDemands := ls.consumerDemands.modify i add }

def removeDownstream (ls : LoopState V) (tag : SubscriptionTag) : LoopState V :=
  { ls with
    downstreams := ls.downstreams.erase tag
    consumerDemands := ls.consumerDemands.filter (·.tag ≠ tag) }

end LoopState

/-- what `deliver_events` returns, and the batches it put into channels -/
structure Delivered (V : Type) where
  undelivered : List V
  dead : List SubscriptionTag
  sent : List (StageId × StageCommand V)

def deliverEvents (downstreams : HashMap SubscriptionTag DownstreamSubscription)
    (chan : SubscriptionTag → TrySend) : List (SubscriptionTag × List V) → Delivered V
  | [] => ⟨[], [], []⟩
  | (tag, events) :: deliveries =>
    let r := deliverEvents downstreams chan deliveries
    match downstreams.lookup tag with
    | none => r
    | some down =>
      match chan tag with
      | .ok => { r with sent := (down.consumer, .events tag events) :: r.sent }
      | .full => { r with undelivered := events ++ r.undelivered }
      | .closed => { r with undelivered := events ++ r.undelivered, dead := tag :: r.dead }

namespace StageLoop

def new (dispatcher : Dispatcher V) (stageType : StageType) (user : S) : StageLoop V S :=
  ⟨user, .new dispatcher stageType, [], []⟩

def send (st : StageLoop V S) (dst : StageId) (cmd : StageCommand V) : StageLoop V S :=
  { st with sent := st.sent ++ [(dst, cmd)] }

/-- deliver what the dispatcher gave out; what bounces goes back into the buffer -/
def deliver (st : StageLoop V S) (chan : SubscriptionTag → TrySend)
    (deliveries : List (SubscriptionTag × List V)) : StageLoop V S × List SubscriptionTag :=
  let r := deliverEvents st.ls.downstreams chan deliveries
  ({ st with ls := st.ls.bufferLeftover r.undelivered, sent := st.sent ++ r.sent }, r.dead)

def dispatchAndDeliver (st : StageLoop V S) (chan : SubscriptionTag → TrySend) (events : List V) :
    StageLoop V S × List SubscriptionTag :=
  if events.isEmpty then (st, [])
  else
    let (demands, result) := st.ls.dispatcher.dispatch events st.ls.consumerDemands
    let ls := { st.ls with consumerDemands := demands }.bufferLeftover result.leftover
    { st with ls := ls, emitted := st.emitted ++ events }.deliver chan result.deliveries

def maybeDispatchEmitted (st : StageLoop V S) (chan : SubscriptionTag → TrySend)
    (emitted : List V) : StageLoop V S × List SubscriptionTag :=
  if ¬ emitted.isEmpty ∧ (st.ls.stageType = .producer ∨ st.ls.stageType = .producerConsumer) then
    st.dispatchAndDeliver chan emitted
  else (st, [])

variable (impl : GenStage V S)

def cleanupDeadDownstream (st : StageLoop V S) (tag : SubscriptionTag) : StageLoop V S :=
  if (st.ls.downstreams.lookup tag).isSome then
    { st with ls := st.ls.removeDownstream tag, user := impl.handleCancel .down tag st.user }
  else st

def cleanupDeadDownstreams (r : StageLoop V S × List SubscriptionTag) : StageLoop V S :=
  r.2.foldl (cleanupDeadDownstream impl) r.1

def upstreamDown (st : StageLoop V S) (tag : SubscriptionTag) : StageLoop V S :=
  { st with
    ls := { st.ls with upstreams := st.ls.upstreams.erase tag }
    user := impl.handleCancel .down tag st.user }

/-! ## the handlers -/

def handleSubscribe (self : StageId) (env : Peers) (st : StageLoop V S)
    (consumerTag : SubscriptionTag) (consumer : StageId) (opts : SubscribeOpts) :
    StageLoop V S :=
  let st := { st with
    user := (impl.handleSubscribe st.ls.stageType opts consumerTag st.user).1
    ls := { st.ls with
      consumerDemands := st.ls.consumerDemands ++ [.new consumerTag]
      downstreams := st.ls.downstreams.insert consumerTag ⟨consumer⟩ } }
  if env.held ∧ env.reachable consumerTag then
    st.send consumer (.subscriptionConfirmed consumerTag self opts)
  else st

def handleSubscriptionConfirmed (env : Peers) (st : StageLoop V S) (tag : SubscriptionTag)
    (producer : StageId) (opts : SubscribeOpts) : StageLoop V S :=
  let maxDemand := max opts.maxDemand 1
  let minDemand := min opts.minDemand maxDemand
  let (user, mode) := impl.handleSubscribe st.ls.stageType opts tag st.user
  let outstanding := if mode = .automatic then maxDemand else 0
  let st := { st with
    user := user
    ls := { st.ls with
      upstreams := st.ls.upstreams.insert tag
        ⟨producer, mode, minDemand, maxDemand, 0, outstanding⟩ } }
  if mode = .automatic ∧ env.reachable tag then st.send producer (.askDemand tag maxDemand) else st

def handleCancel (env : Peers) (st : StageLoop V S) (tag : SubscriptionTag)
    (reason : CancelReason) : StageLoop V S :=
  match st.ls.downstreams.lookup tag with
  | some down =>
    let st := { st with
      ls := st.ls.removeDownstream tag
      user := impl.handleCancel reason tag st.user }
    if env.reachable tag then st.send down.consumer (.cancel tag reason) else st
  | none =>
    match st.ls.upstreams.lookup tag with
    | some up =>
      let st := { st with
        ls := { st.ls with upstreams := st.ls.upstreams.erase tag }
        user := impl.handleCancel reason tag st.user }
      if env.reachable tag then st.send up.producer (.cancel tag reason) else st
    | none => st

def drainBuffer (env : Peers) (st : StageLoop V S) : StageLoop V S :=
  if st.ls.eventBuffer.isEmpty then st
  else
    let (demands, result) :=
      st.ls.dispatcher.dispatch st.ls.eventBuffer st.ls.consumerDemands
    let ls := { st.ls with consumerDemands := demands, eventBuffer := result.leftover }
    cleanupDeadDownstreams impl ({ st with ls := ls }.deliver env.drain result.deliveries)

/-- a producer is asked for what this command adds to the demand -/
def produce (env : Peers) (st : StageLoop V S) (demand : Nat) : StageLoop V S :=
  let want := min demand st.ls.totalDownstreamDemand
  if st.ls.stageType = .producer ∧ 0 < want then
    let (user, events) := impl.handleDemand want st.user
    cleanupDeadDownstreams impl ({ st with user := user }.dispatchAndDeliver env.fresh events)
  else st

def handleAskDemand (env : Peers) (st : StageLoop V S) (tag : SubscriptionTag) (demand : Nat) :
    StageLoop V S :=
  match st.ls.upstreams.lookup tag with
  | some up =>
    if env.reachable tag then st.send up.producer (.askDemand tag demand) else upstreamDown impl st tag
  | none =>
    produce impl env (drainBuffer impl env { st with ls := st.ls.addDemand tag demand }) demand

def reask (env : Peers) (st : StageLoop V S) (tag : SubscriptionTag) (count : Nat) :
    StageLoop V S :=
  match st.ls.upstreams.lookup tag with
  | none => st
  | some up =>
    if up.mode = .automatic then
      let (up, ask) := up.receive count st.ls.downstreamRoom
      let st := { st with ls := { st.ls with upstreams := st.ls.upstreams.insert tag up } }
      if 0 < ask then
        if env.reachable tag then st.send up.producer (.askDemand tag ask) else upstreamDown impl st tag
      else st
    else st

def handleEvents (env : Peers) (st : StageLoop V S) (tag : SubscriptionTag) (events : List V) :
    StageLoop V S :=
  let (user, emitted) := impl.handleEvents events tag st.user
  let st := { st with user := user }
  let st := if st.ls.stageType = .producerConsumer ∧ ¬ emitted.isEmpty then
      cleanupDeadDownstreams impl (st.dispatchAndDeliver env.fresh emitted)
    else st
  reask impl env st tag events.length

def handle (self : StageId) (env : Peers) (st : StageLoop V S) :
    StageCommand V → StageLoop V S
  | .subscribe tag consumer opts => handleSubscribe impl self env st tag consumer opts
  | .subscriptionConfirmed tag producer opts =>
    handleSubscriptionConfirmed impl env st tag producer opts
  | .cancel tag reason => handleCancel impl env st tag reason
  | .askDemand tag demand => handleAskDemand impl env st tag demand
  | .events tag events => handleEvents impl env st tag events
  | .call msg =>
    let (user, emitted) := impl.handleCall msg st.user
    cleanupDeadDownstreams impl ({ st with user := user }.maybeDispatchEmitted env.fresh emitted)
  | .cast msg =>
    let (user, emitted) := impl.handleCast msg st.user
    cleanupDeadDownstreams impl ({ st with user := user }.maybeDispatchEmitted env.fresh emitted)

end StageLoop
end Rebar.Stage
