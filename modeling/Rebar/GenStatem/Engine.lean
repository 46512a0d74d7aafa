import Rebar.Lib.HashMap
import Rebar.Lib.Machine
import Rebar.Lib.Msgpack
import Rebar.Process.Types

/-!
# The loop of a state machine

The model of `gen_statem/types.rs` and `gen_statem/engine.rs`: one state machine with its timeouts,
its two queues and its three channels.

* `Loop`               the local variables of the loop;
* `Server`             the loop, where it stands, and the channels it receives from;
* `Server.next`, `statemMachine`   the steps, one callback or one message at a time.

A step of `init` that fails starts no loop.  A timeout that is due may be seen late, since the
timers of the runtime lag; a channel is ready when something is in it or its senders are gone.
The `number` of an event says which of the dequeued messages it is; the source keeps no such number.
-/

namespace Rebar.Statem

abbrev Nanos := Nat

abbrev ReplyTx := Nat

/-! ## types -/

inductive EventType where
  | call (tx : ReplyTx)
  | cast
  | info
  | stateTimeout
  | timeout (name : String)
  | eventTimeout
  | internal
  | enter (oldStateName : String)
deriving DecidableEq

inductive TimeoutKind where
  | state
  | event
  | generic (name : String)
deriving DecidableEq

inductive Action (Reply : Type) where
  | reply (tx : ReplyTx) (reply : Reply)
  | stateTimeout (duration : Nanos) (payload : Value)
  | eventTimeout (duration : Nanos) (payload : Value)
  | genericTimeout (name : String) (duration : Nanos) (payload : Value)
  | cancelTimeout (kind : TimeoutKind)
  | postpone
  | nextEvent (payload : Value)
  | hibernate

def Action.isPostpone {Reply : Type} : Action Reply → Bool
  | .postpone => true
  | _ => false

inductive TransitionResult (State Data Reply : Type) where
  | nextState (state : State) (data : Data) (actions : List (Action Reply))
  | keepState (data : Data) (actions : List (Action Reply))
  | keepStateAndData (actions : List (Action Reply))
  | stop (reason : ExitReason) (data : Data)
  | stopAndReply (reason : ExitReason) (data : Data) (replies : List (ReplyTx × Reply))

/-- `debug` is what `{:?}` prints for a state -/
structure GenStatem (State Call Cast : Type) where
  stateEnter : Bool
  debug : State → String
  encodeCall : Call → Value
  encodeCast : Cast → Value

/-- a callback module whose calls and casts carry nothing -/
def GenStatem.plain {State : Type} (stateEnter : Bool) (debug : State → String) :
    GenStatem State Unit Unit :=
  ⟨stateEnter, debug, fun _ => .nil, fun _ => .nil⟩

/-! ## events -/

structure QueuedEvent where
  eventType : EventType
  payload : Value
  postponable : Bool
  number : Option Nat

/-- a description of an event type without the reply channel -/
inductive EventDescriptor where
  | call
  | cast
  | info
  | stateTimeout
  | timeout (name : String)
  | eventTimeout
  | internal
  | enter (oldStateName : String)
deriving DecidableEq

def splitEventType : EventType → EventDescriptor × Option ReplyTx
  | .call tx => (.call, some tx)
  | .cast => (.cast, none)
  | .info => (.info, none)
  | .stateTimeout => (.stateTimeout, none)
  | .timeout name => (.timeout name, none)
  | .eventTimeout => (.eventTimeout, none)
  | .internal => (.internal, none)
  | .enter oldStateName => (.enter oldStateName, none)

/-- nothing stands for the panic of `expect` -/
def rebuildEventType : EventDescriptor → Option ReplyTx → Option EventType
  | .call, replyTx => replyTx.map .call
  | .cast, _ => some .cast
  | .info, _ => some .info
  | .stateTimeout, _ => some .stateTimeout
  | .timeout name, _ => some (.timeout name)
  | .eventTimeout, _ => some .eventTimeout
  | .internal, _ => some .internal
  | .enter oldStateName, _ => some (.enter oldStateName)

theorem rebuild_split (t : EventType) :
    rebuildEventType (splitEventType t).1 (splitEventType t).2 = some t := by
  cases t <;> rfl

/-- what `dispatch_event` keeps of an event while `handle_event` runs -/
structure InFlight where
  descriptor : EventDescriptor
  payload : Value
  postponable : Bool
  number : Option Nat

structure ActiveTimeout where
  payload : Value
  deadline : Nanos

/-! ## the loop -/

structure Loop (State Data Reply : Type) where
  currentState : State
  data : Data
  stateTimeout : Option ActiveTimeout
  eventTimeout : Option ActiveTimeout
  genericTimeouts : HashMap String ActiveTimeout
  postponed : List QueuedEvent
  internalQueue : List QueuedEvent
  /-- the replies that were sent -/
  replies : List (ReplyTx × Reply)

def enterEvent (oldStateName : String) : QueuedEvent := ⟨.enter oldStateName, .nil, false, none⟩

namespace Loop
variable {State Data Reply Call Cast : Type}

/-- the loop of a state machine whose `init` returned the state and the data -/
def new (statem : GenStatem State Call Cast) (state : State) (data : Data) :
    Loop State Data Reply where
  currentState := state
  data := data
  stateTimeout := none
  eventTimeout := none
  genericTimeouts := ∅
  postponed := []
  internalQueue := if statem.stateEnter then [enterEvent (statem.debug state)] else []
  replies := []

/-- an action, except that `postpone` only asks for something -/
def act (now : Nanos) (loop : Loop State Data Reply) : Action Reply → Loop State Data Reply
  | .reply tx reply => { loop with replies := loop.replies ++ [(tx, reply)] }
  | .stateTimeout duration payload =>
    { loop with stateTimeout := some ⟨payload, now + duration⟩ }
  | .eventTimeout duration payload =>
    { loop with eventTimeout := some ⟨payload, now + duration⟩ }
  | .genericTimeout name duration payload =>
    { loop with genericTimeouts := loop.genericTimeouts.insert name ⟨payload, now + duration⟩ }
  | .cancelTimeout .state => { loop with stateTimeout := none }
  | .cancelTimeout .event => { loop with eventTimeout := none }
  | .cancelTimeout (.generic name) =>
    { loop with genericTimeouts := loop.genericTimeouts.erase name }
  | .postpone => loop
  | .nextEvent payload =>
    { loop with internalQueue := loop.internalQueue ++ [⟨.internal, payload, false, none⟩] }
  | .hibernate => loop

def processActions (now : Nanos) (loop : Loop State Data Reply) (actions : List (Action Reply)) :
    Loop State Data Reply × Bool :=
  (actions.foldl (act now) loop, actions.any (·.isPostpone))

def postponeEvent (loop : Loop State Data Reply) (event : InFlight) : Loop State Data Reply :=
  match event.descriptor with
  | .call => loop
  | descriptor =>
    match rebuildEventType descriptor none with
    | some eventType =>
      let queued := ⟨eventType, event.payload, true, event.number⟩
      { loop with postponed := loop.postponed ++ [queued] }
    | none => loop

/-- the actions of a result, and the postponement of the event if they ask for it -/
def applyActions (now : Nanos) (event : InFlight) (loop : Loop State Data Reply)
    (actions : List (Action Reply)) : Loop State Data Reply :=
  match loop.processActions now actions with
  | (loop, shouldPostpone) =>
    if shouldPostpone && event.postponable then loop.postponeEvent event else loop

/-- the postponed events go to the front of the queue, and the enter event before them -/
def replay (statem : GenStatem State Call Cast) (oldStateName : String)
    (loop : Loop State Data Reply) : Loop State Data Reply :=
  let queue := loop.postponed ++ loop.internalQueue
  { loop with
    postponed := []
    internalQueue := if statem.stateEnter then enterEvent oldStateName :: queue else queue }

/-- the handling of a result, with the reason for which the state machine stops if it does -/
def handleResult [BEq State] (statem : GenStatem State Call Cast) (now : Nanos) (event : InFlight)
    (loop : Loop State Data Reply) :
    TransitionResult State Data Reply → Loop State Data Reply × Option ExitReason
  | .nextState newState newData actions =>
    let stateChanged := loop.currentState != newState
    let oldStateName := statem.debug loop.currentState
    let loop := { loop with currentState := newState, data := newData }
    let loop := if stateChanged then { loop with stateTimeout := none } else loop
    let loop := loop.applyActions now event actions
    (if stateChanged then loop.replay statem oldStateName else loop, none)
  | .keepState newData actions =>
    ({ loop with data := newData }.applyActions now event actions, none)
  | .keepStateAndData actions => (loop.applyActions now event actions, none)
  | .stop reason newData => ({ loop with data := newData }, some reason)
  | .stopAndReply reason newData replies =>
    ({ loop with data := newData, replies := loop.replies ++ replies }, some reason)

end Loop

/-! ## the channels -/

structure Receiver (α : Type) where
  queue : List α
  /-- a sender is left -/
  held : Bool

inductive Recv (α : Type) where
  | pending
  | closed
  | received (msg : α) (rest : Receiver α)

def Receiver.recv {α : Type} (rx : Receiver α) : Recv α :=
  match rx.queue with
  | msg :: queue => .received msg { rx with queue := queue }
  | [] => if rx.held then .pending else .closed

def Receiver.send {α : Type} (rx : Receiver α) (msg : α) : Receiver α :=
  { rx with queue := rx.queue ++ [msg] }

def Receiver.drop {α : Type} (rx : Receiver α) : Receiver α := { rx with held := false }

def callCapacity : Nat := 64

/-! ## timeouts -/

/-- what a poll finds: the time, which of the due timeouts it sees, and the order of the map -/
structure Poll where
  now : Nanos
  seesState : Bool
  seesEvent : Bool
  seesGeneric : Bool
  order : Order String

/-- a poll before any timeout is due -/
def Poll.early : Poll := ⟨0, false, false, false, .stored⟩

def waitForTimeout (timeout : Option ActiveTimeout) (now : Nanos) (sees : Bool) :
    Option ActiveTimeout :=
  timeout.filter fun t => sees && decide (t.deadline ≤ now)

/-- the first of the listed timeouts with the earliest deadline -/
def earliest (timeouts : HashMap String ActiveTimeout) :
    List String → Option (String × ActiveTimeout)
  | [] => none
  | name :: names =>
    match timeouts.lookup name, earliest timeouts names with
    | some t, some (name', t') =>
      if t.deadline ≤ t'.deadline then some (name, t) else some (name', t')
    | some t, none => some (name, t)
    | none, rest => rest

def nextGenericTimeout (timeouts : HashMap String ActiveTimeout) (poll : Poll) :
    Option (String × ActiveTimeout) :=
  (earliest timeouts (timeouts.keysIn poll.order)).filter fun t =>
    poll.seesGeneric && decide (t.2.deadline ≤ poll.now)

/-! ## the server -/

inductive Phase where
  | idle
  | handling (event : InFlight)
  | terminating (reason : ExitReason)
  | ended

structure Server (State Data Call Cast Reply : Type) where
  loop : Loop State Data Reply
  phase : Phase
  calls : Receiver (Call × ReplyTx)
  casts : Receiver Cast
  mailbox : Receiver Value
  /-- how many messages were dequeued -/
  arrivals : Nat

inductive Taken where
  | event (event : QueuedEvent)
  | closed

inductive Event (State Data Call Cast Reply : Type) where
  | call (msg : Call) (tx : ReplyTx)
  | cast (msg : Cast)
  | info (payload : Value)
  | dropCalls
  | dropCasts
  | dropMailbox
  | turn (poll : Poll)
  | handled (now : Nanos) (data : Data) (result : TransitionResult State Data Reply)
  | panicked
  | terminated

namespace Server
variable {State Data Call Cast Reply : Type}

/-- the mailbox is held by the process table, the channels by the references -/
def new (statem : GenStatem State Call Cast) (state : State) (data : Data) :
    Server State Data Call Cast Reply where
  loop := .new statem state data
  phase := .idle
  calls := ⟨[], true⟩
  casts := ⟨[], true⟩
  mailbox := ⟨[], true⟩
  arrivals := 0

/-- a message that was dequeued, which cancels the event timeout -/
def dequeue (s : Server State Data Call Cast Reply) (eventType : EventType) (payload : Value) :
    Server State Data Call Cast Reply × Taken :=
  ({ s with
      loop := { s.loop with eventTimeout := none }
      arrivals := s.arrivals + 1 },
    .event ⟨eventType, payload, true, some s.arrivals⟩)

/-- the channels, in the order of the `select!` -/
def receive (statem : GenStatem State Call Cast) (s : Server State Data Call Cast Reply) :
    Option (Server State Data Call Cast Reply × Taken) :=
  match s.calls.recv with
  | .closed => some (s, .closed)
  | .received (msg, tx) calls =>
    some ({ s with calls := calls }.dequeue (.call tx) (statem.encodeCall msg))
  | .pending =>
    match s.casts.recv with
    | .closed => some (s, .closed)
    | .received msg casts =>
      some ({ s with casts := casts }.dequeue .cast (statem.encodeCast msg))
    | .pending =>
      match s.mailbox.recv with
      | .closed => some (s, .closed)
      | .received payload mailbox => some ({ s with mailbox := mailbox }.dequeue .info payload)
      | .pending => none

/-- the biased `select!`: the timeouts come first -/
def select (statem : GenStatem State Call Cast) (s : Server State Data Call Cast Reply)
    (poll : Poll) : Option (Server State Data Call Cast Reply × Taken) :=
  match waitForTimeout s.loop.stateTimeout poll.now poll.seesState with
  | some t =>
    some ({ s with loop := { s.loop with stateTimeout := none } },
      .event ⟨.stateTimeout, t.payload, false, none⟩)
  | none =>
    match waitForTimeout s.loop.eventTimeout poll.now poll.seesEvent with
    | some t =>
      some ({ s with loop := { s.loop with eventTimeout := none } },
        .event ⟨.eventTimeout, t.payload, false, none⟩)
    | none =>
      match nextGenericTimeout s.loop.genericTimeouts poll with
      | some (name, t) =>
        let timeouts := s.loop.genericTimeouts.erase name
        some ({ s with loop := { s.loop with genericTimeouts := timeouts } },
          .event ⟨.timeout name, t.payload, false, none⟩)
      | none => s.receive statem

def take (statem : GenStatem State Call Cast) (s : Server State Data Call Cast Reply)
    (poll : Poll) : Option (Server State Data Call Cast Reply × Taken) :=
  match s.loop.internalQueue with
  | event :: queue =>
    some ({ s with loop := { s.loop with internalQueue := queue } }, .event event)
  | [] => s.select statem poll

/-- `dispatch_event`, up to the call of `handle_event` -/
def dispatchEvent (s : Server State Data Call Cast Reply) (event : QueuedEvent) :
    Server State Data Call Cast Reply :=
  match splitEventType event.eventType with
  | (descriptor, replyTx) =>
    match rebuildEventType descriptor replyTx with
    | some _ =>
      { s with phase := .handling ⟨descriptor, event.payload, event.postponable, event.number⟩ }
    | none => { s with phase := .ended }

def turn (statem : GenStatem State Call Cast) (s : Server State Data Call Cast Reply)
    (poll : Poll) : Option (Server State Data Call Cast Reply) :=
  match s.phase with
  | .idle =>
    (s.take statem poll).map fun (s, taken) =>
      match taken with
      | .event event => s.dispatchEvent event
      | .closed => { s with phase := .terminating .normal }
  | _ => none

/-- `handle_event` returns; it may have changed the data itself -/
def handled [BEq State] (statem : GenStatem State Call Cast)
    (s : Server State Data Call Cast Reply) (now : Nanos) (data : Data)
    (result : TransitionResult State Data Reply) : Option (Server State Data Call Cast Reply) :=
  match s.phase with
  | .handling event =>
    match { s.loop with data := data }.handleResult statem now event result with
    | (loop, none) => some { s with loop := loop, phase := .idle }
    | (loop, some reason) => some { s with loop := loop, phase := .terminating reason }
  | _ => none

def next [BEq State] (statem : GenStatem State Call Cast)
    (s : Server State Data Call Cast Reply) :
    Event State Data Call Cast Reply → Option (Server State Data Call Cast Reply)
  | .call msg tx =>
    if s.calls.held && decide (s.calls.queue.length < callCapacity) then
      some { s with calls := s.calls.send (msg, tx) }
    else none
  | .cast msg => if s.casts.held then some { s with casts := s.casts.send msg } else none
  | .info payload =>
    if s.mailbox.held then some { s with mailbox := s.mailbox.send payload } else none
  | .dropCalls => some { s with calls := s.calls.drop }
  | .dropCasts => some { s with casts := s.casts.drop }
  | .dropMailbox => some { s with mailbox := s.mailbox.drop }
  | .turn poll => s.turn statem poll
  | .handled now data result => s.handled statem now data result
  | .panicked =>
    match s.phase with
    | .handling _ => some { s with phase := .ended }
    | .terminating _ => some { s with phase := .ended }
    | _ => none
  | .terminated =>
    match s.phase with
    | .terminating _ => some { s with phase := .ended }
    | _ => none

end Server

/-- a state machine whose `init` succeeded -/
def statemMachine {State Call Cast : Type} (Data Reply : Type) [BEq State]
    (statem : GenStatem State Call Cast) :
    Machine (Server State Data Call Cast Reply) (Event State Data Call Cast Reply) where
  start := fun s => ∃ state data, s = .new statem state data
  next := Server.next statem

end Rebar.Statem
