import Rebar.Lib.Machine
import Rebar.Process.Mailbox

/-!
# The loop of a server

The model of `gen_server/engine.rs` and of the parts of `gen_server/types.rs` and `sys/types.rs` that
it uses: one server, its five channels and where its task stands.

* `Place`             the points of the loop at which the task looks at a channel;
* `Server`            the local variables of the task, the channels, and who holds their senders;
* `Server.advance`    what the task does at a place;
* `Server.next`, `serverMachine`   the steps: one look at a channel, or one callback, at a time.

A callback starts in one step and returns in another; what it makes of the state, what it queues with
`continue_with` and what it replies are choices of the environment.  A step of `init` that fails starts
no loop.  A poll of the `select!` looks at its arms one after the other, so messages may arrive between
the looks, and a task that found nothing looks again from the first arm.
-/

namespace Rebar.GenServer

abbrev ReplyTx := Nat

/-! ## debugging -/

inductive ProcessRunState where
  | running
  | suspended
deriving DecidableEq

structure DebugOpts where
  trace : Bool
  log : Option Nat
  statistics : Bool
deriving DecidableEq

def DebugOpts.new : DebugOpts := ⟨false, none, false⟩

structure ProcessStatus where
  pid : ProcessId
  status : ProcessRunState
  debug : DebugOpts
  stateDescription : String
deriving DecidableEq

inductive SysCommand where
  | getState (tx : ReplyTx)
  | suspend (tx : ReplyTx)
  | resume (tx : ReplyTx)
  | getStatus (tx : ReplyTx)
deriving DecidableEq

structure InternalDebugState where
  suspended : Bool
  debugOpts : DebugOpts

def InternalDebugState.new : InternalDebugState := ⟨false, .new⟩

def InternalDebugState.runState (debug : InternalDebugState) : ProcessRunState :=
  if debug.suspended then .suspended else .running

inductive Answer (State : Type) where
  | state (tx : ReplyTx) (state : State)
  | suspended (tx : ReplyTx)
  | resumed (tx : ReplyTx)
  | status (tx : ReplyTx) (status : ProcessStatus)
deriving DecidableEq

/-- the process of a server, and what `type_name` says of its state -/
structure Identity where
  pid : ProcessId
  stateType : String

def Identity.first : Identity := ⟨⟨1, 1⟩, "()"⟩

/-- `fmt` -/
def displayPid (pid : ProcessId) : String :=
  "<" ++ toString pid.nodeId ++ "." ++ toString pid.localId ++ ">"

/-- the debug state after the command, what is sent back, and whether a suspended loop is left -/
def handleSysCommand {State : Type} (id : Identity) (state : State) (debug : InternalDebugState) :
    SysCommand → InternalDebugState × Answer State × Bool
  | .getState tx => (debug, .state tx state, false)
  | .suspend tx => ({ debug with suspended := true }, .suspended tx, false)
  | .resume tx => ({ debug with suspended := false }, .resumed tx, true)
  | .getStatus tx =>
    let description := displayPid id.pid ++ " — state type: " ++ id.stateType
    (debug, .status tx ⟨id.pid, debug.runState, debug.debugOpts, description⟩, false)

/-! ## the loop -/

structure CallEnvelope (Call : Type) where
  msg : Call
  sender : ProcessId
  replyTx : ReplyTx
deriving DecidableEq

inductive Callback (Call Cast : Type) where
  | call (envelope : CallEnvelope Call)
  | cast (msg : Cast)
  | info (msg : Message)
  | continuation (payload : Value)

/-- the arms of the `select!`, in their order -/
inductive Arm where
  | sys
  | calls
  | casts
  | mailbox
  | continues
deriving DecidableEq

inductive Place where
  /-- the `try_recv` of one continue event at the head of the loop -/
  | top
  /-- `while let Ok(cmd) = sys_rx.try_recv()` -/
  | sysDrain
  /-- `while let Some(cmd) = sys_rx.recv().await` -/
  | suspended
  | select (arm : Arm)
  | castDrain
  | infoDrain
  /-- `terminate` runs -/
  | terminate
  | ended
deriving DecidableEq

inductive Phase (Call Cast : Type) where
  | at (place : Place)
  /-- a callback runs, and the task goes on at the place when it returns -/
  | handling (callback : Callback Call Cast) (after : Place)

/-- the last reference; its fields are dropped in the order in which they are declared -/
inductive Reference where
  | held
  | callsDropped
  | castsDropped
  | dropped
deriving DecidableEq

def Reference.drop : Reference → Reference
  | .held => .callsDropped
  | .callsDropped => .castsDropped
  | .castsDropped => .dropped
  | .dropped => .dropped

def Reference.holdsCalls : Reference → Bool
  | .held => true
  | _ => false

def Reference.holdsCasts : Reference → Bool
  | .held => true
  | .callsDropped => true
  | _ => false

def Reference.holdsSys : Reference → Bool
  | .dropped => false
  | _ => true

structure Server (State Call Cast : Type) where
  state : State
  debug : InternalDebugState
  phase : Phase Call Cast
  sys : List SysCommand
  calls : List (CallEnvelope Call)
  casts : List Cast
  mailbox : List Message
  continues : List Value
  reference : Reference
  /-- the process table has the sender of the mailbox -/
  inTable : Bool

def callCapacity : Nat := 64

def sysCapacity : Nat := 16

inductive Entry (State Call Cast Reply : Type) where
  /-- `cast` returned `Ok` -/
  | accepted (msg : Cast)
  | called (callback : Callback Call Cast)
  | answered (answer : Answer State)
  | replied (tx : ReplyTx) (reply : Reply)
  | terminating

inductive Event (State Call Cast Reply : Type) where
  | call (msg : Call) (tx : ReplyTx)
  | cast (msg : Cast)
  | info (msg : Message)
  | command (cmd : SysCommand)
  /-- the next field of the last reference is dropped -/
  | dropReference
  /-- the process is removed from the table -/
  | removed
  | advance
  /-- a callback returns, with what it has queued -/
  | returned (state : State) (continues : List Value)
  | replied (state : State) (continues : List Value) (reply : Reply)
  | panicked
  | terminated

namespace Server
variable {State Call Cast Reply : Type}

/-- `init` has returned the state, and has queued the continue events -/
def new (state : State) (continues : List Value) : Server State Call Cast where
  state := state
  debug := .new
  phase := .at .top
  sys := []
  calls := []
  casts := []
  mailbox := []
  continues := continues
  reference := .held
  inTable := true

def goto (s : Server State Call Cast) (place : Place) :
    Server State Call Cast × List (Entry State Call Cast Reply) :=
  ({ s with phase := .at place }, [])

def hand (s : Server State Call Cast) (callback : Callback Call Cast) (after : Place) :
    Server State Call Cast × List (Entry State Call Cast Reply) :=
  ({ s with phase := .handling callback after }, [.called callback])

/-- a command is handled, which may lead out of a suspended loop -/
def obey (id : Identity) (s : Server State Call Cast) (cmd : SysCommand) (left stay : Place) :
    Server State Call Cast × List (Entry State Call Cast Reply) :=
  let (debug, answer, leaves) := handleSysCommand id s.state s.debug cmd
  ({ s with debug := debug, phase := .at (if leaves then left else stay) }, [.answered answer])

def advance (id : Identity) (s : Server State Call Cast) :
    Place → Option (Server State Call Cast × List (Entry State Call Cast Reply))
  | .top =>
    match s.continues with
    | payload :: continues => some ({ s with continues := continues }.hand (.continuation payload) .sysDrain)
    | [] => some (s.goto .sysDrain)
  | .sysDrain =>
    match s.sys with
    | cmd :: sys => some ({ s with sys := sys }.obey id cmd .sysDrain .sysDrain)
    | [] => some (s.goto (if s.debug.suspended then .suspended else .select .sys))
  | .suspended =>
    match s.sys with
    | cmd :: sys => some ({ s with sys := sys }.obey id cmd .top .suspended)
    | [] =>
      if s.reference.holdsSys then none
      -- the channel is closed; the server is still suspended unless a `Resume` came
      else some (s.goto (if s.debug.suspended then .castDrain else .top))
  | .select .sys =>
    match s.sys with
    | cmd :: sys => some ({ s with sys := sys }.obey id cmd .top .top)
    | [] => some (s.goto (if s.reference.holdsSys then .select .calls else .castDrain))
  | .select .calls =>
    match s.calls with
    | envelope :: calls => some ({ s with calls := calls }.hand (.call envelope) .top)
    | [] => some (s.goto (if s.reference.holdsCalls then .select .casts else .castDrain))
  | .select .casts =>
    match s.casts with
    | msg :: casts => some ({ s with casts := casts }.hand (.cast msg) .top)
    | [] => some (s.goto (if s.reference.holdsCasts then .select .mailbox else .castDrain))
  | .select .mailbox =>
    match s.mailbox with
    | msg :: mailbox => some ({ s with mailbox := mailbox }.hand (.info msg) .top)
    | [] => some (s.goto (if s.inTable then .select .continues else .castDrain))
  | .select .continues =>
    match s.continues with
    | payload :: continues => some ({ s with continues := continues }.hand (.continuation payload) .top)
    | [] => some (s.goto (.select .sys))
  | .castDrain =>
    match s.casts with
    | msg :: casts => some ({ s with casts := casts }.hand (.cast msg) .castDrain)
    | [] => some (s.goto .infoDrain)
  | .infoDrain =>
    match s.mailbox with
    | msg :: mailbox => some ({ s with mailbox := mailbox }.hand (.info msg) .infoDrain)
    | [] => some ({ s with phase := .at .terminate }, [.terminating])
  | .terminate => none
  | .ended => none

def receives (s : Server State Call Cast) : Bool :=
  match s.phase with
  | .at .ended => false
  | _ => true

def step (id : Identity) (s : Server State Call Cast) :
    Event State Call Cast Reply →
      Option (Server State Call Cast × List (Entry State Call Cast Reply))
  | .call msg tx =>
    if s.reference = .held ∧ s.receives ∧ s.calls.length < callCapacity then
      some ({ s with calls := s.calls ++ [⟨msg, ⟨0, 0⟩, tx⟩] }, [])
    else none
  | .cast msg =>
    if s.reference = .held ∧ s.receives then
      some ({ s with casts := s.casts ++ [msg] }, [.accepted msg])
    else none
  | .info msg =>
    if s.inTable ∧ s.receives then some ({ s with mailbox := s.mailbox ++ [msg] }, []) else none
  | .command cmd =>
    if s.reference = .held ∧ s.receives ∧ s.sys.length < sysCapacity then
      some ({ s with sys := s.sys ++ [cmd] }, [])
    else none
  | .dropReference => some ({ s with reference := s.reference.drop }, [])
  | .removed => some ({ s with inTable := false }, [])
  | .advance =>
    match s.phase with
    | .at place => s.advance id place
    | .handling _ _ => none
  | .returned state continues =>
    match s.phase with
    | .handling (.call _) _ => none
    | .handling _ after =>
      some ({ s with
        state := state, continues := s.continues ++ continues, phase := .at after }, [])
    | .at _ => none
  | .replied state continues reply =>
    match s.phase with
    | .handling (.call envelope) after =>
      some ({ s with
        state := state, continues := s.continues ++ continues, phase := .at after },
        [.replied envelope.replyTx reply])
    | _ => none
  | .panicked =>
    match s.phase with
    | .handling _ _ => some ({ s with phase := .at .ended }, [])
    | .at .terminate => some ({ s with phase := .at .ended }, [])
    | .at _ => none
  | .terminated =>
    match s.phase with
    | .at .terminate => some ({ s with phase := .at .ended }, [])
    | _ => none

def next (id : Identity) (s : Server State Call Cast) (event : Event State Call Cast Reply) :
    Option (Server State Call Cast) :=
  (s.step id event).map (·.1)

def entries (id : Identity) (s : Server State Call Cast) (event : Event State Call Cast Reply) :
    List (Entry State Call Cast Reply) :=
  (s.step id event).elim [] (·.2)

end Server

/-- a server whose `init` succeeded -/
def serverMachine (State Call Cast Reply : Type) (id : Identity) :
    Machine (Server State Call Cast) (Event State Call Cast Reply) where
  start := fun s => ∃ state continues, s = .new state continues
  next := Server.next id

end Rebar.GenServer
