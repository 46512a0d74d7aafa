import Rebar.Lib.Machine
import Rebar.Lib.Msgpack
import Rebar.Lib.Saturating
import Rebar.Lib.Vec
import Rebar.Process.Types

/-!
# The coordinator of a pool of workers

The model of `coordinator/engine.rs`: the task of the coordinator, its two channels, and the collectors
that wait for the results of the workers.

* `CoordState`           the workers, with the functions of the source on them;
* `dispatchTask`         a task is routed to the worker with the least load that is alive;
* `Collector`            the task that waits for one result;
* `System.advance`       what the coordinator does next: it handles a completion or a command;
* `System.next`, `coordinatorMachine`   the steps of the coordinator, its collectors and its clients.

What the process table and the router answer is a choice of the environment, `Table`; the answers of one
dispatch are told apart by the number of workers that are left when they are given.  `in_flight` and
`next_id` are natural numbers here and do not overflow; `completed` wraps.  The `id` of an `Assignment` says
under which registration a task was dispatched; the source keeps only the `pid`.
-/

namespace Rebar.Coordinator

abbrev WorkerId := Nat

abbrev ReplyTx := Nat

abbrev Nanos := Nat

def maxAvgResponseUs : Nat := 3600000000

inductive CoordinatorError where
  | noWorkers
  | workerNotFound (id : WorkerId)
  | shutdown
  | timeout
  | poolFull
  | workerDied
deriving DecidableEq

structure WorkerInfo where
  id : WorkerId
  pid : ProcessId
  metadata : Value
  inFlight : Nat
  avgResponseUs : Nat
  completed : UInt64

namespace WorkerInfo

def load (w : WorkerInfo) : Nat := min ((w.inFlight + 1) * max w.avgResponseUs 1) u64Max.toNat

def before (a b : WorkerInfo) : Bool :=
  decide (a.load < b.load ∨ a.load = b.load ∧ a.completed < b.completed)

def raise (w : WorkerInfo) : WorkerInfo := { w with inFlight := w.inFlight + 1 }

def lower (w : WorkerInfo) : WorkerInfo := { w with inFlight := w.inFlight - 1 }

/-- the average of the response times, in which a new one counts three tenths -/
def nextAvg (w : WorkerInfo) (sample : Nat) : Nat :=
  if w.completed + 1 = 1 then min sample maxAvgResponseUs
  else
    let avg := (3 * sample + 7 * w.avgResponseUs) / 10
    min (if avg ≤ u64Max.toNat then avg else maxAvgResponseUs) maxAvgResponseUs

def complete (elapsedUs : Nat) (w : WorkerInfo) : WorkerInfo :=
  { w.lower with completed := w.completed + 1, avgResponseUs := w.nextAvg (max elapsedUs 1) }

end WorkerInfo

/-- the answers of the process table and of the router, and the pids it allocates -/
structure Table where
  alive : Nat → ProcessId → Bool
  routes : Nat → ProcessId → Bool
  replyPid : Nat → ProcessId

/-- everyone is alive and is reached -/
def Table.clear : Table := ⟨fun _ _ => true, fun _ _ => true, fun n => ⟨1, 100 + n⟩⟩

/-! ## the workers -/

structure CoordState where
  workers : List WorkerInfo
  nextId : Nat
  maxWorkers : Nat

namespace CoordState

def register (st : CoordState) (pid : ProcessId) (metadata : Value) :
    CoordState × Except CoordinatorError WorkerId :=
  if 0 < st.maxWorkers ∧ st.maxWorkers ≤ st.workers.length then (st, .error .poolFull)
  else
    let id := st.nextId + 1
    ({ st with nextId := id, workers := st.workers ++ [⟨id, pid, metadata, 0, 0, 0⟩] }, .ok id)

def unregister (st : CoordState) (id : WorkerId) : CoordState × Except CoordinatorError Unit :=
  match st.workers.findIdx? (·.id = id) with
  | none => (st, .error (.workerNotFound id))
  | some pos => ({ st with workers := swapRemove st.workers pos }, .ok ())

def pickWorker (st : CoordState) : Option (CoordState × WorkerInfo) :=
  (minIdx WorkerInfo.before st.workers).map fun (idx, w) =>
    ({ st with workers := st.workers.modify idx WorkerInfo.raise }, w)

def removeWorkerByPid (st : CoordState) (pid : ProcessId) : CoordState :=
  { st with workers := st.workers.filter (·.pid ≠ pid) }

/-- a worker that has gone: the first with its pid is lowered, then all with it are removed -/
def retire (st : CoordState) (pid : ProcessId) : CoordState :=
  { st with workers := modifyFirst (·.pid = pid) WorkerInfo.lower st.workers }.removeWorkerByPid pid

/-- the loop, with a bound on its rounds; nothing says that it has not ended -/
def pickLiveWorker (table : Table) :
    Nat → CoordState → Option (CoordState × Option WorkerInfo)
  | 0, _ => none
  | rounds + 1, st =>
    match st.pickWorker with
    | none => some (st, none)
    | some (picked, w) =>
      if table.alive st.workers.length w.pid then some (picked, some w)
      else pickLiveWorker table rounds (picked.retire w.pid)

def completeTask (st : CoordState) (pid : ProcessId) (elapsedUs : Nat) : CoordState :=
  { st with workers := modifyFirst (·.pid = pid) (WorkerInfo.complete elapsedUs) st.workers }

end CoordState

/-! ## tasks -/

structure Assignment where
  id : WorkerId
  pid : ProcessId
deriving DecidableEq

/-- where a collector stands after its result has come, or has failed to -/
inductive Stage where
  | waiting
  | delivering (payload : Value)
  | retiring

structure Collector where
  worker : Assignment
  replyPid : ProcessId
  task : Value
  reply : ReplyTx
  timeout : Nanos
  remainingAttempts : Nat
  stage : Stage

def taskMsg (task : Value) (replyPid : ProcessId) : Value :=
  .map [(.string (.ok "task"), task),
    (.string (.ok "reply_to_node"), .integer replyPid.nodeId),
    (.string (.ok "reply_to_local"), .integer replyPid.localId)]

/-- the end of a dispatch: the submitter is told that there is no worker, or a collector is spawned -/
inductive Dispatched where
  | noWorkers
  | routed (collector : Collector)

def dispatchTask (table : Table) (task : Value) (reply : ReplyTx) (timeout : Nanos) :
    Nat → CoordState → Option (CoordState × Dispatched)
  | 0, st => some (st, .noWorkers)
  | attempts + 1, st =>
    match st.pickLiveWorker table (st.workers.length + 1) with
    | none => none
    | some (st, none) => some (st, .noWorkers)
    | some (st, some w) =>
      let replyPid := table.replyPid st.workers.length
      if table.routes st.workers.length w.pid then
        some (st, .routed ⟨⟨w.id, w.pid⟩, replyPid, task, reply, timeout, attempts, .waiting⟩)
      else dispatchTask table task reply timeout attempts (st.retire w.pid)

/-! ## the channels -/

inductive CoordMsg where
  | register (pid : ProcessId) (metadata : Value) (reply : ReplyTx)
  | unregister (id : WorkerId) (reply : ReplyTx)
  | submit (task : Value) (reply : ReplyTx) (timeout : Nanos)
  | listWorkers (reply : ReplyTx)
  | workerCount (reply : ReplyTx)
  | shutdown

inductive TaskComplete where
  | ok (worker : Assignment) (elapsedUs : Nat)
  | failed (worker : Assignment) (task : Value) (reply : ReplyTx) (timeout : Nanos)
      (remainingAttempts : Nat)
  | retire (worker : Assignment)

def TaskComplete.worker : TaskComplete → Assignment
  | .ok worker _ => worker
  | .failed worker _ _ _ _ => worker
  | .retire worker => worker

def CoordMsg.numbered (msg : CoordMsg) (submits : Nat) : Option Nat :=
  match msg with
  | .submit _ reply _ => if reply = submits then some (submits + 1) else none
  | _ => some submits

def commandCapacity : Nat := 256

inductive Answer where
  | registered (result : Except CoordinatorError WorkerId)
  | unregistered (result : Except CoordinatorError Unit)
  | workers (workers : List WorkerInfo)
  | count (count : Nat)

inductive Entry where
  /-- a submit is taken, with so many workers registered -/
  | submitted (reply : ReplyTx) (workers : Nat)
  /-- `route` returned `Ok` -/
  | routed (reply : ReplyTx) (worker : Assignment) (msg : Value)
  /-- a completion notice is taken -/
  | noticed (worker : Assignment)
  /-- the submitter gets its result -/
  | replied (reply : ReplyTx) (result : Except CoordinatorError Value)
  | answered (reply : ReplyTx) (answer : Answer)

def Dispatched.collectors : Dispatched → List Collector
  | .noWorkers => []
  | .routed c => [c]

def Dispatched.entries (task : Value) (reply : ReplyTx) : Dispatched → List Entry
  | .noWorkers => [.replied reply (.error .noWorkers)]
  | .routed c => [.routed reply c.worker (taskMsg task c.replyPid)]

/-! ## the system -/

inductive Place where
  /-- `while let Ok(tc) = complete_rx.try_recv()` -/
  | drain
  | pollCompletions
  | pollCommands
  | stopped
deriving DecidableEq

structure System where
  coord : CoordState
  place : Place
  commands : List CoordMsg
  completions : List TaskComplete
  collectors : List Collector
  /-- how many submits were made; a submit's reply is its number -/
  submits : Nat

inductive Outcome where
  | received (payload : Value) (elapsedUs : Nat)
  | closed
  | elapsed

inductive Event where
  | send (msg : CoordMsg)
  | advance (table : Table)
  /-- the wait of a collector ends -/
  | collect (index : Nat) (outcome : Outcome)
  /-- the last send of a collector -/
  | finish (index : Nat)

/-- the coordinator comes to the next command and handles it -/
def commandTurn : List Event := [.advance .clear, .advance .clear, .advance .clear]

namespace System

def new (maxWorkers : Nat) : System := ⟨⟨[], 0, maxWorkers⟩, .drain, [], [], [], 0⟩

/-- the receiver of the notices is gone when the coordinator has stopped -/
def notify (s : System) (tc : TaskComplete) : System :=
  if s.place = .stopped then s else { s with completions := s.completions ++ [tc] }

def dispatch (table : Table) (s : System) (task : Value) (reply : ReplyTx) (timeout : Nanos)
    (attempts : Nat) : Option (System × List Entry) :=
  (dispatchTask table task reply timeout attempts s.coord).map fun
    | (coord, dispatched) =>
      ({ s with coord := coord, collectors := s.collectors ++ dispatched.collectors },
        dispatched.entries task reply)

def handleComplete (table : Table) (s : System) : TaskComplete → Option (System × List Entry)
  | .ok worker elapsedUs => some ({ s with coord := s.coord.completeTask worker.pid elapsedUs }, [])
  | .failed worker task reply timeout remainingAttempts =>
    { s with coord := s.coord.retire worker.pid }.dispatch table task reply timeout remainingAttempts
  | .retire worker => some ({ s with coord := s.coord.retire worker.pid }, [])

/-- a notice is taken and handled, and the loop starts again -/
def takeCompletion (table : Table) (s : System) (tc : TaskComplete) (rest : List TaskComplete) :
    Option (System × List Entry) :=
  ({ s with completions := rest, place := .drain }.handleComplete table tc).map fun
    | (s, entries) => (s, .noticed tc.worker :: entries)

def handleCommand (table : Table) (s : System) : CoordMsg → Option (System × List Entry)
  | .register pid metadata reply =>
    match s.coord.register pid metadata with
    | (coord, result) => some ({ s with coord := coord }, [.answered reply (.registered result)])
  | .unregister id reply =>
    match s.coord.unregister id with
    | (coord, result) => some ({ s with coord := coord }, [.answered reply (.unregistered result)])
  | .workerCount reply => some (s, [.answered reply (.count s.coord.workers.length)])
  | .listWorkers reply => some (s, [.answered reply (.workers s.coord.workers)])
  | .submit task reply timeout =>
    let attempts := s.coord.workers.length
    (s.dispatch table task reply timeout attempts).map fun
      | (s, entries) => (s, .submitted reply attempts :: entries)
  | .shutdown => some ({ s with place := .stopped, commands := [], completions := [] }, [])

def advance (table : Table) (s : System) : Option (System × List Entry) :=
  match s.place with
  | .drain =>
    match s.completions with
    | tc :: rest => s.takeCompletion table tc rest
    | [] => some ({ s with place := .pollCompletions }, [])
  | .pollCompletions =>
    match s.completions with
    | tc :: rest => s.takeCompletion table tc rest
    | [] => some ({ s with place := .pollCommands }, [])
  | .pollCommands =>
    match s.commands with
    | msg :: rest => { s with commands := rest, place := .drain }.handleCommand table msg
    | [] => some ({ s with place := .pollCompletions }, [])
  | .stopped => none

/-- a result that has come is told to the coordinator first; a failure is told to the submitter first
when no attempt is left, and is handed back with the reply otherwise -/
def collect (s : System) (index : Nat) (c : Collector) : Outcome → System × List Entry
  | .received payload elapsedUs =>
    ({ s with collectors := s.collectors.set index { c with stage := .delivering payload } }.notify
      (.ok c.worker elapsedUs), [])
  | outcome =>
    if c.remainingAttempts = 0 then
      let error := match outcome with
        | .closed => CoordinatorError.workerDied
        | _ => .timeout
      ({ s with collectors := s.collectors.set index { c with stage := .retiring } },
        [.replied c.reply (.error error)])
    else
      ({ s with collectors := s.collectors.eraseIdx index }.notify
        (.failed c.worker c.task c.reply c.timeout c.remainingAttempts), [])

def finish (s : System) (index : Nat) (c : Collector) : Option (System × List Entry) :=
  match c.stage with
  | .waiting => none
  | .delivering payload =>
    some ({ s with collectors := s.collectors.eraseIdx index }, [.replied c.reply (.ok payload)])
  | .retiring =>
    some ({ s with collectors := s.collectors.eraseIdx index }.notify (.retire c.worker), [])

def step (s : System) : Event → Option (System × List Entry)
  | .send msg =>
    if s.place ≠ .stopped ∧ s.commands.length < commandCapacity then
      (msg.numbered s.submits).map fun submits =>
        ({ s with commands := s.commands ++ [msg], submits := submits }, [])
    else none
  | .advance table => s.advance table
  | .collect index outcome =>
    match s.collectors[index]? with
    | some c =>
      match c.stage with
      | .waiting => some (s.collect index c outcome)
      | _ => none
    | none => none
  | .finish index =>
    match s.collectors[index]? with
    | some c => s.finish index c
    | none => none

def next (s : System) (event : Event) : Option System := (s.step event).map (·.1)

def entries (s : System) (event : Event) : List Entry := (s.step event).elim [] (·.2)

end System

def coordinatorMachine : Machine System Event where
  start := fun s => ∃ maxWorkers, s = .new maxWorkers
  next := System.next

end Rebar.Coordinator
