import Rebar.Lib.Machine
import Rebar.Process.Names

/-!
# The supervisor engine

The model of `supervisor/spec.rs` and `supervisor/engine.rs`: the supervisors of one runtime, the
processes of their children, and the process table they share.

* `handleChildExit`, `applyStrategy`  what a supervisor decides when a child has exited;
* `SupervisorLoop.work`               one step of its loop;
* `Task.step`                         one step of the process of a child;
* `Node.next`, `machine`              supervisors and processes, interleaved.

A factory is the data its closure captures, of any type `F`; what a child does while it runs is up
to the environment.  The replies to `add_child` and `add_children` are left out.
-/

namespace Rebar.Supervisor

open Process

/-! ## specifications -/

inductive RestartStrategy where
  | oneForOne
  | oneForAll
  | restForOne
deriving DecidableEq

inductive RestartType where
  | permanent
  | transient
  | temporary
deriving DecidableEq

def RestartType.shouldRestart (reason : ExitReason) : RestartType → Bool
  | .permanent => true
  | .transient => !reason.isNormal
  | .temporary => false

abbrev Nanos := Nat

def seconds (n : Nat) : Nanos := n * 1000000000

inductive ShutdownStrategy where
  | timeout (duration : Nanos)
  | brutalKill
deriving DecidableEq

structure SupervisorSpec where
  strategy : RestartStrategy
  maxRestarts : Nat
  maxSeconds : Nat

def SupervisorSpec.new (strategy : RestartStrategy) : SupervisorSpec := ⟨strategy, 3, 5⟩

structure ChildSpec where
  id : String
  restart : RestartType
  shutdown : ShutdownStrategy
  register : Bool
deriving DecidableEq

def ChildSpec.new (id : String) : ChildSpec := ⟨id, .permanent, .timeout (seconds 5), false⟩

def ChildSpec.registered (spec : ChildSpec) : ChildSpec := { spec with register := true }

structure ChildEntry (F : Type) where
  spec : ChildSpec
  factory : F

variable {F : Type}

/-- the name `start_child` registers a new incarnation under -/
def ChildEntry.registerName (entry : ChildEntry F) : Option String :=
  if entry.spec.register then some entry.spec.id else none

/-! ## the state of a supervisor -/

/-- the abort handle and the done receiver are named by the process they belong to -/
structure ChildState (F : Type) extends ChildEntry F where
  pid : Option ProcessId
  abort : Option ProcessId
  doneRx : Option ProcessId

def ChildState.new (entry : ChildEntry F) : ChildState F := ⟨entry, none, none, none⟩

def ChildState.cleared (child : ChildState F) : ChildState F := .new child.toChildEntry

structure SupervisorState (F : Type) where
  strategy : RestartStrategy
  maxRestarts : Nat
  maxSeconds : Nat
  children : List (ChildState F)
  restartTimes : List Nanos

/-- a call of `start_child` or `stop_child` that a handler makes -/
inductive Action where
  | start (index : Nat)
  | stop (index : Nat)
deriving DecidableEq

namespace SupervisorState

def setChild (state : SupervisorState F) (index : Nat) (child : ChildState F) :
    SupervisorState F :=
  { state with children := state.children.set index child }

/-- `children[i].pid.is_some()` -/
def recorded (state : SupervisorState F) (i : Nat) : Bool :=
  (state.children[i]?.bind (·.pid)).isSome

def checkRestartLimit (state : SupervisorState F) (now : Nanos) : SupervisorState F × Bool :=
  if state.maxRestarts = 0 then (state, false)
  else
    let times := (state.restartTimes ++ [now]).dropWhile
      fun front => seconds state.maxSeconds < now - front
    ({ state with restartTimes := times }, decide (times.length ≤ state.maxRestarts))

def shutdownAllChildren (state : SupervisorState F) : List Action :=
  ((List.range state.children.length).reverse.filter state.recorded).map .stop

/-- the restart strategy; what is recorded does not change before the stops are carried out -/
def applyStrategy (state : SupervisorState F) (index : Nat) : List Action :=
  let len := state.children.length
  match state.strategy with
  | .oneForOne => [.start index]
  | .oneForAll =>
    let toRestart := (List.range len).filter fun i => i == index || state.recorded i
    let toStop := (List.range len).reverse.filter fun i => i != index && state.recorded i
    toStop.map .stop ++ toRestart.map .start
  | .restForOne =>
    let toRestart := (List.range' index (len - index)).filter
      fun i => i == index || state.recorded i
    let toStop := (List.range' (index + 1) (len - (index + 1))).reverse.filter state.recorded
    toStop.map .stop ++ toRestart.map .start

/-- the new state, the calls to make, and whether the supervisor gives up after them -/
def handleChildExit (state : SupervisorState F) (index : Nat) (pid : ProcessId)
    (reason : ExitReason) (now : Nanos) : SupervisorState F × List Action × Bool :=
  match state.children[index]? with
  | none => (state, [], false)
  | some child =>
    if child.pid ≠ some pid then (state, [], false)
    else
      let state := state.setChild index child.cleared
      if child.spec.restart.shouldRestart reason = false then (state, [], false)
      else
        match state.checkRestartLimit now with
        | (state, false) => (state, state.shutdownAllChildren, true)
        | (state, true) => (state, state.applyStrategy index, false)

end SupervisorState

/-! ## the process of a child -/

/-- where the closure that `start_child` spawns stands -/
inductive Phase where
  /-- the name is being registered -/
  | naming (call : NameCall)
  /-- the factory is called -/
  | calling
  /-- the inner task runs; the supervisor may have aborted it -/
  | running (aborted : Bool)
  | done (reason : ExitReason)
  /-- the done signal is out, the exit not yet reported -/
  | reporting (reason : ExitReason)
  /-- the drop guard runs `cleanup_process` -/
  | leaving (call : NameCall)
  | gone

/-- the phase after an operation of the registration, whose result is ignored -/
def Phase.named : Progress → Phase
  | .next call => .naming call
  | .returned _ => .calling

def Phase.left : Progress → Phase
  | .next call => .leaving call
  | .returned _ => .gone

def Phase.handed : Phase → Bool
  | .naming _ => false
  | .calling => false
  | _ => true

def Phase.stopped : Phase → Bool
  | .reporting _ => true
  | .leaving _ => true
  | .gone => true
  | _ => false

/-- one incarnation of a child; it stays on record when it is gone -/
structure Task (F : Type) where
  supervisor : Nat
  index : Nat
  entry : ChildEntry F
  phase : Phase
  abortSent : Bool

def Task.spawned (k index : Nat) (entry : ChildEntry F) (pid : ProcessId) : Task F :=
  { supervisor := k
    index := index
    entry := entry
    phase :=
      match entry.registerName with
      | some name => .naming (reregister name pid)
      | none => .calling
    abortSent := false }

/-- `AbortHandle::abort`: no effect once the inner task has finished -/
def Task.aborted (task : Task F) : Task F :=
  match task.phase with
  | .running _ => { task with phase := .running true }
  | _ => task

/-- what the environment decides about the next step of a process -/
inductive Choice where
  | proceed
  | returns (reason : ExitReason)
  | panics
  | cancelled

/-- the next step of a process, with the exit it reports if it reports one -/
def Task.step (task : Task F) (pid : ProcessId) (table : ProcessTable) (choice : Choice) :
    Option (ProcessTable × Task F × Option ExitReason) :=
  match task.phase, choice with
  | .naming call, .proceed =>
    let (table, progress) := call.step table
    some (table, { task with phase := .named progress }, none)
  | .calling, .proceed =>
    some (table, { task with phase := .running false, abortSent := true }, none)
  | .calling, .panics => some (table, { task with phase := .leaving (cleanupProcess pid) }, none)
  | .running _, .returns reason => some (table, { task with phase := .done reason }, none)
  | .running _, .panics => some (table, { task with phase := .done (.abnormal "panic") }, none)
  | .running true, .cancelled => some (table, { task with phase := .done .normal }, none)
  | .done reason, .proceed => some (table, { task with phase := .reporting reason }, none)
  | .reporting reason, .proceed =>
    some (table, { task with phase := .leaving (cleanupProcess pid) }, some reason)
  | .leaving call, .proceed =>
    let (table, progress) := call.step table
    some (table, { task with phase := .left progress }, none)
  | _, _ => none

/-! ## the loop of a supervisor -/

inductive SupervisorMsg (F : Type) where
  | childExited (index : Nat) (pid : ProcessId) (reason : ExitReason)
  | addChild (entry : ChildEntry F)
  | addChildren (entries : List (ChildEntry F))
  | shutdown

inductive Wait where
  /-- `start_child`: the abort handle of the new process -/
  | abortHandle (index : Nat) (pid : ProcessId)
  /-- `stop_child` after a brutal kill: the done signal -/
  | killed (index : Nat) (pid : ProcessId)
  /-- `stop_child` with a timeout: the done signal or the deadline -/
  | grace (index : Nat) (pid : ProcessId) (abort : Option ProcessId) (deadline : Nanos)

inductive Life where
  | looping
  | leaving (call : NameCall)
  | gone

def Life.left : Progress → Life
  | .next call => .leaving call
  | .returned _ => .gone

structure SupervisorLoop (F : Type) where
  pid : ProcessId
  state : SupervisorState F
  wait : Option Wait
  /-- the calls the current handler still has to make -/
  todo : List Action
  /-- the loop returns this when the calls are made: whether the supervisor escalated -/
  ending : Option Bool
  inbox : List (SupervisorMsg F)
  life : Life

inductive Effect (F : Type) where
  | nothing
  | spawn (index : Nat) (entry : ChildEntry F)
  | abort (pid : Option ProcessId)

namespace SupervisorLoop

/-- `start_supervisor`: the children are recorded first and then started in order -/
def new (pid : ProcessId) (spec : SupervisorSpec) (entries : List (ChildEntry F)) :
    SupervisorLoop F :=
  { pid := pid
    state :=
      { strategy := spec.strategy
        maxRestarts := spec.maxRestarts
        maxSeconds := spec.maxSeconds
        children := entries.map ChildState.new
        restartTimes := [] }
    wait := none
    todo := (List.range entries.length).map .start
    ending := none
    inbox := []
    life := .looping }

/-- the source records each new child when it has started; nothing reads the record before -/
def addEntries (sup : SupervisorLoop F) (entries : List (ChildEntry F)) : SupervisorLoop F :=
  let idx := sup.state.children.length
  let children := sup.state.children ++ entries.map ChildState.new
  { sup with
    state := { sup.state with children := children }
    todo := (List.range' idx entries.length).map .start }

def receive (sup : SupervisorLoop F) (now : Nanos) : SupervisorMsg F → SupervisorLoop F
  | .childExited index pid reason =>
    match sup.state.handleChildExit index pid reason now with
    | (state, todo, escalated) =>
      { sup with state := state, todo := todo, ending := if escalated then some true else none }
  | .addChild entry => sup.addEntries [entry]
  | .addChildren entries => sup.addEntries entries
  | .shutdown => { sup with todo := sup.state.shutdownAllChildren, ending := some false }

def record (sup : SupervisorLoop F) (index : Nat) (child : ChildState F) : SupervisorLoop F :=
  { sup with state := sup.state.setChild index child, wait := none }

/-- `start_child` and `stop_child`, up to what they wait for -/
def perform (sup : SupervisorLoop F) (fresh : ProcessId) (now : Nanos) :
    Action → Option (SupervisorLoop F × Effect F)
  | .start index =>
    sup.state.children[index]?.map fun child =>
      ({ sup with wait := some (.abortHandle index fresh) }, .spawn index child.toChildEntry)
  | .stop index =>
    sup.state.children[index]?.map fun child =>
      let taken := { child with abort := none, doneRx := none }
      match child.spec.shutdown, child.doneRx with
      | .brutalKill, some pid =>
        ({ sup.record index taken with wait := some (.killed index pid) }, .abort child.abort)
      | .timeout duration, some pid =>
        ({ sup.record index taken with
            wait := some (.grace index pid child.abort (now + duration)) }, .nothing)
      | _, none => (sup.record index { taken with pid := none }, .abort child.abort)

/-- the rest of `start_child` and `stop_child`, once what they wait for is there -/
def resume (sup : SupervisorLoop F) (tasks : HashMap ProcessId (Task F)) (now : Nanos) :
    Wait → Option (SupervisorLoop F × Effect F)
  | .abortHandle index pid =>
    (tasks.lookup pid).bind fun task => sup.state.children[index]?.bind fun child =>
      if task.phase.handed then
        let abort := if task.abortSent then some pid else none
        some (sup.record index { child with pid := some pid, abort := abort, doneRx := some pid },
          .nothing)
      else none
  | .killed index pid =>
    (tasks.lookup pid).bind fun task => sup.state.children[index]?.bind fun child =>
      if task.phase.stopped then some (sup.record index { child with pid := none }, .nothing)
      else none
  | .grace index pid abort deadline =>
    (tasks.lookup pid).bind fun task => sup.state.children[index]?.bind fun child =>
      if task.phase.stopped then some (sup.record index { child with pid := none }, .nothing)
      else if deadline ≤ now then some (sup.record index { child with pid := none }, .abort abort)
      else none

/-- the next thing the loop does; it holds a sender of its own channel, which so never closes -/
def work (sup : SupervisorLoop F) (fresh : ProcessId) (tasks : HashMap ProcessId (Task F))
    (now : Nanos) : Option (SupervisorLoop F × Effect F) :=
  match sup.wait, sup.todo, sup.ending, sup.inbox with
  | some wait, _, _, _ => sup.resume tasks now wait
  | none, action :: todo, _, _ => { sup with todo := todo }.perform fresh now action
  | none, [], some _, _ =>
    some ({ sup with life := .leaving (cleanupProcess sup.pid) }, .nothing)
  | none, [], none, msg :: inbox => some ({ sup with inbox := inbox }.receive now msg, .nothing)
  | none, [], none, [] => none

def idle (sup : SupervisorLoop F) : Bool :=
  sup.wait.isNone && sup.todo.isEmpty && sup.ending.isNone && sup.inbox.isEmpty

def send (sup : SupervisorLoop F) (msg : SupervisorMsg F) : SupervisorLoop F :=
  match sup.life with
  | .looping => { sup with inbox := sup.inbox ++ [msg] }
  | _ => sup

end SupervisorLoop

/-! ## supervisors and processes together -/

structure Node (F : Type) where
  table : ProcessTable
  sups : List (SupervisorLoop F)
  tasks : HashMap ProcessId (Task F)

inductive Request (F : Type) where
  | addChild (entry : ChildEntry F)
  | addChildren (entries : List (ChildEntry F))
  | shutdown

def Request.msg : Request F → SupervisorMsg F
  | .addChild entry => .addChild entry
  | .addChildren entries => .addChildren entries
  | .shutdown => .shutdown

inductive Event (F : Type) where
  | start (spec : SupervisorSpec) (entries : List (ChildEntry F))
  | request (k : Nat) (request : Request F)
  | work (k : Nat) (now : Nanos)
  | task (pid : ProcessId) (choice : Choice)

/-- the first supervisor starts its next child, which gets the given process -/
def Event.hires (pid : ProcessId) : List (Event F) := [.work 0 0, .task pid .proceed, .work 0 0]

/-- a process ends and reports its exit -/
def Event.exits (pid : ProcessId) (choice : Choice) : List (Event F) :=
  [.task pid choice, .task pid .proceed, .task pid .proceed]

def Event.supervises (strategy : RestartStrategy) (ids : List String) : Event Unit :=
  .start (.new strategy) (ids.map fun id => ⟨.new id, ()⟩)

namespace Node

def new (nodeId : Nat) : Node F := ⟨.new nodeId, [], ∅⟩

/-- `Runtime::spawn`: the next id, entered in the table -/
def spawned (table : ProcessTable) : ProcessTable × ProcessId :=
  let (table, pid) := table.allocatePid
  (table.insert pid, pid)

def startSupervisor (node : Node F) (spec : SupervisorSpec) (entries : List (ChildEntry F)) :
    Node F :=
  let (table, pid) := spawned node.table
  { node with table := table, sups := node.sups ++ [.new pid spec entries] }

def send (node : Node F) (k : Nat) (msg : SupervisorMsg F) : Node F :=
  { node with sups := node.sups.modify k (·.send msg) }

/-- a step of the loop of supervisor `k`, carried out -/
def apply (node : Node F) (k : Nat) (sup : SupervisorLoop F) : Effect F → Node F
  | .nothing => { node with sups := node.sups.set k sup }
  | .spawn index entry =>
    let (table, pid) := spawned node.table
    { table := table
      sups := node.sups.set k sup
      tasks := node.tasks.insert pid (.spawned k index entry pid) }
  | .abort pid =>
    { node with
      sups := node.sups.set k sup
      tasks := pid.elim node.tasks fun pid => HashMap.modify node.tasks pid Task.aborted }

def work (node : Node F) (k : Nat) (now : Nanos) : Option (Node F) :=
  node.sups[k]?.bind fun sup =>
    match sup.life with
    | .looping =>
      (sup.work (spawned node.table).2 node.tasks now).map fun (sup, effect) =>
        node.apply k sup effect
    | .leaving call =>
      let (table, progress) := call.step node.table
      let sup := { sup with life := .left progress }
      some { node with table := table, sups := node.sups.set k sup }
    | .gone => none

def stepTask (node : Node F) (pid : ProcessId) (choice : Choice) : Option (Node F) :=
  (node.tasks.lookup pid).bind fun task =>
    (task.step pid node.table choice).map fun (table, next, report) =>
      let node := { node with table := table, tasks := node.tasks.insert pid next }
      match report with
      | some reason => node.send task.supervisor (.childExited task.index pid reason)
      | none => node

def next (node : Node F) : Event F → Option (Node F)
  | .start spec entries => some (node.startSupervisor spec entries)
  | .request k request => if k < node.sups.length then some (node.send k request.msg) else none
  | .work k now => node.work k now
  | .task pid choice => node.stepTask pid choice

end Node

def machine (F : Type) : Machine (Node F) (Event F) where
  start := fun node => ∃ nodeId, node = .new nodeId
  next := Node.next

end Rebar.Supervisor
