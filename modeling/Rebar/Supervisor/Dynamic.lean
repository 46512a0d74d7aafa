import Rebar.Supervisor.Phases

/-!
# The dynamic supervisor

The model of `supervisor/dynamic.rs`: the loop of one dynamic supervisor and the processes of its
children, which live like those of the static supervisor.

* `DynSupervisorState.handleChildExit`  what an exit asks for: nothing, a restart, or giving up;
* `DynNode.next`, `dynMachine`          the supervisor and the processes, interleaved;
* `DynStepped`, `dynNext_cases`         what a step can do.

A key is the pair that the source formats as `{id}#{uid}`.  The queries `which_children` and
`count_children` change nothing and are left out.
-/

namespace Rebar.Supervisor

open Process

variable {F : Type}

structure DynamicSupervisorSpec where
  maxRestarts : Nat
  maxSeconds : Nat

def DynamicSupervisorSpec.new : DynamicSupervisorSpec := ⟨3, 5⟩

abbrev Key := String × Nat

/-- the process whose inner task the handle aborts; that of a child whose factory panicked is of a
task that has nothing to do -/
abbrev AbortHandle := Option ProcessId

structure DynChildState (F : Type) extends ChildEntry F where
  pid : ProcessId
  active : Bool
  abort : Option AbortHandle
  doneRx : Option ProcessId

def DynChildState.inactive (child : DynChildState F) : DynChildState F :=
  { child with active := false, abort := none, doneRx := none }

structure DynSupervisorState (F : Type) where
  maxRestarts : Nat
  maxSeconds : Nat
  children : HashMap Key (DynChildState F)
  pidToId : HashMap ProcessId Key
  restartTimes : List Nanos
  terminatedIds : Finset Key
  nextUid : Nat

inductive Exit (F : Type) where
  | stay
  | giveUp
  | restart (key : Key) (entry : ChildEntry F)

def Exit.givesUp : Exit F → Bool
  | .giveUp => true
  | _ => false

namespace DynSupervisorState

def checkRestartLimit (state : DynSupervisorState F) (now : Nanos) :
    DynSupervisorState F × Bool :=
  let times := state.restartTimes.dropWhile fun front => seconds state.maxSeconds < now - front
  if state.maxRestarts ≤ times.length then ({ state with restartTimes := times }, false)
  else ({ state with restartTimes := times ++ [now] }, true)

def deactivate (state : DynSupervisorState F) (key : Key) : DynSupervisorState F :=
  { state with children := HashMap.modify state.children key DynChildState.inactive }

def forget (state : DynSupervisorState F) (key : Key) (pid : ProcessId) : DynSupervisorState F :=
  { state with children := state.children.erase key, pidToId := state.pidToId.erase pid }

def handleChildExit (state : DynSupervisorState F) (pid : ProcessId) (reason : ExitReason)
    (now : Nanos) : DynSupervisorState F × Exit F :=
  match state.pidToId.lookup pid with
  | none => (state, .stay)
  | some key =>
    if key ∈ state.terminatedIds then
      ({ state with terminatedIds := state.terminatedIds.erase key }.deactivate key, .stay)
    else
      match state.children.lookup key with
      | none => (state, .stay)
      | some child =>
        if child.spec.restart = .temporary then (state.forget key pid, .stay)
        else if child.spec.restart.shouldRestart reason then
          match state.checkRestartLimit now with
          | (state, false) => (state, .giveUp)
          | (state, true) => (state.forget key pid, .restart key child.toChildEntry)
        else (state.deactivate key, .stay)

/-- the keys of the active children, in the order in which the map lists them -/
def activeKeys (state : DynSupervisorState F) (order : Order Key) : List Key :=
  (state.children.keysIn order).filter fun key => (state.children.lookup key).any (·.active)

end DynSupervisorState

/-! ## the loop -/

inductive DynSupervisorMsg (F : Type) where
  | startChild (entry : ChildEntry F)
  | terminateChild (pid : ProcessId)
  | removeChild (pid : ProcessId)
  | childExited (pid : ProcessId) (reason : ExitReason)
  | shutdown

inductive Answer where
  | started (pid : ProcessId)
  | terminated (pid : ProcessId) (result : Except String Unit)
  | removed (pid : ProcessId) (result : Except String Unit)

inductive DynWait (F : Type) where
  /-- the abort handle of a new process; `asked` if a request waits for its id -/
  | abortHandle (key : Key) (entry : ChildEntry F) (pid : ProcessId) (asked : Bool)
  /-- the done signal of a child that was stopped -/
  | done (key : Key) (pid : ProcessId) (answers : List Answer)

structure DynLoop (F : Type) where
  pid : ProcessId
  state : DynSupervisorState F
  wait : Option (DynWait F)
  /-- the children that a shutdown still has to stop -/
  todo : List Key
  /-- the loop returns when that is done -/
  ending : Bool
  inbox : List (DynSupervisorMsg F)
  life : Life
  answers : List Answer

namespace DynLoop

def new (pid : ProcessId) (spec : DynamicSupervisorSpec) : DynLoop F :=
  { pid := pid
    state := ⟨spec.maxRestarts, spec.maxSeconds, ∅, ∅, [], ∅, 0⟩
    wait := none
    todo := []
    ending := false
    inbox := []
    life := .looping
    answers := [] }

def answer (loop : DynLoop F) (answers : List Answer) : DynLoop F :=
  { loop with wait := none, answers := loop.answers ++ answers }

/-- the loop waits for the abort handle of a process it has just spawned -/
def spawn (loop : DynLoop F) (fresh : ProcessId) (key : Key) (entry : ChildEntry F)
    (asked : Bool) : DynLoop F × Effect F :=
  ({ loop with wait := some (.abortHandle key entry fresh asked) }, .spawn key.2 entry)

def stopChildByKey (loop : DynLoop F) (key : Key) (answers : List Answer) :
    DynLoop F × Effect F :=
  match loop.state.children.lookup key with
  | none => (loop.answer answers, .nothing)
  | some child =>
    let stopped := { loop with state := loop.state.deactivate key }
    match child.doneRx with
    | some pid => ({ stopped with wait := some (.done key pid answers) }, .abort child.abort.join)
    | none => (stopped.answer answers, .abort child.abort.join)

def receive (loop : DynLoop F) (fresh : ProcessId) (now : Nanos) (order : Order Key) :
    DynSupervisorMsg F → DynLoop F × Effect F
  | .startChild entry =>
    let state := { loop.state with nextUid := loop.state.nextUid + 1 }
    { loop with state := state }.spawn fresh (entry.spec.id, loop.state.nextUid) entry true
  | .terminateChild pid =>
    match loop.state.pidToId.lookup pid with
    | some key =>
      let state := { loop.state with terminatedIds := insert key loop.state.terminatedIds }
      { loop with state := state }.stopChildByKey key [.terminated pid (.ok ())]
    | none => (loop.answer [.terminated pid (.error "child not found")], .nothing)
  | .removeChild pid =>
    match loop.state.pidToId.lookup pid with
    | some key =>
      if (loop.state.children.lookup key).any (·.active) then
        (loop.answer [.removed pid (.error "child still running")], .nothing)
      else
        let state := { loop.state.forget key pid with
          terminatedIds := loop.state.terminatedIds.erase key }
        ({ loop with state := state }.answer [.removed pid (.ok ())], .nothing)
    | none => (loop.answer [.removed pid (.error "child not found")], .nothing)
  | .childExited pid reason =>
    match loop.state.handleChildExit pid reason now with
    | (state, .stay) => ({ loop with state := state }, .nothing)
    | (state, .giveUp) => ({ loop with state := state, ending := true }, .nothing)
    | (state, .restart key entry) => { loop with state := state }.spawn fresh key entry false
  | .shutdown => ({ loop with todo := loop.state.activeKeys order, ending := true }, .nothing)

/-- the rest of `start_child` and `stop_child_by_key`, once what they wait for is there -/
def resume (loop : DynLoop F) (tasks : HashMap ProcessId (Task F)) :
    DynWait F → Option (DynLoop F × Effect F)
  | .abortHandle key entry pid asked =>
    (tasks.lookup pid).bind fun task =>
      if task.phase.handed then
        let abort : AbortHandle := if task.abortSent then some pid else none
        let child := ⟨entry, pid, true, some abort, some pid⟩
        let state := { loop.state with
          children := loop.state.children.insert key child
          pidToId := loop.state.pidToId.insert pid key }
        some ({ loop with state := state }.answer (if asked then [.started pid] else []), .nothing)
      else none
  | .done _ pid answers =>
    (tasks.lookup pid).bind fun task =>
      if task.phase.stopped then some (loop.answer answers, .nothing) else none

/-- the next thing the loop does; it holds a sender of its own channel, which so never closes -/
def work (loop : DynLoop F) (fresh : ProcessId) (tasks : HashMap ProcessId (Task F))
    (now : Nanos) (order : Order Key) : Option (DynLoop F × Effect F) :=
  match loop.wait, loop.todo, loop.ending, loop.inbox with
  | some wait, _, _, _ => loop.resume tasks wait
  | none, key :: todo, _, _ => some ({ loop with todo := todo }.stopChildByKey key [])
  | none, [], true, _ =>
    some ({ loop with life := .leaving (cleanupProcess loop.pid) }, .nothing)
  | none, [], false, msg :: inbox =>
    some ({ loop with inbox := inbox }.receive fresh now order msg)
  | none, [], false, [] => none

def send (loop : DynLoop F) (msg : DynSupervisorMsg F) : DynLoop F :=
  match loop.life with
  | .looping => { loop with inbox := loop.inbox ++ [msg] }
  | _ => loop

end DynLoop

/-! ## the supervisor and the processes together -/

structure DynNode (F : Type) where
  table : ProcessTable
  loop : DynLoop F
  tasks : HashMap ProcessId (Task F)

inductive DynRequest (F : Type) where
  | startChild (entry : ChildEntry F)
  | terminateChild (pid : ProcessId)
  | removeChild (pid : ProcessId)
  | shutdown

def DynRequest.msg : DynRequest F → DynSupervisorMsg F
  | .startChild entry => .startChild entry
  | .terminateChild pid => .terminateChild pid
  | .removeChild pid => .removeChild pid
  | .shutdown => .shutdown

inductive DynEvent (F : Type) where
  | request (request : DynRequest F)
  | work (now : Nanos) (order : Order Key)
  | task (pid : ProcessId) (choice : Choice)

/-- a child is started as the given process and put on record -/
def DynEvent.hires (entry : ChildEntry F) (pid : ProcessId) : List (DynEvent F) :=
  [.request (.startChild entry), .work 0 .stored, .task pid .proceed, .work 0 .stored]

def DynEvent.crashes (pid : ProcessId) : List (DynEvent F) :=
  [.task pid .panics, .task pid .proceed, .task pid .proceed]

namespace DynNode

def new (nodeId : Nat) (spec : DynamicSupervisorSpec) : DynNode F :=
  let (table, pid) := Node.spawned (.new nodeId)
  ⟨table, .new pid spec, ∅⟩

def apply (node : DynNode F) (loop : DynLoop F) : Effect F → DynNode F
  | .nothing => { node with loop := loop }
  | .spawn index entry =>
    let (table, pid) := Node.spawned node.table
    { table := table
      loop := loop
      tasks := node.tasks.insert pid (.spawned 0 index entry pid) }
  | .abort pid =>
    { node with
      loop := loop
      tasks := pid.elim node.tasks fun pid => HashMap.modify node.tasks pid Task.aborted }

def work (node : DynNode F) (now : Nanos) (order : Order Key) : Option (DynNode F) :=
  match node.loop.life with
  | .looping =>
    (node.loop.work (Node.spawned node.table).2 node.tasks now order).map fun (loop, effect) =>
      node.apply loop effect
  | .leaving call =>
    let (table, progress) := call.step node.table
    some { node with table := table, loop := { node.loop with life := .left progress } }
  | .gone => none

def stepTask (node : DynNode F) (pid : ProcessId) (choice : Choice) : Option (DynNode F) :=
  (node.tasks.lookup pid).bind fun task =>
    (task.step pid node.table choice).map fun (table, next, report) =>
      let node := { node with table := table, tasks := node.tasks.insert pid next }
      match report with
      | some reason => { node with loop := node.loop.send (.childExited pid reason) }
      | none => node

def next (node : DynNode F) : DynEvent F → Option (DynNode F)
  | .request request => some { node with loop := node.loop.send request.msg }
  | .work now order => node.work now order
  | .task pid choice => node.stepTask pid choice

end DynNode

def dynMachine (F : Type) : Machine (DynNode F) (DynEvent F) where
  start := fun node => ∃ nodeId spec, node = .new nodeId spec
  next := DynNode.next

/-! ## what a step can do -/

namespace DynNode

/-- a child is started: its process is spawned, and the loop waits for its abort handle -/
def hire (node : DynNode F) (loop : DynLoop F) (key : Key) (entry : ChildEntry F)
    (asked : Bool) : DynNode F :=
  let pid := (Node.spawned node.table).2
  { table := (Node.spawned node.table).1
    loop := { loop with wait := some (.abortHandle key entry pid asked) }
    tasks := node.tasks.insert pid (.spawned 0 key.2 entry pid) }

def record (node : DynNode F) (key : Key) (entry : ChildEntry F) (pid : ProcessId)
    (abort : AbortHandle) (answers : List Answer) : DynNode F :=
  let state := { node.loop.state with
    children := node.loop.state.children.insert key ⟨entry, pid, true, some abort, some pid⟩
    pidToId := node.loop.state.pidToId.insert pid key }
  { node with loop := { node.loop with state := state }.answer answers }

/-- a child is stopped: it is on record as inactive, and its task is aborted -/
def halt (node : DynNode F) (loop : DynLoop F) (key : Key) (target : Option ProcessId)
    (wait : Option (DynWait F)) (answers : List Answer) : DynNode F :=
  { node with
    loop := { loop with state := loop.state.deactivate key, wait := wait, answers := answers }
    tasks := target.elim node.tasks fun pid => HashMap.modify node.tasks pid Task.aborted }

end DynNode

/-- `stop_child_by_key`, by what it does -/
inductive Halted (node : DynNode F) (loop : DynLoop F) (key : Key) (answers : List Answer) :
    DynNode F → Prop where
  | idle {target : Option ProcessId}
      (hidle : ∀ {c}, loop.state.children.lookup key = some c → c.doneRx = none) :
      Halted node loop key answers (node.halt loop key target none (loop.answers ++ answers))
  | waits {child : DynChildState F} {pid : ProcessId} {target : Option ProcessId}
      (hchild : loop.state.children.lookup key = some child) (hdone : child.doneRx = some pid) :
      Halted node loop key answers
        (node.halt loop key target (some (.done key pid answers)) loop.answers)

/-- the handling of a message, by what it does; `loop` has taken it out of its inbox -/
inductive Handled (node : DynNode F) (loop : DynLoop F) (now : Nanos) (order : Order Key) :
    DynSupervisorMsg F → DynNode F → Prop where
  | starts {entry : ChildEntry F} :
      Handled node loop now order (.startChild entry)
        (node.hire { loop with state := { loop.state with nextUid := loop.state.nextUid + 1 } }
          (entry.spec.id, loop.state.nextUid) entry true)
  | terminates {pid : ProcessId} {key : Key} {next : DynNode F}
      (hkey : loop.state.pidToId.lookup pid = some key)
      (h : Halted node { loop with
        state := { loop.state with terminatedIds := insert key loop.state.terminatedIds } }
        key [.terminated pid (.ok ())] next) :
      Handled node loop now order (.terminateChild pid) next
  | removes {pid : ProcessId} {key : Key} (hkey : loop.state.pidToId.lookup pid = some key)
      (hidle : ∀ {c}, loop.state.children.lookup key = some c → c.active = false) :
      Handled node loop now order (.removeChild pid)
        { node with loop := { loop with state := { loop.state.forget key pid with
            terminatedIds := loop.state.terminatedIds.erase key } }.answer [.removed pid (.ok ())] }
  | refuses (request : DynRequest F) {answer : Answer}
      (hanswer : ∀ p, answer ≠ .terminated p (.ok ())) :
      Handled node loop now order request.msg { node with loop := loop.answer [answer] }
  | ignores {pid : ProcessId} {reason : ExitReason}
      (hnone : ∀ {key}, loop.state.pidToId.lookup pid = some key →
        loop.state.children.lookup key = none) :
      Handled node loop now order (.childExited pid reason) { node with loop := loop }
  | expects {pid : ProcessId} {reason : ExitReason} {key : Key}
      (hkey : loop.state.pidToId.lookup pid = some key) (hmem : key ∈ loop.state.terminatedIds) :
      Handled node loop now order (.childExited pid reason)
        { node with loop := { loop with state := { loop.state with
            terminatedIds := loop.state.terminatedIds.erase key }.deactivate key } }
  | forgets {pid : ProcessId} {reason : ExitReason} {key : Key}
      (hkey : loop.state.pidToId.lookup pid = some key) (hmem : key ∉ loop.state.terminatedIds) :
      Handled node loop now order (.childExited pid reason)
        { node with loop := { loop with state := loop.state.forget key pid } }
  | restarts {pid : ProcessId} {reason : ExitReason} {key : Key} {child : DynChildState F}
      {times : List Nanos} (hkey : loop.state.pidToId.lookup pid = some key)
      (hmem : key ∉ loop.state.terminatedIds)
      (hchild : loop.state.children.lookup key = some child)
      (hrestart : child.spec.restart ≠ .temporary) :
      Handled node loop now order (.childExited pid reason)
        (node.hire { loop with
          state := { loop.state with restartTimes := times }.forget key pid }
          key child.toChildEntry false)
  | givesUp {pid : ProcessId} {reason : ExitReason} {key : Key} {child : DynChildState F}
      {times : List Nanos} (hkey : loop.state.pidToId.lookup pid = some key)
      (hchild : loop.state.children.lookup key = some child)
      (hrestart : child.spec.restart ≠ .temporary)
      (hgives : (loop.state.handleChildExit pid reason now).2.givesUp = true) :
      Handled node loop now order (.childExited pid reason)
        { node with loop := { loop with
            state := { loop.state with restartTimes := times }, ending := true } }
  | rests {pid : ProcessId} {reason : ExitReason} {key : Key} {child : DynChildState F}
      (hkey : loop.state.pidToId.lookup pid = some key) (hmem : key ∉ loop.state.terminatedIds)
      (hchild : loop.state.children.lookup key = some child)
      (hrestart : child.spec.restart ≠ .temporary) :
      Handled node loop now order (.childExited pid reason)
        { node with loop := { loop with state := loop.state.deactivate key } }
  | shutdown :
      Handled node loop now order .shutdown
        { node with loop := { loop with todo := loop.state.activeKeys order, ending := true } }

/-- a step of a loop that has not returned, with the message that it handles -/
inductive Turned (node : DynNode F) (now : Nanos) (order : Order Key) :
    List (DynSupervisorMsg F) → DynNode F → Prop where
  | started {key : Key} {entry : ChildEntry F} {pid : ProcessId} {asked : Bool} {task : Task F}
      (hwait : node.loop.wait = some (.abortHandle key entry pid asked))
      (htask : node.tasks.lookup pid = some task) (hhanded : task.phase.handed = true)
      (abort : AbortHandle) :
      Turned node now order []
        (node.record key entry pid abort (if asked then [.started pid] else []))
  | finished {key : Key} {pid : ProcessId} {answers : List Answer} {task : Task F}
      (hwait : node.loop.wait = some (.done key pid answers))
      (htask : node.tasks.lookup pid = some task) (hstopped : task.phase.stopped = true) :
      Turned node now order [] { node with loop := node.loop.answer answers }
  | stopped {key : Key} {todo : List Key} {next : DynNode F} (hwait : node.loop.wait = none)
      (htodo : node.loop.todo = key :: todo)
      (h : Halted node { node.loop with todo := todo } key [] next) : Turned node now order [] next
  | returned (hwait : node.loop.wait = none) (htodo : node.loop.todo = [])
      (hending : node.loop.ending = true) :
      Turned node now order [] { node with
        loop := { node.loop with life := .leaving (cleanupProcess node.loop.pid) } }
  | handled {msg : DynSupervisorMsg F} {inbox : List (DynSupervisorMsg F)} {next : DynNode F}
      (hwait : node.loop.wait = none) (htodo : node.loop.todo = [])
      (hopen : node.loop.ending = false) (hinbox : node.loop.inbox = msg :: inbox)
      (h : Handled node { node.loop with inbox := inbox } now order msg next) :
      Turned node now order [msg] next

/-- a step of the supervisor or of a process, with the message that the loop handles in it -/
inductive DynStepped (node : DynNode F) :
    DynEvent F → List (DynSupervisorMsg F) → DynNode F → Prop where
  | sent (request : DynRequest F) :
      DynStepped node (.request request) [] { node with loop := node.loop.send request.msg }
  | turned {now : Nanos} {order : Order Key} {msgs : List (DynSupervisorMsg F)} {next : DynNode F}
      (hlife : node.loop.life = .looping) (h : Turned node now order msgs next) :
      DynStepped node (.work now order) msgs next
  | cleaned {now : Nanos} {order : Order Key} {call : NameCall}
      (hlife : node.loop.life = .leaving call) :
      DynStepped node (.work now order) [] { node with
        table := (call.step node.table).1
        loop := { node.loop with life := .left (call.step node.table).2 } }
  | task {pid : ProcessId} {choice : Choice} {task task' : Task F} {table : ProcessTable}
      (htask : node.tasks.lookup pid = some task)
      (hstep : task.step pid node.table choice = some (table, task', none)) :
      DynStepped node (.task pid choice) []
        { node with table := table, tasks := node.tasks.insert pid task' }
  | report {pid : ProcessId} {choice : Choice} {task task' : Task F} {table : ProcessTable}
      {reason : ExitReason} (htask : node.tasks.lookup pid = some task)
      (hstep : task.step pid node.table choice = some (table, task', some reason)) :
      DynStepped node (.task pid choice) []
        { table := table
          loop := node.loop.send (.childExited pid reason)
          tasks := node.tasks.insert pid task' }

section
variable {node next : DynNode F} {loop : DynLoop F} {now : Nanos} {order : Order Key}

theorem dynStop_cases (node : DynNode F) (loop : DynLoop F) (key : Key)
    (answers : List Answer) :
    Halted node loop key answers
      (node.apply (loop.stopChildByKey key answers).1 (loop.stopChildByKey key answers).2) := by
  unfold DynLoop.stopChildByKey
  cases hchild : loop.state.children.lookup key with
  | none =>
    have hsame : loop.state.deactivate key = loop.state := by
      unfold DynSupervisorState.deactivate HashMap.modify
      rw [hchild]
    have hidle : ∀ {c}, loop.state.children.lookup key = some c → c.doneRx = none := by
      intro c hc
      cases hchild.symm.trans hc
    have h : Halted node loop key answers
      (node.halt loop key none none (loop.answers ++ answers)) := .idle hidle
    rw [DynNode.halt, hsame] at h
    exact h
  | some child =>
    dsimp only
    cases hdone : child.doneRx with
    | none =>
      refine .idle fun {c} hc => ?_
      cases hchild.symm.trans hc
      exact hdone
    | some pid => exact .waits hchild hdone

theorem DynSupervisorState.checkRestartLimit_eq (state : DynSupervisorState F) (now : Nanos) :
    ∃ times, (state.checkRestartLimit now).1 = { state with restartTimes := times } := by
  unfold checkRestartLimit
  dsimp only
  split
  next => exact ⟨_, rfl⟩
  next => exact ⟨_, rfl⟩

theorem dynExit_cases (node : DynNode F) (loop : DynLoop F) (pid : ProcessId)
    (reason : ExitReason) (now : Nanos) (order : Order Key) :
    let r := loop.receive (Node.spawned node.table).2 now order (.childExited pid reason)
    Handled node loop now order (.childExited pid reason) (node.apply r.1 r.2) := by
  unfold DynLoop.receive
  dsimp only
  generalize hexit : loop.state.handleChildExit pid reason now = exit
  have hbody := hexit
  obtain ⟨times, htimes⟩ := loop.state.checkRestartLimit_eq now
  revert hbody
  fun_cases DynSupervisorState.handleChildExit loop.state pid reason now <;> rintro rfl
  next hkey =>
    refine .ignores fun {key} hk => ?_
    cases hkey.symm.trans hk
  next hkey hmem => exact .expects hkey hmem
  next hkey hmem hchild =>
    refine .ignores fun {key'} hk => ?_
    cases hkey.symm.trans hk
    exact hchild
  next hkey hmem child hchild hrestart => exact .forgets hkey hmem
  next hkey hmem child hchild hrestart _ state hlimit =>
    rw [hlimit] at htimes
    cases htimes
    refine .givesUp hkey hchild hrestart ?_
    rw [hexit]
    rfl
  next hkey hmem child hchild hrestart _ state hlimit =>
    rw [hlimit] at htimes
    cases htimes
    exact .restarts hkey hmem hchild hrestart
  next hkey hmem child hchild hrestart _ => exact .rests hkey hmem hchild hrestart

theorem dynReceive_cases (node : DynNode F) (loop : DynLoop F) (now : Nanos) (order : Order Key)
    (msg : DynSupervisorMsg F) :
    let r := loop.receive (Node.spawned node.table).2 now order msg
    Handled node loop now order msg (node.apply r.1 r.2) := by
  cases msg with
  | startChild entry => exact .starts
  | terminateChild pid =>
    unfold DynLoop.receive
    dsimp only
    cases hkey : loop.state.pidToId.lookup pid with
    | none => exact .refuses (.terminateChild pid) nofun
    | some key => exact .terminates hkey (dynStop_cases _ _ _ _)
  | removeChild pid =>
    unfold DynLoop.receive
    dsimp only
    cases hkey : loop.state.pidToId.lookup pid with
    | none => exact .refuses (.removeChild pid) nofun
    | some key =>
      dsimp only
      split
      next => exact .refuses (.removeChild pid) nofun
      next hactive =>
        refine .removes hkey fun {c} hc => ?_
        rw [hc] at hactive
        exact Bool.eq_false_iff.mpr hactive
  | childExited pid reason => exact dynExit_cases node loop pid reason now order
  | shutdown => exact .shutdown

theorem work_turned {r : DynLoop F × Effect F}
    (h : node.loop.work (Node.spawned node.table).2 node.tasks now order = some r) :
    ∃ msgs, Turned node now order msgs (node.apply r.1 r.2) := by
  unfold DynLoop.work at h
  split at h
  next wait hwait =>
    cases wait with
    | abortHandle key entry pid asked =>
      obtain ⟨task, htask, h⟩ := Option.bind_eq_some_iff.mp h
      split at h
      next hhanded =>
        cases h
        exact ⟨_, .started hwait htask hhanded _⟩
      next => cases h
    | done key pid answers =>
      obtain ⟨task, htask, h⟩ := Option.bind_eq_some_iff.mp h
      split at h
      next hstopped =>
        cases h
        exact ⟨_, .finished hwait htask hstopped⟩
      next => cases h
  next key todo hwait htodo =>
    cases h
    exact ⟨_, .stopped hwait htodo (dynStop_cases _ _ _ _)⟩
  next hwait htodo hending =>
    cases h
    exact ⟨_, .returned hwait htodo hending⟩
  next msg inbox hwait htodo hopen hinbox =>
    cases h
    exact ⟨_, .handled hwait htodo hopen hinbox (dynReceive_cases _ _ _ _ _)⟩
  next => cases h

theorem dynNext_cases {event : DynEvent F} (h : node.next event = some next) :
    ∃ msgs, DynStepped node event msgs next := by
  cases event with
  | request request =>
    cases h
    exact ⟨_, .sent request⟩
  | work now order =>
    rw [DynNode.next, DynNode.work] at h
    split at h
    next hlife =>
      obtain ⟨r, hr, rfl⟩ := Option.map_eq_some_iff.mp h
      obtain ⟨msgs, hturned⟩ := work_turned hr
      exact ⟨msgs, .turned hlife hturned⟩
    next call hlife =>
      cases h
      exact ⟨_, .cleaned hlife⟩
    next => cases h
  | task pid choice =>
    obtain ⟨task, htask, h⟩ := Option.bind_eq_some_iff.mp h
    obtain ⟨⟨table, task', report⟩, hstep, rfl⟩ := Option.map_eq_some_iff.mp h
    cases report with
    | none => exact ⟨_, .task htask hstep⟩
    | some reason => exact ⟨_, .report htask hstep⟩

end

end Rebar.Supervisor
