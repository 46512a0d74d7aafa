import Rebar.Lib.Calls
import Rebar.Process.Names

/-!
# Monitors

The model of the monitors in `process/table.rs` and of `cleanup_process` as a whole.  Each operation
on a map, the allocation of a reference and each send is a step of its own.

* `Table`            the process table with the monitor maps;
* `TableCall.step`   its next operation, and what can be seen of it;
* `tableMachine`     the runs, with the log of all that was seen.

References are natural numbers: the wrap of the counter after `2 ^ 64` monitors is left out.  Exit
hooks, which `cleanup_process` invokes last, do not touch the table.
-/

namespace Rebar.Process

/-- a `MonitorRef` with the watcher and the target it was made for -/
structure Monitor where
  mref : Nat
  watcher : ProcessId
  target : ProcessId
deriving DecidableEq

structure DownMessage where
  monitorRef : Nat
  pid : ProcessId
  reason : String
deriving DecidableEq

structure Table extends ProcessTable where
  monitorsByTarget : HashMap ProcessId (List (Nat × ProcessId))
  monitorsByWatcher : HashMap ProcessId (List Nat)
  monitorIndex : HashMap Nat (ProcessId × ProcessId)
  monitorCounter : Nat

namespace Table

/-- `monitors_by_target.get_mut(target)`, then `retain` of the other references -/
def untarget (t : Table) (mref : Nat) (target : ProcessId) : Table :=
  { t with monitorsByTarget := HashMap.modify t.monitorsByTarget target fun entries =>
      entries.filter (·.1 ≠ mref) }

def untargetEmpty (t : Table) (target : ProcessId) : Table :=
  if t.monitorsByTarget.lookup target = some [] then
    { t with monitorsByTarget := t.monitorsByTarget.erase target }
  else t

/-- `monitors_by_watcher.get_mut(watcher)`, then `retain` of the other references -/
def unwatch (t : Table) (mref : Nat) (watcher : ProcessId) : Table :=
  { t with monitorsByWatcher := HashMap.modify t.monitorsByWatcher watcher fun mrefs =>
      mrefs.filter (· ≠ mref) }

def unwatchEmpty (t : Table) (watcher : ProcessId) : Table :=
  if t.monitorsByWatcher.lookup watcher = some [] then
    { t with monitorsByWatcher := t.monitorsByWatcher.erase watcher }
  else t

def unindex (t : Table) (mref : Nat) : Table := { t with monitorIndex := t.monitorIndex.erase mref }

def watched (t : Table) (target : ProcessId) : List (Nat × ProcessId) :=
  (t.monitorsByTarget.lookup target).getD []

def watching (t : Table) (watcher : ProcessId) : List Nat :=
  (t.monitorsByWatcher.lookup watcher).getD []

end Table

inductive TableCall where
  /-- a call of the name registry, and the part of `cleanup_process` that serves the names -/
  | names (call : NameCall)
  /-- `monitor`: `MonitorRef::new` -/
  | monitor (watcher target : ProcessId)
  | check (m : Monitor)
  | index (m : Monitor)
  | addTarget (m : Monitor)
  | addWatcher (m : Monitor)
  /-- the target may have exited meanwhile -/
  | recheck (m : Monitor)
  | take (m : Monitor)
  | undoTarget (m : Monitor)
  | undoTargetEmpty (m : Monitor)
  | undoWatcher (m : Monitor)
  | undoWatcherEmpty (m : Monitor)
  | noproc (m : Monitor)
  /-- `cleanup_process`: the monitors on the process -/
  | takeTarget (pid : ProcessId)
  | fire (pid : ProcessId) (entries : List (Nat × ProcessId))
  | fireWatcher (m : Monitor) (entries : List (Nat × ProcessId))
  | fireDown (m : Monitor) (entries : List (Nat × ProcessId))
  /-- `cleanup_process`: the monitors the process held -/
  | takeWatcher (pid : ProcessId)
  | drop (pid : ProcessId) (mrefs : List Nat)
  | dropTarget (pid : ProcessId) (mref : Nat) (target : ProcessId) (mrefs : List Nat)
  | demonitor (mref : Nat)
  | demonitorTarget (m : Monitor)
  | demonitorWatcher (m : Monitor)

def monitor (watcher target : ProcessId) : TableCall := .monitor watcher target

def demonitor (mref : Nat) : TableCall := .demonitor mref

inductive Note where
  /-- a reference was allocated for a monitor -/
  | issued (m : Monitor)
  /-- `cleanup_process` removed the process -/
  | cleaned (pid : ProcessId)
  /-- `demonitor` removed the reference -/
  | released (mref : Nat)
  /-- `send_down`, and whether the watcher was in the table -/
  | sent (watcher : ProcessId) (down : DownMessage) (reached : Bool)
deriving DecidableEq

structure Outcome where
  table : Table
  call : Option TableCall
  note : Option Note

def Table.sendDown (t : Table) (m : Monitor) (reason : String) : Note :=
  .sent m.watcher ⟨m.mref, m.target, reason⟩ (m.watcher ∈ t.processes)

/-- `cleanup_process` goes on to the monitors when the names are served -/
def afterNames : NameCall → Progress → Option TableCall
  | .removeNames pid [], _ => some (.takeTarget pid)
  | _, .next call => some (.names call)
  | _, .returned _ => none

def namesNote (t : Table) : NameCall → Option Note
  | .remove pid => if pid ∈ t.processes then some (.cleaned pid) else none
  | _ => none

def TableCall.step (t : Table) : TableCall → Outcome
  | .names call =>
    ⟨{ t with toProcessTable := (call.step t.toProcessTable).1 },
      afterNames call (call.step t.toProcessTable).2, namesNote t call⟩
  | .monitor watcher target =>
    let m : Monitor := ⟨t.monitorCounter, watcher, target⟩
    ⟨{ t with monitorCounter := t.monitorCounter + 1 }, some (.check m), some (.issued m)⟩
  | .check m =>
    if m.target ∈ t.processes then ⟨t, some (.index m), none⟩ else ⟨t, some (.noproc m), none⟩
  | .index m =>
    ⟨{ t with monitorIndex := t.monitorIndex.insert m.mref (m.watcher, m.target) },
      some (.addTarget m), none⟩
  | .addTarget m =>
    ⟨{ t with monitorsByTarget :=
          t.monitorsByTarget.insert m.target (t.watched m.target ++ [(m.mref, m.watcher)]) },
      some (.addWatcher m), none⟩
  | .addWatcher m =>
    ⟨{ t with monitorsByWatcher :=
          t.monitorsByWatcher.insert m.watcher (t.watching m.watcher ++ [m.mref]) },
      some (.recheck m), none⟩
  | .recheck m => if m.target ∈ t.processes then ⟨t, none, none⟩ else ⟨t, some (.take m), none⟩
  | .take m =>
    match t.monitorIndex.lookup m.mref with
    | some _ => ⟨t.unindex m.mref, some (.undoTarget m), none⟩
    | none => ⟨t, none, none⟩
  | .undoTarget m => ⟨t.untarget m.mref m.target, some (.undoTargetEmpty m), none⟩
  | .undoTargetEmpty m => ⟨t.untargetEmpty m.target, some (.undoWatcher m), none⟩
  | .undoWatcher m => ⟨t.unwatch m.mref m.watcher, some (.undoWatcherEmpty m), none⟩
  | .undoWatcherEmpty m => ⟨t.unwatchEmpty m.watcher, some (.noproc m), none⟩
  | .noproc m => ⟨t, none, some (t.sendDown m "noproc")⟩
  | .takeTarget pid =>
    ⟨{ t with monitorsByTarget := t.monitorsByTarget.erase pid }, some (.fire pid (t.watched pid)),
      none⟩
  | .fire pid [] => ⟨t, some (.takeWatcher pid), none⟩
  | .fire pid ((mref, watcher) :: entries) =>
    match t.monitorIndex.lookup mref with
    | some _ => ⟨t.unindex mref, some (.fireWatcher ⟨mref, watcher, pid⟩ entries), none⟩
    | none => ⟨t, some (.fire pid entries), none⟩
  | .fireWatcher m entries => ⟨t.unwatch m.mref m.watcher, some (.fireDown m entries), none⟩
  | .fireDown m entries => ⟨t, some (.fire m.target entries), some (t.sendDown m "exit")⟩
  | .takeWatcher pid =>
    ⟨{ t with monitorsByWatcher := t.monitorsByWatcher.erase pid },
      some (.drop pid (t.watching pid)), none⟩
  | .drop _ [] => ⟨t, none, none⟩
  | .drop pid (mref :: mrefs) =>
    match t.monitorIndex.lookup mref with
    | some (_, target) => ⟨t.unindex mref, some (.dropTarget pid mref target mrefs), none⟩
    | none => ⟨t, some (.drop pid mrefs), none⟩
  | .dropTarget pid mref target mrefs => ⟨t.untarget mref target, some (.drop pid mrefs), none⟩
  | .demonitor mref =>
    match t.monitorIndex.lookup mref with
    | some (watcher, target) =>
      ⟨t.unindex mref, some (.demonitorTarget ⟨mref, watcher, target⟩), some (.released mref)⟩
    | none => ⟨t, none, none⟩
  | .demonitorTarget m => ⟨t.untarget m.mref m.target, some (.demonitorWatcher m), none⟩
  | .demonitorWatcher m => ⟨t.unwatch m.mref m.watcher, none, none⟩

/-! ## runs -/

def TableCall.opens : TableCall → Bool
  | .names (.check _ _ _) => true
  | .names (.forget _) => true
  | .names (.remove _) => true
  | .monitor _ _ => true
  | .demonitor _ => true
  | _ => false

structure Seen where
  table : Table
  log : List Note

def TableCall.advance (s : Seen) (call : TableCall) : Seen × Option TableCall :=
  (⟨(call.step s.table).table, s.log ++ (call.step s.table).note.toList⟩, (call.step s.table).call)

def Unwatched (s : Seen) : Prop :=
  s.table.monitorsByTarget = ∅ ∧ s.table.monitorsByWatcher = ∅ ∧ s.table.monitorIndex = ∅ ∧
    s.log = []

abbrev Watches := Calls Seen TableCall

def tableMachine : Machine Watches (Calls.Label TableCall) :=
  Calls.machine TableCall.opens TableCall.advance Unwatched

end Rebar.Process
