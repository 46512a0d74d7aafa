import Mathlib.Data.Finset.Basic
import Rebar.Lib.HashMap
import Rebar.Process.Types

/-!
# The names of processes

The model of the name registry in `process/table.rs`.  Calls run concurrently and each operation on
one of the maps is a step of its own, so a call in progress is a value: the operation it does next.

* `ProcessTable`   the maps the registry reads and writes;
* `NameCall.step`  the next operation of a call.

The monitors, which `cleanup_process` serves after the names, are not part of this model.
-/

namespace Rebar.Process

structure ProcessTable where
  nodeId : Nat
  nextId : Nat
  processes : Finset ProcessId
  names : HashMap String ProcessId
  namesByPid : HashMap ProcessId (List String)

inductive RegistryError where
  | processNotAlive (pid : ProcessId)
  | nameTaken (name : String)
deriving DecidableEq

namespace ProcessTable

def new (nodeId : Nat) : ProcessTable := ⟨nodeId, 1, ∅, ∅, ∅⟩

/-- the table of node 1 when the processes 1.1 and 1.2 have been spawned -/
def couple : ProcessTable := ⟨1, 3, {⟨1, 1⟩, ⟨1, 2⟩}, ∅, ∅⟩

def allocatePid (t : ProcessTable) : ProcessTable × ProcessId :=
  ({ t with nextId := t.nextId + 1 }, ⟨t.nodeId, t.nextId⟩)

def insert (t : ProcessTable) (pid : ProcessId) : ProcessTable :=
  { t with processes := Insert.insert pid t.processes }

def whereis (t : ProcessTable) (name : String) : Option ProcessId := t.names.lookup name

/-- `names.remove_if` with the test that the name still points to the process -/
def removeName (t : ProcessTable) (name : String) (pid : ProcessId) : ProcessTable :=
  if t.names.lookup name = some pid then { t with names := t.names.erase name } else t

def unlist (t : ProcessTable) (name : String) (pid : ProcessId) : ProcessTable :=
  { t with namesByPid := HashMap.modify t.namesByPid pid fun names => names.filter (· ≠ name) }

end ProcessTable

inductive NameCall where
  /-- `register_inner`: the process must be alive -/
  | check (name : String) (pid : ProcessId) (force : Bool)
  /-- the entry of the name -/
  | enter (name : String) (pid : ProcessId) (force : Bool)
  /-- the list of the process that held the name -/
  | release (name : String) (pid old : ProcessId)
  | push (name : String) (pid : ProcessId)
  /-- the process may have died meanwhile -/
  | recheck (name : String) (pid : ProcessId)
  | undoName (name : String) (pid : ProcessId)
  | undoList (name : String) (pid : ProcessId)
  | undoEmpty (pid : ProcessId)
  /-- `unregister` -/
  | forget (name : String)
  | forgetList (name : String) (pid : ProcessId)
  /-- `cleanup_process` -/
  | remove (pid : ProcessId)
  | takeList (pid : ProcessId)
  | removeNames (pid : ProcessId) (names : List String)
deriving DecidableEq

def register (name : String) (pid : ProcessId) : NameCall := .check name pid false

def reregister (name : String) (pid : ProcessId) : NameCall := .check name pid true

def unregister (name : String) : NameCall := .forget name

def cleanupProcess (pid : ProcessId) : NameCall := .remove pid

/-- what a call returns: the outcome of a registration, or the process that was found -/
inductive Returned where
  | registered (result : Except RegistryError Unit)
  | found (pid : Option ProcessId)

inductive Progress where
  | next (call : NameCall)
  | returned (value : Returned)

def NameCall.step (t : ProcessTable) : NameCall → ProcessTable × Progress
  | .check name pid force =>
    if pid ∈ t.processes then (t, .next (.enter name pid force))
    else (t, .returned (.registered (.error (.processNotAlive pid))))
  | .enter name pid force =>
    match t.names.lookup name with
    | some existing =>
      if existing = pid then (t, .returned (.registered (.ok ())))
      else if force = false ∧ existing ∈ t.processes then
        (t, .returned (.registered (.error (.nameTaken name))))
      else ({ t with names := t.names.insert name pid }, .next (.release name pid existing))
    | none => ({ t with names := t.names.insert name pid }, .next (.push name pid))
  | .release name pid old => (t.unlist name old, .next (.push name pid))
  | .push name pid =>
    ({ t with namesByPid := t.namesByPid.insert pid ((t.namesByPid.lookup pid).getD [] ++ [name]) },
      .next (.recheck name pid))
  | .recheck name pid =>
    if pid ∈ t.processes then (t, .returned (.registered (.ok ())))
    else (t, .next (.undoName name pid))
  | .undoName name pid => (t.removeName name pid, .next (.undoList name pid))
  | .undoList name pid => (t.unlist name pid, .next (.undoEmpty pid))
  | .undoEmpty pid =>
    (if t.namesByPid.lookup pid = some [] then
        { t with namesByPid := t.namesByPid.erase pid }
      else t, .returned (.registered (.error (.processNotAlive pid))))
  | .forget name =>
    match t.names.lookup name with
    | some pid => ({ t with names := t.names.erase name }, .next (.forgetList name pid))
    | none => (t, .returned (.found none))
  | .forgetList name pid => (t.unlist name pid, .returned (.found (some pid)))
  | .remove pid =>
    if pid ∈ t.processes then
      ({ t with processes := t.processes.erase pid }, .next (.takeList pid))
    else (t, .returned (.found none))
  | .takeList pid =>
    ({ t with namesByPid := t.namesByPid.erase pid },
      .next (.removeNames pid ((t.namesByPid.lookup pid).getD [])))
  | .removeNames pid [] => (t, .returned (.found (some pid)))
  | .removeNames pid (name :: names) => (t.removeName name pid, .next (.removeNames pid names))

/-! ## what a call can do to the names -/

def NameCall.claims : NameCall → Option (String × ProcessId)
  | .check name pid _ => some (name, pid)
  | .enter name pid _ => some (name, pid)
  | _ => none

def Progress.claims : Progress → Option (String × ProcessId)
  | .next call => call.claims
  | .returned _ => none

/-- the bounds of one operation: names are given only where the call claims them -/
structure Bounded (t : ProcessTable) (call : NameCall) (r : ProcessTable × Progress) : Prop where
  names : ∀ {name pid}, r.1.names.lookup name = some pid →
    t.names.lookup name = some pid ∨ call.claims = some (name, pid)
  claims : ∀ {x}, r.2.claims = some x → call.claims = some x
  nextId : r.1.nextId = t.nextId

variable {t : ProcessTable} {call : NameCall} {name : String} {pid : ProcessId}

theorem Bounded.claims_none {r : ProcessTable × Progress} (h : Bounded t call r)
    (hc : call.claims = none) : r.2.claims = none := by
  cases hr : r.2.claims with
  | none => rfl
  | some x =>
    rw [h.claims hr] at hc
    cases hc

theorem Bounded.unchanged (value : Returned) : Bounded t call (t, .returned value) :=
  ⟨Or.inl, nofun, rfl⟩

variable {t' t : ProcessTable} {progress : Progress} {call : NameCall}

theorem Bounded.listed (hnames : t'.names = t.names) (hid : t'.nextId = t.nextId)
    (hc : progress.claims = none) : Bounded t call (t', progress) := by
  refine ⟨fun h => Or.inl ?_, fun h => (nomatch hc.symm.trans h), hid⟩
  rw [← hnames]
  exact h

theorem Bounded.erased (hc : progress.claims = none) :
    Bounded t call ({ t with names := t.names.erase name }, progress) := by
  refine ⟨fun h => Or.inl ?_, fun h => (nomatch hc.symm.trans h), rfl⟩
  have h' : (t.names.erase name).lookup _ = some _ := h
  obtain ⟨-, h'⟩ := HashMap.of_lookup_erase h'
  exact h'

theorem Bounded.removed (hc : progress.claims = none) :
    Bounded t call (t.removeName name pid, progress) := by
  unfold ProcessTable.removeName
  split
  · exact .erased hc
  · exact .listed rfl rfl hc

theorem Bounded.inserted (hcall : call.claims = some (name, pid)) (hc : progress.claims = none) :
    Bounded t call ({ t with names := t.names.insert name pid }, progress) := by
  refine ⟨fun {n p} h => ?_, fun h => (nomatch hc.symm.trans h), rfl⟩
  have h' : (t.names.insert name pid).lookup n = some p := h
  rw [HashMap.lookup_insert_if] at h'
  by_cases hn : n = name
  · rw [if_pos hn] at h'
    cases h'
    exact Or.inr (hn ▸ hcall)
  · rw [if_neg hn] at h'
    exact Or.inl h'

/-- **A name is only given to the process of a call that claims it**, and no call claims a name it
did not claim before. -/
theorem step_bounded (t : ProcessTable) (call : NameCall) : Bounded t call (call.step t) := by
  fun_cases NameCall.step t call <;> try exact .unchanged _
  next => exact ⟨Or.inl, fun h => h, rfl⟩
  next => exact .inserted rfl rfl
  next => exact .inserted rfl rfl
  next => exact .listed rfl rfl rfl
  next => exact .listed rfl rfl rfl
  next => exact .listed rfl rfl rfl
  next => exact .removed rfl
  next => exact .listed rfl rfl rfl
  next =>
    split
    · exact .listed rfl rfl rfl
    · exact .unchanged _
  next => exact .erased rfl
  next => exact .listed rfl rfl rfl
  next => exact .listed rfl rfl rfl
  next => exact .listed rfl rfl rfl
  next => exact .removed rfl

theorem NameCall.processes_step (t : ProcessTable) (call : NameCall) :
    (call.step t).1.processes = match call with
      | .remove pid => t.processes.erase pid
      | _ => t.processes := by
  have hremove : ∀ name pid, (t.removeName name pid).processes = t.processes := by
    intro name pid
    unfold ProcessTable.removeName
    split <;> rfl
  fun_cases NameCall.step t call <;> try rfl
  · exact hremove _ _
  · dsimp only
    split <;> rfl
  next hp => exact (Finset.erase_eq_of_notMem hp).symm
  · exact hremove _ _

def NameCall.removes : NameCall → Option ProcessId
  | .remove pid => some pid
  | _ => none

def Progress.removes : Progress → Option ProcessId
  | .next call => call.removes
  | .returned _ => none

theorem NameCall.mem_step {pid : ProcessId} (h : pid ∈ t.processes) (hne : call.removes ≠ some pid) :
    pid ∈ (call.step t).1.processes := by
  rw [NameCall.processes_step]
  split
  next p =>
    refine Finset.mem_erase.mpr ⟨?_, h⟩
    rintro rfl
    exact hne rfl
  next => exact h

theorem NameCall.removes_step (t : ProcessTable) (call : NameCall) :
    (call.step t).2.removes = none := by
  fun_cases NameCall.step t call <;> rfl

/-! ## a call comes to an end -/

/-- a bound on the operations after the present one -/
def NameCall.rank (t : ProcessTable) : NameCall → Nat
  | .check _ _ _ => 7
  | .enter _ _ _ => 6
  | .release _ _ _ => 5
  | .push _ _ => 4
  | .recheck _ _ => 3
  | .undoName _ _ => 2
  | .undoList _ _ | .forget _ => 1
  | .undoEmpty _ | .forgetList _ _ => 0
  | .remove pid => ((t.namesByPid.lookup pid).getD []).length + 2
  | .takeList pid => ((t.namesByPid.lookup pid).getD []).length + 1
  | .removeNames _ names => names.length

theorem NameCall.rank_step {next : NameCall} (h : (call.step t).2 = .next next) :
    next.rank (call.step t).1 < call.rank t := by
  revert h
  fun_cases NameCall.step t call <;> intro h <;> cases h <;> simp [NameCall.rank]

/-- the call returns after finitely many operations, if no other call interferes -/
inductive NameCall.Ends : ProcessTable → NameCall → Prop where
  | step {t : ProcessTable} {call : NameCall}
      (h : ∀ next, (call.step t).2 = .next next → Ends (call.step t).1 next) : Ends t call

/-- **Every call comes to an end** -/
theorem NameCall.ends (t : ProcessTable) (call : NameCall) : Ends t call := by
  induction hrank : call.rank t using Nat.strong_induction_on generalizing t call with
  | _ n ih => exact .step fun next hnext => ih _ (hrank ▸ rank_step hnext) _ next rfl

end Rebar.Process
