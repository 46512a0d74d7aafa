import Mathlib.Algebra.Order.Ring.Nat
import Rebar.Supervisor.Incarnation

/-!
# Partition supervisors

The model of `partition_supervisor/engine.rs`: partition supervisors on one runtime, and where
their handles route keys to.

* `System.next`, `machine`     any number of partition supervisors, their loops and processes.

The names of the partitions do not name their supervisor, and a new incarnation takes its name over
from whoever holds it.
-/

namespace Rebar.Partition

open Process Supervisor

def partitionName (index : Nat) : String := s!"partition_{index}"

theorem partitionName_injective : Function.Injective partitionName := by
  intro i j h
  have hrepr : i.repr = j.repr := by simpa [partitionName] using h
  have hdigits : Nat.toDigits 10 i = Nat.toDigits 10 j := by
    simpa [Nat.repr] using congrArg String.toList hrepr
  calc i = Nat.ofDigitChars 10 (Nat.toDigits 10 i) 0 := Nat.ofDigitChars_ten_toDigits.symm
    _ = j := by rw [hdigits, Nat.ofDigitChars_ten_toDigits]

/-- the assertion of `start_partition_supervisor` is a field -/
structure PartitionSupervisorSpec where
  partitions : Nat
  strategy : RestartStrategy
  maxRestarts : Nat
  maxSeconds : Nat
  pos : 0 < partitions

def partitionEntry (index : Nat) : ChildEntry Nat :=
  ⟨(ChildSpec.new (partitionName index)).registered, index⟩

theorem registerName_partitionEntry (index : Nat) :
    (partitionEntry index).registerName = some (partitionName index) := rfl

namespace PartitionSupervisorSpec

def supSpec (spec : PartitionSupervisorSpec) : SupervisorSpec :=
  { SupervisorSpec.new spec.strategy with
    maxRestarts := spec.maxRestarts
    maxSeconds := spec.maxSeconds }

def entries (spec : PartitionSupervisorSpec) : List (ChildEntry Nat) :=
  (List.range spec.partitions).map partitionEntry

end PartitionSupervisorSpec

/-- the supervisor is named by its position among those started -/
structure PartitionSupervisorHandle where
  supervisor : Nat
  partitions : Nat
  pos : 0 < partitions

namespace PartitionSupervisorHandle

def indexForKey (handle : PartitionSupervisorHandle) (key : UInt64) : Nat :=
  key.toNat % handle.partitions

def partitionIndex (handle : PartitionSupervisorHandle) (key : UInt64) : Nat :=
  handle.indexForKey key

def whichPartition (handle : PartitionSupervisorHandle) (table : ProcessTable) (key : UInt64) :
    Option ProcessId :=
  table.whereis (partitionName (handle.indexForKey key))

/-- `hash` is what the default hasher makes of a key -/
def whichPartitionByHash {K : Type} (handle : PartitionSupervisorHandle) (table : ProcessTable)
    (hash : K → UInt64) (key : K) : Option ProcessId :=
  table.whereis (partitionName (handle.indexForKey (hash key)))

def partitionPid (handle : PartitionSupervisorHandle) (table : ProcessTable) (index : Nat) :
    Option ProcessId :=
  if handle.partitions ≤ index then none else table.whereis (partitionName index)

end PartitionSupervisorHandle

/-! ## the partition supervisors of a runtime -/

/-- a handle is listed from the start of its supervisor on; in the source the caller has it only
when the partitions have been started -/
structure System where
  node : Node Nat
  handles : List PartitionSupervisorHandle

inductive Event where
  | start (spec : PartitionSupervisorSpec)
  | shutdown (k : Nat)
  | work (k : Nat) (now : Nanos)
  | task (pid : ProcessId) (choice : Choice)

namespace System

def new (nodeId : Nat) : System := ⟨.new nodeId, []⟩

/-- `start_partition_supervisor`: a supervisor without children, which is then given all of them -/
def startPartitionSupervisor (s : System) (spec : PartitionSupervisorSpec) : System :=
  let k := s.node.sups.length
  { node := (s.node.startSupervisor spec.supSpec []).send k (.addChildren spec.entries)
    handles := s.handles ++ [⟨k, spec.partitions, spec.pos⟩] }

def next (s : System) : Event → Option System
  | .start spec => some (s.startPartitionSupervisor spec)
  | .shutdown k => (s.node.next (.request k .shutdown)).map fun node => { s with node := node }
  | .work k now => (s.node.next (.work k now)).map fun node => { s with node := node }
  | .task pid choice => (s.node.next (.task pid choice)).map fun node => { s with node := node }

/-- the process is an incarnation of the handle's own partition with this index -/
def Own (s : System) (handle : PartitionSupervisorHandle) (index : Nat) (pid : ProcessId) : Prop :=
  ∃ task ∈ s.node.tasks.lookup pid,
    task.supervisor = handle.supervisor ∧ task.entry.factory = index

instance (s : System) (handle : PartitionSupervisorHandle) (index : Nat) (pid : ProcessId) :
    Decidable (s.Own handle index pid) :=
  inferInstanceAs (Decidable (∃ task ∈ s.node.tasks.lookup pid, _))

end System

def machine : Machine System Event where
  start := fun s => ∃ nodeId, s = .new nodeId
  next := System.next

/-- no second partition supervisor is started on the runtime -/
def OnlyOne : System → Event → Prop
  | s, .start _ => s.node.sups = []
  | _, _ => True

/-! ## one partition supervisor -/

/-- an entry that `start_partition_supervisor` makes -/
def IsPartition (entry : ChildEntry Nat) : Prop := ∃ index, entry = partitionEntry index

namespace System

variable {s t : System}

/-- at most one supervisor, which is given partitions only and is that of every handle -/
structure Sole (s : System) : Prop where
  traced : s.node.Traced IsPartition
  one : s.node.sups.length ≤ 1
  handles : ∀ handle ∈ s.handles, handle.supervisor < s.node.sups.length

theorem Sole.new (nodeId : Nat) : (System.new nodeId).Sole :=
  ⟨Node.Traced.new nodeId, Nat.zero_le 1, nofun⟩

theorem Sole.start (h : s.Sole) (hs : s.node.sups = []) (spec : PartitionSupervisorSpec) :
    (s.startPartitionSupervisor spec).Sole := by
  have hentries : ∀ entry ∈ spec.entries, IsPartition entry := by
    intro entry hentry
    obtain ⟨index, _, heq⟩ := List.mem_map.mp hentry
    exact ⟨index, heq.symm⟩
  have hlen : (s.startPartitionSupervisor spec).node.sups.length = s.node.sups.length + 1 := by
    show ((s.node.sups ++ [_]).modify _ _).length = _
    rw [List.length_modify, List.length_append]
    rfl
  have hnil : ∀ entry ∈ ([] : List (ChildEntry Nat)), IsPartition entry := by
    intro entry hentry
    cases hentry
  refine ⟨(h.traced.startSupervisor spec.supSpec hnil).send _ hentries, ?_, ?_⟩
  · rw [hlen, hs]
    exact Nat.le_refl 1
  · intro handle hhandle
    rw [hlen]
    rcases List.mem_append.mp hhandle with hold | hnew
    · exact Nat.lt_succ_of_lt (h.handles handle hold)
    · rw [List.mem_singleton.mp hnew]
      exact Nat.lt_succ_self _

theorem Sole.withNode (h : s.Sole) {node : Node Nat} (ht : node.Traced IsPartition)
    (hlen : node.sups.length = s.node.sups.length) : Sole { s with node := node } :=
  ⟨ht, hlen ▸ h.one, fun handle hh => hlen ▸ h.handles handle hh⟩

theorem Sole.next (h : s.Sole) {event : Event} (ho : OnlyOne s event)
    (hn : s.next event = some t) : t.Sole := by
  cases event with
  | start spec =>
    cases hn
    exact h.start ho spec
  | shutdown k =>
    obtain ⟨node, hnode, heq⟩ := Option.map_eq_some_iff.mp hn
    have hnil : (Supervisor.Event.request k .shutdown).Gives IsPartition := by
      intro entry hentry
      cases hentry
    rw [← heq]
    exact h.withNode (h.traced.next _ hnil hnode) (Node.length_next hnode nofun)
  | work k now =>
    obtain ⟨node, hnode, heq⟩ := Option.map_eq_some_iff.mp hn
    rw [← heq]
    exact h.withNode (h.traced.next (.work k now) trivial hnode) (Node.length_next hnode nofun)
  | task pid choice =>
    obtain ⟨node, hnode, heq⟩ := Option.map_eq_some_iff.mp hn
    rw [← heq]
    exact h.withNode (h.traced.next (.task pid choice) trivial hnode) (Node.length_next hnode nofun)

theorem Sole.own (h : s.Sole) {handle : PartitionSupervisorHandle} (hh : handle ∈ s.handles)
    {index : Nat} {pid : ProcessId}
    (hw : s.node.table.whereis (partitionName index) = some pid) : s.Own handle index pid := by
  obtain ⟨task, htask, hname⟩ := h.traced.names hw
  have hsound := (h.traced.tasks htask).2
  obtain ⟨i, hi⟩ := hsound.entry
  have hindex : i = index := by
    rw [hi, registerName_partitionEntry] at hname
    exact partitionName_injective (Option.some.inj hname)
  refine ⟨task, htask, ?_, ?_⟩
  · -- both are the only supervisor there is
    have h1 := Nat.lt_of_lt_of_le hsound.supervisor h.one
    have h2 := Nat.lt_of_lt_of_le (h.handles handle hh) h.one
    omega
  · rw [hi, hindex]
    rfl

end System

theorem sole_of_reach {s : System} (h : machine.Reach OnlyOne s) : s.Sole := by
  refine Machine.Reach.inv ?_ ?_ h
  · intro s hs
    obtain ⟨nodeId, heq⟩ := hs
    rw [heq]
    exact .new nodeId
  · intro s event t hsole ho hn
    exact hsole.next ho hn

/-- **With one partition supervisor on the runtime**, whatever its children do and however often
they are restarted, a handle routes every key to its own partition with the index of the key. -/
theorem routes_to_own {s : System} (h : machine.Reach OnlyOne s)
    {handle : PartitionSupervisorHandle} (hh : handle ∈ s.handles) :
    (∀ key pid, handle.whichPartition s.node.table key = some pid →
      s.Own handle (handle.partitionIndex key) pid) ∧
    (∀ (K : Type) (hash : K → UInt64) (key : K) (pid : ProcessId),
      handle.whichPartitionByHash s.node.table hash key = some pid →
      s.Own handle (handle.partitionIndex (hash key)) pid) ∧
    ∀ index pid, handle.partitionPid s.node.table index = some pid →
      index < handle.partitions ∧ s.Own handle index pid := by
  have hsole := sole_of_reach h
  refine ⟨fun key pid hw => hsole.own hh hw, fun K hash key pid hw => hsole.own hh hw, ?_⟩
  intro index pid hp
  unfold PartitionSupervisorHandle.partitionPid at hp
  split at hp
  next => cases hp
  next hlt => exact ⟨Nat.lt_of_not_le hlt, hsole.own hh hp⟩

private def solo (partitions : Nat) (pos : 0 < partitions) : PartitionSupervisorSpec :=
  ⟨partitions, .oneForOne, 3, 5, pos⟩

/-- the process `localId` proceeds by `steps` steps -/
private def proceeding (localId steps : Nat) : List Event :=
  List.replicate steps (.task ⟨1, localId⟩ .proceed)

private def starts : Event → Bool
  | .start _ => true
  | _ => false

private theorem onlyOne_of_started {events : List Event} (h : events.any starts = false) :
    ∀ event ∈ events, ∀ s, OnlyOne s event := by
  intro event hevent s
  have hnot := List.any_eq_false.mp h event hevent
  cases event with
  | start spec => exact absurd rfl hnot
  | shutdown k => trivial
  | work k now => trivial
  | task pid choice => trivial

/-- two partitions, the second of which crashes and is restarted -/
private def restarted : List Event :=
  List.flatten [[.work 0 0, .work 0 0], proceeding 2 5, [.work 0 0, .work 0 0], proceeding 3 5,
    [.work 0 0, .task ⟨1, 3⟩ .panics], proceeding 3 2, [.work 0 0, .work 0 0], proceeding 4 6,
    [.work 0 0]]

theorem routes_to_own_restarted : ∃ s handle, machine.Reach OnlyOne s ∧ handle ∈ s.handles ∧
    handle.whichPartition s.node.table 3 = some ⟨1, 4⟩ ∧ s.Own handle 1 ⟨1, 4⟩ := by
  have hstart : machine.Reach OnlyOne ((System.new 1).startPartitionSupervisor (solo 2 two_pos)) :=
    .step (a := .start (solo 2 two_pos)) (.start ⟨1, rfl⟩) rfl rfl
  obtain ⟨s, hs, handle, hh, hindex, hw⟩ := hstart.exists_within restarted (onlyOne_of_started (by decide))
    (p := fun s => ∃ handle ∈ s.handles, handle.partitionIndex 3 = 1 ∧
      handle.whichPartition s.node.table 3 = some ⟨1, 4⟩) (by decide)
  exact ⟨s, handle, hs, hh, hw, hindex ▸ (routes_to_own hs hh).1 3 ⟨1, 4⟩ hw⟩

/-! ## two partition supervisors -/

private def rivals : List Event :=
  List.flatten [[.start (solo 1 one_pos), .start (solo 1 one_pos), .work 0 0, .work 0 0],
    proceeding 3 5, [.work 0 0, .work 1 0, .work 1 0], proceeding 4 6, [.work 1 0]]

/-- **The second of two partition supervisors takes the names of the first over**: every way to
route a key of the first handle then leads to a process that is none of its partitions, while its
own partition is alive. -/
theorem routes_to_stranger : ∃ s handle pid own, machine.Reach Machine.Anytime s ∧
    (∀ sup ∈ s.node.sups, sup.idle = true) ∧ handle ∈ s.handles ∧
    handle.partitionPid s.node.table 0 = some pid ∧
    handle.whichPartition s.node.table 7 = some pid ∧
    handle.whichPartitionByHash s.node.table (fun key : UInt64 => key) 7 = some pid ∧
    ¬ s.Own handle 0 pid ∧ s.Own handle 0 own ∧ own ∈ s.node.table.processes := by
  have hstart : machine.Reach Machine.Anytime (.new 1) := .start ⟨1, rfl⟩
  obtain ⟨s, hs, hidle, handle, hh, hpid, hkey, hhash, hnot, hown, halive⟩ := hstart.exists_run rivals
    (p := fun s => (∀ sup ∈ s.node.sups, sup.idle = true) ∧ ∃ handle ∈ s.handles,
      handle.partitionPid s.node.table 0 = some ⟨1, 4⟩ ∧
      handle.whichPartition s.node.table 7 = some ⟨1, 4⟩ ∧
      handle.whichPartitionByHash s.node.table (fun key : UInt64 => key) 7 = some ⟨1, 4⟩ ∧
      ¬ s.Own handle 0 ⟨1, 4⟩ ∧ s.Own handle 0 ⟨1, 3⟩ ∧ ⟨1, 3⟩ ∈ s.node.table.processes) (by decide)
  exact ⟨s, handle, ⟨1, 4⟩, ⟨1, 3⟩, hs, hidle, hh, hpid, hkey, hhash, hnot, hown, halive⟩

end Rebar.Partition
