import Rebar.Lib.HashMap
import Rebar.Lib.Iter
import Rebar.Lib.Machine
import Rebar.Lib.Saturating
import Rebar.Process.Types
import Mathlib.Data.List.Sort

/-!
# The name registry: an observed-remove set with last-writer-wins lookup

The state and the operations of `registry/orset.rs`.  A registration is an entry with a unique
tag; unregistering moves tags to the tombstones, and a tombstoned tag is never added again.

* `Registry.register`, `unregister`, `removeByPid`, `removeByNode`   local operations;
* `Registry.mergeDelta`, `generateDeltas`                            replication;
* `Registry.lookup`, `registered`                                    resolution;
* `Op`, `Registry.step`, `registryMachine`                           runs of one replica.

`MapOrder` is the order in which the two hash maps are enumerated.  The tag that `register` draws
(`Uuid::new_v4`) is an argument; a run only takes fresh ones.
-/

namespace Rebar

abbrev Uuid := Nat

structure RegistryEntry where
  name : String
  pid : ProcessId
  tag : Uuid
  timestamp : Nat
  nodeId : Nat
deriving DecidableEq

inductive RegistryDelta where
  | add (entry : RegistryEntry)
  | remove (name : String) (tag : Uuid)
deriving DecidableEq

structure NameConflict where
  name : String
  winner : RegistryEntry
  loser : RegistryEntry
deriving DecidableEq

structure Tombstone where
  name : String
  generation : UInt64
deriving DecidableEq

structure Registry where
  entries : HashMap String (List RegistryEntry)
  tombstones : HashMap Uuid Tombstone
  tombstoneGen : UInt64
  maxTombstones : Nat
  conflicts : List NameConflict

structure MapOrder where
  names : Order String
  tags : Order Uuid

def MapOrder.stored : MapOrder := ⟨Order.stored, Order.stored⟩

namespace Registry

def defaultMaxTombstones : Nat := 4096

def empty (maxTombstones : Nat) : Registry where
  entries := ∅
  tombstones := ∅
  tombstoneGen := 0
  maxTombstones := maxTombstones
  conflicts := []

def new : Registry := empty defaultMaxTombstones

/-- the live entries under a name, in the order in which they were added -/
def live (r : Registry) (name : String) : List RegistryEntry := (r.entries.lookup name).getD []

/-! ## tombstones -/

def nextGen (r : Registry) : Registry × UInt64 :=
  let g := satAdd r.tombstoneGen 1
  ({ r with tombstoneGen := g }, g)

def generationOf (m : HashMap Uuid Tombstone) (tag : Uuid) : Nat :=
  match m.lookup tag with
  | some t => t.generation.toNat
  | none => 0

/-- evict the tombstone of the least generation while there are more than `cap`; `fuel` bounds the
number of rounds -/
def evictOldest (o : Order Uuid) (cap : Nat) : Nat → HashMap Uuid Tombstone → HashMap Uuid Tombstone
  | 0, m => m
  | fuel + 1, m =>
    if cap < m.keys.length then
      match minByKey (generationOf m) (HashMap.keysIn m o) with
      | some victim => evictOldest o cap fuel (m.erase victim)
      | none => m
    else m

def enforceTombstoneCap (o : Order Uuid) (r : Registry) : Registry :=
  { r with
    tombstones := evictOldest o r.maxTombstones r.tombstones.keys.length r.tombstones }

def tombstone (o : Order Uuid) (r : Registry) (tag : Uuid) (name : String) : Registry :=
  let (r, generation) := r.nextGen
  let tombstones := match r.tombstones.lookup tag with
    | some existing =>
      -- an empty name came from a full sync; a known one replaces it
      if existing.name = "" ∧ name ≠ "" then r.tombstones.insert tag { existing with name := name }
      else r.tombstones
    | none => r.tombstones.insert tag ⟨name, generation⟩
  enforceTombstoneCap o { r with tombstones := tombstones }

/-- drop the live entries with this tag under every name; whether there was one -/
def reapTag (r : Registry) (tag : Uuid) : Registry × Bool :=
  let kept := HashMap.mapVal r.entries fun _ es => es.filter fun e => e.tag ≠ tag
  let removed := r.entries.entries.any fun e => e.2.any fun e => e.tag = tag
  ({ r with entries := HashMap.retain kept fun _ es => !es.isEmpty }, removed)

def expireTombstones (r : Registry) (stableGeneration : UInt64) : Registry × Nat :=
  let kept := HashMap.retain r.tombstones fun _ t => stableGeneration < t.generation
  ({ r with tombstones := kept }, r.tombstones.keys.length - kept.keys.length)

/-! ## local operations -/

def register (r : Registry) (name : String) (pid : ProcessId) (nodeId timestamp : Nat)
    (tag : Uuid) : Registry :=
  { r with
    entries := r.entries.insert name (r.live name ++ [⟨name, pid, tag, timestamp, nodeId⟩]) }

def lwwCmp (a b : RegistryEntry) : Ordering :=
  (compare a.timestamp b.timestamp).then (compare a.nodeId b.nodeId)

def lookup (r : Registry) (name : String) : Option RegistryEntry :=
  (r.entries.lookup name).bind (maxBy lwwCmp)

def unregister (o : Order Uuid) (r : Registry) (name : String) :
    Registry × Option (List RegistryDelta) :=
  match r.entries.lookup name with
  | none => (r, none)
  | some es =>
    let r := { r with entries := r.entries.erase name }
    if es.isEmpty then (r, none)
    else
      let tags := es.map (·.tag)
      (tags.foldl (fun r tag => r.tombstone o tag name) r, some (tags.map (.remove name)))

def registered (o : Order String) (r : Registry) : List (String × ProcessId) :=
  let result := (HashMap.keysIn r.entries o).filterMap fun name =>
    (r.lookup name).map fun e => (e.name, e.pid)
  result.insertionSort fun a b => a.1 ≤ b.1

/-- one name of a removal by predicate: tombstone the matching tags, then drop the entries -/
def removeUnder (o : Order Uuid) (p : RegistryEntry → Bool) (r : Registry) (name : String) :
    Registry :=
  let removed := ((r.live name).filter p).map (·.tag)
  let r := removed.foldl (fun r tag => r.tombstone o tag name) r
  match r.entries.lookup name with
  | none => r
  | some es =>
    let kept := es.filter fun e => !p e
    if kept.isEmpty then { r with entries := r.entries.erase name }
    else { r with entries := r.entries.insert name kept }

/-- remove, under every name, the entries that satisfy `p` -/
def removeWhere (o : MapOrder) (r : Registry) (p : RegistryEntry → Bool) : Registry :=
  (HashMap.keysIn r.entries o.names).foldl (removeUnder o.tags p) r

def removeByPid (o : MapOrder) (r : Registry) (pid : ProcessId) : Registry :=
  removeWhere o r fun e => e.pid = pid

def removeByNode (o : MapOrder) (r : Registry) (nodeId : Nat) : Registry :=
  removeWhere o r fun e => e.nodeId = nodeId

/-! ## replication -/

def mergeAdd (r : Registry) (entry : RegistryEntry) : Registry :=
  -- a tombstoned tag cannot be re-added
  if entry.tag ∈ r.tombstones then r
  else
    -- the live winner before the insertion, when it is another registration
    let conflictingWinner :=
      (r.lookup entry.name).filter fun w => w.tag ≠ entry.tag ∧ w.pid ≠ entry.pid
    let es := r.live entry.name
    if es.any fun e => e.tag = entry.tag then r
    else
      let r := { r with entries := r.entries.insert entry.name (es ++ [entry]) }
      match conflictingWinner with
      | none => r
      | some prior =>
        let (winner, loser) :=
          if lwwCmp entry prior = .gt then (entry, prior) else (prior, entry)
        { r with conflicts := r.conflicts ++ [⟨winner.name, winner, loser⟩] }

def mergeDelta (o : Order Uuid) (r : Registry) : RegistryDelta → Registry
  | .add entry => r.mergeAdd entry
  | .remove name tag => ((r.tombstone o tag name).reapTag tag).1

def takeConflicts (r : Registry) : Registry × List NameConflict :=
  ({ r with conflicts := [] }, r.conflicts)

def generateDeltas (o : MapOrder) (r : Registry) : List RegistryDelta :=
  ((HashMap.keysIn r.entries o.names).flatMap fun name => (r.live name).map .add) ++
    (HashMap.keysIn r.tombstones o.tags).filterMap fun tag =>
      (r.tombstones.lookup tag).map fun t => .remove t.name tag

/-! ## runs of one replica -/

inductive Op where
  | register (name : String) (pid : ProcessId) (nodeId timestamp : Nat) (tag : Uuid)
  | unregister (name : String)
  | removeByPid (pid : ProcessId)
  | removeByNode (nodeId : Nat)
  | mergeDelta (delta : RegistryDelta)
  | expireTombstones (stableGeneration : UInt64)
  | takeConflicts

def Op.adds : Op → Option RegistryEntry
  | .register name pid nodeId timestamp tag => some ⟨name, pid, tag, timestamp, nodeId⟩
  | .mergeDelta (.add entry) => some entry
  | _ => none

def Fresh (r : Registry) (tag : Uuid) : Prop :=
  tag ∉ r.tombstones ∧ ∀ e ∈ r.entries.entries, ∀ x ∈ e.2, x.tag ≠ tag

instance (r : Registry) (tag : Uuid) : Decidable (r.Fresh tag) :=
  inferInstanceAs (Decidable (_ ∧ _))

def step (o : MapOrder) (r : Registry) : Op → Option Registry
  | .register name pid nodeId timestamp tag =>
    if r.Fresh tag then some (r.register name pid nodeId timestamp tag) else none
  | .unregister name => some (r.unregister o.tags name).1
  | .removeByPid pid => some (r.removeByPid o pid)
  | .removeByNode nodeId => some (r.removeByNode o nodeId)
  | .mergeDelta delta => some (r.mergeDelta o.tags delta)
  | .expireTombstones g => some (r.expireTombstones g).1
  | .takeConflicts => some r.takeConflicts.1

end Registry

/-- the runs of a replica: it starts empty, with any cap on tombstones -/
def registryMachine : Machine Registry (MapOrder × Registry.Op) where
  start r := ∃ cap, r = Registry.empty cap
  next r a := r.step a.1 a.2

end Rebar
