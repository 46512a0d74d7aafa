import Rebar.Lib.HashMap
import Rebar.Lib.Iter
import Mathlib.Data.List.Sort
import Mathlib.Data.UInt

/-!
# Gossip updates and the queue they wait in

The model of `swim/gossip.rs`.

* `GossipUpdate`             a rumour about one node at one incarnation;
* `GossipUpdate.supersedes`  which of two rumours about a node is kept;
* `GossipQueue.add`          coalescing insertion, with eviction when the queue is full;
* `GossipQueue.drain`        the updates to piggyback on one message.
-/

namespace Rebar.Swim

abbrev NodeId := Nat

structure SocketAddr where
  host : Nat
  port : UInt16
deriving DecidableEq

def SocketAddr.home : SocketAddr := ⟨1, 9001⟩

abbrev CertHash := BitVec 256

inductive GossipUpdate where
  | alive (nodeId : NodeId) (addr : SocketAddr) (incarnation : UInt64) (certHash : Option CertHash)
  | suspect (nodeId : NodeId) (addr : SocketAddr) (incarnation : UInt64)
  | dead (nodeId : NodeId) (addr : SocketAddr) (incarnation : UInt64)
  | leave (nodeId : NodeId) (addr : SocketAddr) (incarnation : UInt64)
deriving DecidableEq

namespace GossipUpdate

def nodeId : GossipUpdate → NodeId
  | .alive n _ _ _ => n
  | .suspect n _ _ => n
  | .dead n _ _ => n
  | .leave n _ _ => n

def incarnation : GossipUpdate → UInt64
  | .alive _ _ i _ => i
  | .suspect _ _ i => i
  | .dead _ _ i => i
  | .leave _ _ i => i

/-- a death rumour wins a tie over a suspicion, and a suspicion over an `Alive` -/
def precedence : GossipUpdate → Nat
  | .alive .. => 0
  | .suspect .. => 1
  | .dead .. => 2
  | .leave .. => 2

def supersedes (u other : GossipUpdate) : Bool :=
  match compare u.incarnation other.incarnation with
  | .gt => true
  | .lt => false
  | .eq => decide (other.precedence ≤ u.precedence)

end GossipUpdate

structure PendingUpdate where
  update : GossipUpdate
  retransmitsLeft : Nat
deriving DecidableEq

def defaultMaxEntries : Nat := 1024

structure GossipQueue where
  pending : HashMap NodeId PendingUpdate
  maxEntries : Nat
  retransmitBudget : Nat

namespace GossipQueue

def new : GossipQueue := ⟨∅, defaultMaxEntries, 4⟩

def withClusterSize (clusterSize maxEntries : Nat) : GossipQueue where
  pending := ∅
  maxEntries := max maxEntries 1
  retransmitBudget := max (Nat.log2 (max clusterSize 1) + 1) 1

def retransmitsLeft (q : GossipQueue) (id : NodeId) : Nat :=
  match q.pending.lookup id with
  | some p => p.retransmitsLeft
  | none => 0

def evictOne (o : Order NodeId) (q : GossipQueue) : GossipQueue :=
  match minByKey q.retransmitsLeft (HashMap.keysIn q.pending o) with
  | some victim => { q with pending := q.pending.erase victim }
  | none => q

def add (o : Order NodeId) (q : GossipQueue) (update : GossipUpdate) : GossipQueue :=
  match q.pending.lookup update.nodeId with
  | some existing =>
    if update.supersedes existing.update then
      { q with pending := q.pending.insert update.nodeId ⟨update, q.retransmitBudget⟩ }
    else q
  | none =>
    let q := if q.maxEntries ≤ q.pending.keys.length then q.evictOne o else q
    { q with pending := q.pending.insert update.nodeId ⟨update, q.retransmitBudget⟩ }

/-- send each of the ids once: its budget is decremented, and it goes when the budget is used up -/
def sendEach : HashMap NodeId PendingUpdate → List NodeId →
    HashMap NodeId PendingUpdate × List GossipUpdate
  | pending, [] => (pending, [])
  | pending, id :: ids =>
    match pending.lookup id with
    | none => sendEach pending ids
    | some entry =>
      let left := entry.retransmitsLeft - 1
      let pending := if left = 0 then pending.erase id
        else pending.insert id { entry with retransmitsLeft := left }
      let (pending, out) := sendEach pending ids
      (pending, entry.update :: out)

def drain (o : Order NodeId) (q : GossipQueue) (max : Nat) : GossipQueue × List GossipUpdate :=
  let ids := (HashMap.keysIn q.pending o).insertionSort
    fun a b => q.retransmitsLeft b ≤ q.retransmitsLeft a
  let (pending, out) := sendEach q.pending (ids.take max)
  ({ q with pending := pending }, out)

/-- `add` keeps the new update -/
def accepts (q : GossipQueue) (update : GossipUpdate) : Bool :=
  match q.pending.lookup update.nodeId with
  | some existing => update.supersedes existing.update
  | none => true

/-! ## what `add` does -/

variable {o : Order NodeId} {q : GossipQueue} {u : GossipUpdate} {p : PendingUpdate}

theorem accepts_none (h : q.pending.lookup u.nodeId = none) : q.accepts u = true := by
  rw [accepts, h]

theorem accepts_some (h : q.pending.lookup u.nodeId = some p) :
    q.accepts u = u.supersedes p.update := by
  rw [accepts, h]

theorem add_of_not_accepts (h : q.accepts u = false) : q.add o u = q := by
  cases hlookup : q.pending.lookup u.nodeId with
  | none => cases (accepts_none hlookup).symm.trans h
  | some existing =>
    rw [accepts_some hlookup] at h
    rw [add, hlookup]
    dsimp only
    rw [if_neg (by rw [h]; exact Bool.false_ne_true)]

/-- the map to which an accepted update is written: an entry is evicted if a new one finds no room -/
def room (o : Order NodeId) (q : GossipQueue) (u : GossipUpdate) : HashMap NodeId PendingUpdate :=
  if (q.pending.lookup u.nodeId).isNone ∧ q.maxEntries ≤ q.pending.keys.length then
    (q.evictOne o).pending
  else q.pending

theorem evictOne_eq (o : Order NodeId) (q : GossipQueue) :
    q.evictOne o = { q with pending := (q.evictOne o).pending } := by
  unfold evictOne
  split <;> rfl

theorem add_of_accepts (h : q.accepts u = true) :
    q.add o u =
      { q with pending := (q.room o u).insert u.nodeId ⟨u, q.retransmitBudget⟩ } := by
  unfold add room
  cases hlookup : q.pending.lookup u.nodeId with
  | none =>
    by_cases hfull : q.maxEntries ≤ q.pending.keys.length
    · simp only [hfull, if_true, Option.isNone_none, and_self]
      rw [evictOne_eq]
    · simp only [hfull, if_false, and_false]
  | some existing =>
    rw [accepts_some hlookup] at h
    dsimp only
    rw [if_pos h, if_neg (fun hnone => Bool.false_ne_true hnone.1)]

theorem lookup_add_self (h : q.accepts u = true) :
    (q.add o u).pending.lookup u.nodeId = some ⟨u, q.retransmitBudget⟩ := by
  rw [add_of_accepts h]
  exact AList.lookup_insert _

end GossipQueue
end Rebar.Swim
