import Rebar.Swim.Member

/-!
# The failure detector

The model of `swim/detector.rs`.  Times are instants and durations in one unit, and
`duration_since` is truncated subtraction.

* `recordAck`, `recordNack`      the outcome of a probe;
* `checkSuspectTimeouts`         suspicions that have run out become deaths;
* `removeExpiredDead`            deaths that are old enough leave the list;
* `tick`                         the choice of the next target.
-/

namespace Rebar.Swim

abbrev Instant := Nat
abbrev Duration := Nat

structure SwimConfig where
  suspectTimeout : Duration
  deadRemovalDelay : Duration
  indirectProbeCount : UInt64
  maxGossipPerTick : Nat

def SwimConfig.helpedBy (indirectProbeCount : UInt64) : SwimConfig :=
  ⟨100, 1000, indirectProbeCount, 8⟩

structure FailureDetector where
  suspectTimers : HashMap NodeId Instant
  deadTimers : HashMap NodeId Instant
  failedProbes : HashMap NodeId UInt64

namespace FailureDetector

def new : FailureDetector := ⟨∅, ∅, ∅⟩

def tick (o : Order NodeId) (pick : Pick Member) (members : MembershipList) (selfId : NodeId) :
    Option NodeId :=
  (pick.run ((members.allMembers o).filter fun m => m.nodeId ≠ selfId ∧ m.state ≠ .dead)).map
    (·.nodeId)

/-- a suspicion of our own is taken back, at the same incarnation -/
def restore (m : Member) : Member :=
  if m.state = .suspect then { m with state := .alive } else m

def recordAck (d : FailureDetector) (members : MembershipList) (nodeId : NodeId) :
    FailureDetector × MembershipList :=
  ({ d with
      failedProbes := d.failedProbes.erase nodeId
      suspectTimers := d.suspectTimers.erase nodeId },
    members.modify nodeId restore)

/-- `entry(k).or_insert(v)` -/
def orInsert {V : Type} (m : HashMap NodeId V) (k : NodeId) (v : V) : HashMap NodeId V :=
  if k ∈ m then m else m.insert k v

def recordNack (d : FailureDetector) (members : MembershipList) (nodeId : NodeId)
    (config : SwimConfig) (now : Instant) : FailureDetector × MembershipList :=
  let attempts := satAdd ((d.failedProbes.lookup nodeId).getD 0) 1
  let d := { d with failedProbes := d.failedProbes.insert nodeId attempts }
  let required := 1 + config.indirectProbeCount
  if attempts < required then (d, members)
  else
    match members.get nodeId with
    | some member =>
      if member.state = .alive then
        ({ d with suspectTimers := orInsert d.suspectTimers nodeId now },
          members.modify nodeId fun m => m.suspect m.incarnation)
      else (d, members)
    | none => (d, members)

/-- the ids whose timer has run for at least `delay` -/
def expired (o : Order NodeId) (timers : HashMap NodeId Instant) (delay : Duration)
    (now : Instant) : List NodeId :=
  (HashMap.keysIn timers o).filter fun id =>
    match timers.lookup id with
    | some t => delay ≤ now - t
    | none => false

def declare (now : Instant) (s : FailureDetector × MembershipList) (nodeId : NodeId) :
    FailureDetector × MembershipList :=
  let incarnation := ((s.2.get nodeId).map (·.incarnation)).getD 0
  ({ suspectTimers := s.1.suspectTimers.erase nodeId
     failedProbes := s.1.failedProbes.erase nodeId
     deadTimers := s.1.deadTimers.insert nodeId now },
    s.2.markDead nodeId incarnation)

def checkSuspectTimeouts (o : Order NodeId) (d : FailureDetector) (members : MembershipList)
    (config : SwimConfig) (now : Instant) : FailureDetector × MembershipList × List NodeId :=
  let newlyDead := expired o d.suspectTimers config.suspectTimeout now
  let (d, members) := newlyDead.foldl (declare now) (d, members)
  (d, members, newlyDead)

def isDead (members : MembershipList) (nodeId : NodeId) : Bool :=
  match members.get nodeId with
  | some m => m.state = .dead
  | none => false

def removeExpiredDead (o : Order NodeId) (d : FailureDetector) (members : MembershipList)
    (config : SwimConfig) (now : Instant) : FailureDetector × MembershipList × List NodeId :=
  let gone := expired o d.deadTimers config.deadRemovalDelay now
  let removed := gone.filter (isDead members)
  ({ d with deadTimers := gone.foldl (fun t id => t.erase id) d.deadTimers },
    removed.foldl (fun l id => l.removeNode id) members, removed)

/-! ## what each operation does -/

variable (d : FailureDetector) (l : MembershipList) (id k : NodeId) (config : SwimConfig)
  (now : Instant)

theorem recordAck_suspectTimers : (d.recordAck l id).1.suspectTimers.lookup k
    = if k = id then none else d.suspectTimers.lookup k :=
  HashMap.lookup_erase_if d.suspectTimers id k

theorem recordAck_get : (d.recordAck l id).2.get k
    = if k = id then (l.get k).map restore else l.get k :=
  l.get_modify id k restore

theorem recordNack_cases :
    ((d.recordNack l id config now).2 = l ∧
      (d.recordNack l id config now).1.suspectTimers = d.suspectTimers) ∨
    (∃ m, l.get id = some m ∧ m.state = .alive ∧
      (d.recordNack l id config now).2 = (l.modify id fun m => m.suspect m.incarnation) ∧
      (d.recordNack l id config now).1.suspectTimers = orInsert d.suspectTimers id now) := by
  unfold recordNack
  dsimp only
  split
  · exact Or.inl ⟨rfl, rfl⟩
  · cases hm : l.get id with
    | none => exact Or.inl ⟨rfl, rfl⟩
    | some m =>
      dsimp only
      by_cases hs : m.state = .alive
      · rw [if_pos hs]
        exact Or.inr ⟨m, rfl, hs, rfl, rfl⟩
      · rw [if_neg hs]
        exact Or.inl ⟨rfl, rfl⟩

theorem mem_expired (o : Order NodeId) (timers : HashMap NodeId Instant) (delay : Duration) :
    id ∈ expired o timers delay now ↔ ∃ t, timers.lookup id = some t ∧ delay ≤ now - t := by
  unfold expired
  rw [List.mem_filter, HashMap.mem_keysIn]
  constructor
  · intro h
    obtain ⟨⟨t, ht⟩, hd⟩ := h
    rw [ht] at hd
    exact ⟨t, ht, of_decide_eq_true hd⟩
  · intro h
    obtain ⟨t, ht, hd⟩ := h
    refine ⟨⟨t, ht⟩, ?_⟩
    rw [ht]
    exact decide_eq_true hd

theorem declare_get (s : FailureDetector × MembershipList) :
    (declare now s id).2.get k
      = if k = id then (s.2.get k).map fun m => m.dead m.incarnation else s.2.get k := by
  show (s.2.modify id _).get k = _
  rw [MembershipList.get_modify]
  by_cases h : k = id
  · rw [if_pos h, if_pos h, h]
    cases s.2.get id with
    | none => rfl
    | some m => rfl
  · rw [if_neg h, if_neg h]

theorem declareAll_selfId (ids : List NodeId) (s : FailureDetector × MembershipList) :
    (ids.foldl (declare now) s).2.selfId = s.2.selfId := by
  induction ids generalizing s with
  | nil => rfl
  | cons id ids ih => exact ih _

theorem removeAll_selfId (ids : List NodeId) :
    (ids.foldl (fun l id => l.removeNode id) l).selfId = l.selfId := by
  induction ids generalizing l with
  | nil => rfl
  | cons id ids ih => exact ih _

theorem declareAll_selfIncarnation (ids : List NodeId) (s : FailureDetector × MembershipList) :
    (ids.foldl (declare now) s).2.selfIncarnation = s.2.selfIncarnation := by
  induction ids generalizing s with
  | nil => rfl
  | cons id ids ih => exact ih _

theorem removeAll_selfIncarnation (ids : List NodeId) :
    (ids.foldl (fun l id => l.removeNode id) l).selfIncarnation = l.selfIncarnation := by
  induction ids generalizing l with
  | nil => rfl
  | cons id ids ih => exact ih _

theorem removeAll_get (ids : List NodeId) :
    (ids.foldl (fun l id => l.removeNode id) l).get k = if k ∈ ids then none else l.get k :=
  HashMap.foldl_erase_if MembershipList.get (fun l id => l.removeNode id)
    (fun l a k => l.get_removeNode a k) ids l k

end FailureDetector
end Rebar.Swim
