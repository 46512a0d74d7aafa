import Rebar.Swim.Member

/-!
# Rejoining with new data

An `Alive` that is taken sets the state and the incarnation of a member, and only the one that creates the
record sets its address and certificate hash as well.  A node that rejoins at a new address, or with a new
certificate, is recorded alive and is still dialled and verified with its old data.
-/

namespace Rebar.Swim
open Machine

namespace MembershipList

def takes (n : NodeId) (l : MembershipList) (u : GossipUpdate) : Bool :=
  decide ((l.applyUpdate u).1.get n ≠ l.get n)

end MembershipList

/-- the update that the record's state and incarnation come from, if it is an `Alive` -/
def origin (n : NodeId) (l : MembershipList) (source : Option GossipUpdate) (u : GossipUpdate) :
    Option GossipUpdate :=
  if l.takes n u then
    match u with
    | .alive .. => some u
    | _ => none
  else source

/-- any list of another node, whose record of `n` may come from anywhere -/
def rejoinMachine (n : NodeId) : Machine (MembershipList × Option GossipUpdate) GossipUpdate where
  start s := s.1.selfId ≠ some n ∧ s.2 = none
  next s u := some ((s.1.applyUpdate u).1, origin n s.1 s.2 u)

/-- an `Alive` that is taken for a known node carries the address and the hash that are recorded -/
def unmoved (n : NodeId) (s : MembershipList × Option GossipUpdate) (u : GossipUpdate) : Bool :=
  match u, s.1.get n with
  | .alive _ addr _ cert, some m => s.1.takes n u → addr = m.addr ∧ cert = m.certHash
  | _, _ => true

/-- the `Alive` and the record agree -/
structure Sourced (n : NodeId) (s : MembershipList × Option GossipUpdate) : Prop where
  other : s.1.selfId ≠ some n
  agrees : ∀ u, s.2 = some u → ∃ m, s.1.get n = some m ∧ m.state = .alive ∧
    u = .alive n m.addr m.incarnation m.certHash

variable {n : NodeId} {s : MembershipList × Option GossipUpdate} {u : GossipUpdate}

/-- an `Alive` that changes a record sets its state and incarnation, and nothing else -/
theorem Member.alive_of_ne {m : Member} {i : UInt64} (h : m.alive i ≠ m) :
    m.alive i = { m with state := .alive, incarnation := i } := by
  unfold Member.alive at h ⊢
  split
  next hfar => simp [hfar] at h
  next hnear =>
    split
    next => rfl
    next hold => simp [hnear, hold] at h

theorem Sourced.next (h : Sourced n s) (hu : unmoved n s u = true) :
    Sourced n ((s.1.applyUpdate u).1, origin n s.1 s.2 u) := by
  refine ⟨by rw [MembershipList.applyUpdate_selfId]; exact h.other, fun v hv => ?_⟩
  unfold origin at hv
  split at hv
  next htakes =>
    have hne := of_decide_eq_true htakes
    have hn : n = u.nodeId := by
      by_contra hother
      exact hne (s.1.get_applyUpdate_of_ne u hother)
    have hget : (s.1.applyUpdate u).1.get n = u.merge (s.1.get n) := by
      rw [MembershipList.get_applyUpdate (hn ▸ h.other), if_pos hn]
    rw [hget] at hne ⊢
    cases u with
    | suspect | dead | leave => cases hv
    | alive id addr i cert =>
      cases hv
      obtain rfl : n = id := hn
      cases hm : s.1.get n with
      | none => exact ⟨_, rfl, rfl, rfl⟩
      | some m =>
        rw [hm] at hne
        unfold unmoved at hu
        rw [hm] at hu
        obtain ⟨rfl, rfl⟩ := of_decide_eq_true hu htakes
        have hset := Member.alive_of_ne fun he => hne (congrArg some he)
        exact ⟨_, congrArg some hset, rfl, rfl⟩
  next hkeeps =>
    have hsame := of_decide_eq_false (Bool.not_eq_true _ ▸ hkeeps)
    rw [Decidable.not_not.mp hsame]
    exact h.agrees v hv

/-- **A record that comes from an accepted `Alive` has the address and the certificate hash of that
`Alive`, as long as no node that is known announces new ones.** -/
theorem alive_recorded (n : NodeId) (s : MembershipList × Option GossipUpdate)
    (h : (rejoinMachine n).Reach (fun s u => unmoved n s u) s) (u : GossipUpdate) (hu : s.2 = some u) :
    ∃ m, s.1.get n = some m ∧ m.state = .alive ∧ u = .alive n m.addr m.incarnation m.certHash := by
  refine (h.inv (I := Sourced n) (fun s hs => ?_) fun s u t hi hu ht => ?_).agrees u hu
  · refine ⟨hs.1, fun v hv => ?_⟩
    rw [hs.2] at hv
    cases hv
  · cases ht
    exact hi.next hu

/-- a member that is suspected and refutes, at the address it had -/
theorem alive_recorded_refuted : ∃ s, (rejoinMachine 1).Reach (fun s u => unmoved 1 s u) s ∧
    s.2 = some (.alive 1 ⟨7, 4001⟩ 2 none) ∧ ∃ m, s.1.get 1 = some m ∧ m.state = .alive ∧
      GossipUpdate.alive 1 ⟨7, 4001⟩ 2 none = .alive 1 m.addr m.incarnation m.certHash := by
  have hstart : (rejoinMachine 1).Reach (fun s u => unmoved 1 s u) (MembershipList.new, none) :=
    .start ⟨nofun, rfl⟩
  obtain ⟨s, hs, hu⟩ := hstart.exists_checked
    [.alive 1 ⟨7, 4001⟩ 1 none, .suspect 1 ⟨7, 4001⟩ 1, .alive 1 ⟨7, 4001⟩ 2 none]
    (p := fun s => s.2 = some (.alive 1 ⟨7, 4001⟩ 2 none)) (by decide)
  exact ⟨s, hs, hu, alive_recorded 1 s hs _ hu⟩

/-- node 1 rejoins with incarnation 2, at port 4002 and with a certificate: it is recorded alive with
incarnation 2, at port 4001 and without one -/
theorem alive_recorded_moved :
    ((rejoinMachine 1).run (MembershipList.new, none)
      [.alive 1 ⟨7, 4001⟩ 1 none, .alive 1 ⟨7, 4002⟩ 2 (some 5)]).map
        (fun s => (s.2, s.1.get 1)) =
      some (some (.alive 1 ⟨7, 4002⟩ 2 (some 5)), some ⟨1, ⟨7, 4001⟩, .alive, 2, none⟩) := by
  decide

end Rebar.Swim
