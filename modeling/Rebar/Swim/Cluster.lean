import Rebar.Swim.ServiceSpec

/-!
# A cluster of services

Services exchange the frames they produce over a network that keeps every frame for ever: a frame
can be delivered at any time, any number of times, or never.

* `Packet`          a frame on its way, with the node whose tick started its exchange and the packet
                    whose handling produced it;
* `Cluster`         the services, all packets sent so far, and the ones handled so far.
-/

namespace Rebar.Swim

structure Packet where
  src : NodeId
  out : Outgoing
  owner : NodeId
  cause : Option Nat
deriving DecidableEq

def Packet.dst (p : Packet) : NodeId := p.out.nodeId

def Packet.env (p : Packet) : Option SwimEnvelope := p.out.frame.decode

structure Cluster where
  services : NodeId → Option SwimService
  log : List Packet
  handled : List Nat

namespace Cluster

def set (cl : Cluster) (n : NodeId) (s : SwimService) : Cluster :=
  { cl with services := fun k => if k = n then some s else cl.services k }

def send (cl : Cluster) (src owner : NodeId) (cause : Option Nat) (outs : List Outgoing) :
    Cluster :=
  { cl with log := cl.log ++ outs.map fun out => ⟨src, out, owner, cause⟩ }

inductive Step where
  | addSeed (n nodeId : NodeId) (addr : SocketAddr)
  | tick (n : NodeId) (c : Choices) (now : Instant)
  | deliver (i : Nat) (c : Choices)

def afterTick (cl : Cluster) (n : NodeId) (c : Choices) (now : Instant) (s : SwimService) :
    Cluster :=
  (cl.set n (s.tick c now).1).send n n none (s.tick c now).2.outgoing

def afterDeliver (cl : Cluster) (i : Nat) (c : Choices) (p : Packet) (s : SwimService) : Cluster :=
  { (cl.set p.dst (s.handleFrame c p.out.frame).1).send p.dst p.owner (some i)
      (s.handleFrame c p.out.frame).2 with
    handled := cl.handled ++ [i] }

def next (cl : Cluster) : Step → Option Cluster
  | .addSeed n nodeId addr => (cl.services n).map fun s => cl.set n (s.addSeed nodeId addr)
  | .tick n c now => (cl.services n).map (cl.afterTick n c now)
  | .deliver i c => (cl.log[i]?).bind fun p => (cl.services p.dst).map (cl.afterDeliver i c p)

/-- **What a step of a cluster can be.** -/
theorem next_cases {cl cl' : Cluster} {a : Step} (h : cl.next a = some cl') :
    (∃ n id addr s, a = .addSeed n id addr ∧ cl.services n = some s ∧
      cl' = cl.set n (s.addSeed id addr)) ∨
    (∃ n c now s, a = .tick n c now ∧ cl.services n = some s ∧ cl' = cl.afterTick n c now s) ∨
    (∃ i c p s, a = .deliver i c ∧ cl.log[i]? = some p ∧ cl.services p.dst = some s ∧
      cl' = cl.afterDeliver i c p s) := by
  cases a with
  | addSeed n id addr =>
    obtain ⟨s, hs, rfl⟩ := Option.map_eq_some_iff.mp h
    exact Or.inl ⟨n, id, addr, s, rfl, hs, rfl⟩
  | tick n c now =>
    obtain ⟨s, hs, rfl⟩ := Option.map_eq_some_iff.mp h
    exact Or.inr (Or.inl ⟨n, c, now, s, rfl, hs, rfl⟩)
  | deliver i c =>
    obtain ⟨p, hp, h⟩ := Option.bind_eq_some_iff.mp h
    obtain ⟨s, hs, rfl⟩ := Option.map_eq_some_iff.mp h
    exact Or.inr (Or.inr ⟨i, c, p, s, rfl, hp, hs, rfl⟩)

/-! ## reading a cluster after a step -/

variable (cl : Cluster) (n : NodeId) (s : SwimService)

theorem set_services (k : NodeId) :
    (cl.set n s).services k = if k = n then some s else cl.services k := rfl

variable {cl n s} in
theorem set_cases {k : NodeId} {sk : SwimService} (h : (cl.set n s).services k = some sk) :
    k = n ∧ sk = s ∨ k ≠ n ∧ cl.services k = some sk := by
  rw [set_services] at h
  by_cases hk : k = n
  · rw [if_pos hk] at h
    exact Or.inl ⟨hk, (Option.some.inj h).symm⟩
  · rw [if_neg hk] at h
    exact Or.inr ⟨hk, h⟩

theorem getElem?_append_of_some {α : Type} {l l' : List α} {i : Nat} {a : α}
    (h : l[i]? = some a) : (l ++ l')[i]? = some a := by
  obtain ⟨hi, -⟩ := List.getElem?_eq_some_iff.mp h
  rw [List.getElem?_append_left hi, h]

end Cluster

def clusterMachine : Machine Cluster Cluster.Step where
  start cl := cl.log = [] ∧ cl.handled = [] ∧ ∀ n s, cl.services n = some s →
    ∃ addr config cert, s = SwimService.new n addr config cert
  next := Cluster.next

end Rebar.Swim
