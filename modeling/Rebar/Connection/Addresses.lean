import Rebar.Connection.Manager

/-!
# Addresses of the connected nodes

A node with a live connection has a known address, so that a connection that is lost can be dialled again,
as long as `attempt_reconnect` does not give up on a node that is still connected.  A node with a reconnect
counter always has one.
-/

namespace Rebar.Connection
open Swim (NodeId SocketAddr)
open Transport (TransportError)

variable {m : ConnectionManager} {o : Order NodeId} {call : Call} {k nodeId : NodeId}

def ConnectionManager.hasAddress (m : ConnectionManager) (nodeId : NodeId) : Bool :=
  (m.addresses.lookup nodeId).isSome

def ConnectionManager.hasCounter (m : ConnectionManager) (nodeId : NodeId) : Bool :=
  (m.reconnectAttempts.lookup nodeId).isSome

def ConnectionManager.spares (m : ConnectionManager) : Call → Bool
  | .attemptReconnect nodeId (.error _) =>
    !(m.isConnected nodeId &&
      decide (m.reconnectPolicy.maxAttempts ≤ m.reconnectAttemptCount nodeId + 1))
  | _ => true

/-! ## reaping -/

namespace ConnectionManager

def reaped (o : Order NodeId) (m : ConnectionManager) (stale : List NodeId) : List NodeId :=
  (m.reap o stale).2

theorem mem_reaped {stale : List NodeId} (h : k ∈ m.reaped o stale) :
    k ∈ m.exhausted o ∨ m.isConnected k = false := by
  have hfold : ∀ (stale reaped : List NodeId), k ∈ stale.foldl (fun reaped id =>
      if !m.isConnected id && !reaped.contains id then reaped ++ [id] else reaped) reaped →
      k ∈ reaped ∨ m.isConnected k = false := by
    intro stale
    induction stale with
    | nil => exact fun reaped h => Or.inl h
    | cons id stale ih =>
      intro reaped h
      rw [List.foldl_cons] at h
      rcases ih _ h with hmem | hfree
      · split at hmem
        next hadd =>
          rcases List.mem_append.mp hmem with hmem | hmem
          · exact Or.inl hmem
          · rw [List.mem_singleton.mp hmem]
            exact Or.inr (Bool.not_eq_true' _ |>.mp (Bool.and_eq_true_iff.mp hadd).1)
        next => exact Or.inl hmem
      · exact Or.inr hfree
  exact hfold stale _ h

theorem lookup_exhausted (h : k ∈ m.exhausted o) :
    ∃ n, m.reconnectAttempts.lookup k = some n ∧ m.reconnectPolicy.maxAttempts ≤ n := by
  obtain ⟨hmem, hle⟩ := List.mem_filter.mp h
  obtain ⟨n, hn⟩ := (HashMap.mem_keysIn _ _ _).mp hmem
  have hle := of_decide_eq_true hle
  unfold reconnectAttemptCount at hle
  rw [hn] at hle
  exact ⟨n, hn, hle⟩

section
variable (o : Order NodeId) (m : ConnectionManager) (stale : List NodeId) (k : NodeId)

theorem lookup_reap_addresses : (m.reap o stale).1.addresses.lookup k =
    if k ∈ m.reaped o stale then none else m.addresses.lookup k :=
  HashMap.foldl_erase_if (fun m k => m.addresses.lookup k) _
    (fun m a k => HashMap.lookup_erase_if m.addresses a k) _ m k

theorem lookup_reap_attempts : (m.reap o stale).1.reconnectAttempts.lookup k =
    if k ∈ m.reaped o stale then none else m.reconnectAttempts.lookup k :=
  HashMap.foldl_erase_if (fun m k => m.reconnectAttempts.lookup k) _
    (fun m a k => HashMap.lookup_erase_if m.reconnectAttempts a k) _ m k

theorem reap_keeps : (m.reap o stale).1.connections = m.connections ∧
    (m.reap o stale).1.reconnectPolicy = m.reconnectPolicy := by
  show (List.foldl _ m (m.reaped o stale)).connections = _ ∧
    (List.foldl _ m (m.reaped o stale)).reconnectPolicy = _
  generalize m.reaped o stale = reaped
  induction reaped generalizing m with
  | nil => exact ⟨rfl, rfl⟩
  | cons id reaped ih => exact ih _

end

end ConnectionManager

/-! ## what a call can do -/

inductive Changes (o : Order NodeId) (m : ConnectionManager) : Call → ConnectionManager → Prop where
  | same {call : Call} : Changes o m call m
  | connected {call : Call} {nodeId : NodeId} {addr : SocketAddr} {conn : ConnId} :
      Changes o m call { m with
        connections := m.connections.insert nodeId conn
        addresses := m.addresses.insert nodeId addr
        reconnectAttempts := m.reconnectAttempts.erase nodeId }
  | disconnected {nodeId : NodeId} :
      Changes o m (.disconnect nodeId) { m with
        connections := m.connections.erase nodeId
        addresses := m.addresses.erase nodeId
        reconnectAttempts := m.reconnectAttempts.erase nodeId }
  | lost {nodeId : NodeId} : m.hasAddress nodeId = true →
      Changes o m (.onConnectionLost nodeId) { m with
        connections := m.connections.erase nodeId
        reconnectAttempts := m.reconnectAttempts.insert nodeId 0 }
  | lostForGood {nodeId : NodeId} : m.hasAddress nodeId = false →
      Changes o m (.onConnectionLost nodeId) { m with connections := m.connections.erase nodeId }
  | reconnected {nodeId : NodeId} {conn : ConnId} : m.hasAddress nodeId = true →
      Changes o m (.attemptReconnect nodeId (.ok conn)) { m with
        connections := m.connections.insert nodeId conn
        reconnectAttempts := m.reconnectAttempts.erase nodeId }
  | failed {nodeId : NodeId} {e : TransportError} : m.hasAddress nodeId = true →
      m.reconnectAttemptCount nodeId + 1 < m.reconnectPolicy.maxAttempts →
      Changes o m (.attemptReconnect nodeId (.error e)) { m with
        reconnectAttempts := m.reconnectAttempts.insert nodeId (m.reconnectAttemptCount nodeId + 1) }
  | gaveUp {nodeId : NodeId} {e : TransportError} : m.hasAddress nodeId = true →
      m.reconnectPolicy.maxAttempts ≤ m.reconnectAttemptCount nodeId + 1 →
      Changes o m (.attemptReconnect nodeId (.error e)) { m with
        addresses := m.addresses.erase nodeId
        reconnectAttempts := m.reconnectAttempts.erase nodeId }
  | reaped {stale : List NodeId} : Changes o m (.reap stale) (m.reap o stale).1
  | drained : Changes o m .drainConnections (m.drainConnections o).1
  | drainedEvents : Changes o m .drainEvents m.drainEvents.1

theorem mem_addresses_iff : nodeId ∈ m.addresses ↔ m.hasAddress nodeId = true :=
  AList.lookup_isSome.symm

theorem connect_changes (nodeId : NodeId) (addr : SocketAddr) (answer : Except TransportError ConnId)
    (call : Call) : Changes o m call (m.connect nodeId addr answer).1 := by
  cases answer with
  | error e => exact .same
  | ok conn => exact .connected

theorem attemptReconnect_changes (nodeId : NodeId) (answer : Except TransportError ConnId) :
    Changes o m (.attemptReconnect nodeId answer) (m.attemptReconnect nodeId answer).1 := by
  unfold ConnectionManager.attemptReconnect
  split
  next => exact .same
  next addr hlookup =>
    have haddr : m.hasAddress nodeId = true := by
      unfold ConnectionManager.hasAddress
      rw [hlookup]
      rfl
    cases answer with
    | ok conn => exact .reconnected haddr
    | error e =>
      unfold ConnectionManager.failReconnect
      dsimp only
      split
      next hle => exact .gaveUp haddr hle
      next hless => exact .failed haddr (UInt32.not_le.mp hless)

theorem after_changes (o : Order NodeId) (m : ConnectionManager) (call : Call) :
    Changes o m call (m.after o call) := by
  cases call with
  | connect nodeId addr answer => exact connect_changes nodeId addr answer _
  | disconnect nodeId => exact .disconnected
  | onNodeDiscovered nodeId addr answer =>
    unfold ConnectionManager.after ConnectionManager.onNodeDiscovered
    dsimp only
    split
    · exact .same
    · exact connect_changes nodeId addr answer _
  | onConnectionLost nodeId =>
    unfold ConnectionManager.after ConnectionManager.onConnectionLost
    dsimp only
    split
    next haddr => exact .lost (mem_addresses_iff.mp haddr)
    next haddr =>
      exact .lostForGood (Bool.eq_false_iff.mpr fun htrue => haddr (mem_addresses_iff.mpr htrue))
  | attemptReconnect nodeId answer => exact attemptReconnect_changes nodeId answer
  | reap stale => exact .reaped
  | drainConnections => exact .drained
  | drainEvents => exact .drainedEvents

/-! ## the invariants -/

def Counted (m : ConnectionManager) : Prop := ∀ k, m.hasCounter k = true → m.hasAddress k = true

structure Dialable (m : ConnectionManager) : Prop where
  connected : ∀ k, m.isConnected k = true → m.hasAddress k = true
  /-- a connected node has not used up its budget -/
  budget : ∀ k n, m.isConnected k = true → m.reconnectAttempts.lookup k = some n →
    n < m.reconnectPolicy.maxAttempts

theorem Counted.step {m' : ConnectionManager} (h : Counted m) (hs : Changes o m call m') :
    Counted m' := by
  intro k hcounter
  have hk : k ∈ m.reconnectAttempts → k ∈ m.addresses := fun hc =>
    AList.lookup_isSome.mp (h k (AList.lookup_isSome.mpr hc))
  replace hcounter : k ∈ m'.reconnectAttempts := AList.lookup_isSome.mp hcounter
  rw [← mem_addresses_iff]
  cases hs with
  | same | drainedEvents | lostForGood => exact hk hcounter
  | connected => exact (AList.mem_insert _).mpr (Or.inr (hk (AList.mem_erase.mp hcounter).2))
  | disconnected | gaveUp => exact AList.mem_erase.mpr ((AList.mem_erase.mp hcounter).imp_right hk)
  | lost haddr | failed haddr =>
    rcases (AList.mem_insert _).mp hcounter with rfl | hcounter
    · exact mem_addresses_iff.mpr haddr
    · exact hk hcounter
  | reconnected => exact hk (AList.mem_erase.mp hcounter).2
  | reaped =>
    rw [← AList.lookup_isSome, ConnectionManager.lookup_reap_attempts] at hcounter
    rw [← AList.lookup_isSome, ConnectionManager.lookup_reap_addresses]
    split at hcounter
    · cases hcounter
    next hkept =>
      rw [if_neg hkept]
      exact h k hcounter
  | drained => exact absurd hcounter (AList.notMem_empty k)

theorem isConnected_drained (o : Order NodeId) (m : ConnectionManager) (k : NodeId) :
    (m.drainConnections o).1.isConnected k = false := by
  have hlookup : (m.drainConnections o).1.connections.lookup k =
      if k ∈ HashMap.keysIn m.connections o then none else m.connections.lookup k :=
    HashMap.foldl_erase_if
      (fun (drained : HashMap NodeId ConnId × List ConnId) k => drained.1.lookup k) _
      (fun drained a k => HashMap.lookup_erase_if drained.1 a k) _ (m.connections, []) k
  unfold ConnectionManager.isConnected
  rw [hlookup]
  split
  next => rfl
  next hfree =>
    cases hconn : m.connections.lookup k with
    | none => rfl
    | some conn => exact absurd ((HashMap.mem_keysIn _ _ _).mpr ⟨conn, hconn⟩) hfree

theorem Dialable.not_reaped (h : Dialable m) (stale : List NodeId) (hk : m.isConnected k = true) :
    k ∉ m.reaped o stale := by
  intro hreaped
  rcases ConnectionManager.mem_reaped hreaped with hexhausted | hfree
  · obtain ⟨n, hn, hle⟩ := ConnectionManager.lookup_exhausted hexhausted
    exact absurd (h.budget k n hk hn) (UInt32.not_lt.mpr hle)
  · rw [hk] at hfree
    cases hfree

theorem Dialable.step_connected {m' : ConnectionManager} (h : Dialable m)
    (hok : m.spares call = true) (hs : Changes o m call m') (hk : m'.isConnected k = true) :
    m'.hasAddress k = true := by
  have hconnected : k ∈ m.connections → k ∈ m.addresses := fun hc =>
    AList.lookup_isSome.mp (h.connected k (AList.lookup_isSome.mpr hc))
  have hmem : k ∈ m'.connections := AList.lookup_isSome.mp hk
  rw [← mem_addresses_iff]
  cases hs with
  | same | drainedEvents | failed => exact hconnected hmem
  | connected => exact (AList.mem_insert _).mpr (((AList.mem_insert _).mp hmem).imp_right hconnected)
  | disconnected => exact AList.mem_erase.mpr ((AList.mem_erase.mp hmem).imp_right hconnected)
  | lost | lostForGood => exact hconnected (AList.mem_erase.mp hmem).2
  | reconnected haddr =>
    rcases (AList.mem_insert _).mp hmem with rfl | hmem
    · exact mem_addresses_iff.mpr haddr
    · exact hconnected hmem
  | gaveUp _ hle =>
    refine AList.mem_erase.mpr ⟨?_, hconnected hmem⟩
    rintro rfl
    -- the call gives up on a node that is connected
    have hlive : m.isConnected k = true := hk
    simp [ConnectionManager.spares, hlive, hle] at hok
  | reaped =>
    rw [(ConnectionManager.reap_keeps o m _).1] at hmem
    have hkept := h.not_reaped (o := o) ‹_› (AList.lookup_isSome.mpr hmem)
    rw [← AList.lookup_isSome, ConnectionManager.lookup_reap_addresses, if_neg hkept,
      AList.lookup_isSome]
    exact hconnected hmem
  | drained =>
    rw [isConnected_drained] at hk
    cases hk

theorem Dialable.step_budget {m' : ConnectionManager} {n : UInt32} (h : Dialable m)
    (hs : Changes o m call m') (hk : m'.isConnected k = true)
    (hn : m'.reconnectAttempts.lookup k = some n) : n < m'.reconnectPolicy.maxAttempts := by
  have hbudget : k ∈ m.connections → m.reconnectAttempts.lookup k = some n →
      n < m.reconnectPolicy.maxAttempts := fun hc => h.budget k n (AList.lookup_isSome.mpr hc)
  have hmem : k ∈ m'.connections := AList.lookup_isSome.mp hk
  cases hs with
  | same | drainedEvents => exact hbudget hmem hn
  | connected | reconnected =>
    obtain ⟨hne, hn⟩ := HashMap.of_lookup_erase hn
    exact hbudget (((AList.mem_insert _).mp hmem).resolve_left hne) hn
  | disconnected => exact hbudget (AList.mem_erase.mp hmem).2 (HashMap.of_lookup_erase hn).2
  | lost =>
    obtain ⟨hne, hmem⟩ := AList.mem_erase.mp hmem
    exact hbudget hmem ((HashMap.of_lookup_insert hn).resolve_left fun heq => hne heq.1).2
  | lostForGood => exact hbudget (AList.mem_erase.mp hmem).2 hn
  | failed _ hless =>
    rcases HashMap.of_lookup_insert hn with ⟨-, rfl⟩ | ⟨-, hn⟩
    · exact hless
    · exact hbudget hmem hn
  | gaveUp => exact hbudget hmem (HashMap.of_lookup_erase hn).2
  | reaped =>
    obtain ⟨hconnections, hpolicy⟩ := ConnectionManager.reap_keeps o m _
    rw [hconnections] at hmem
    rw [ConnectionManager.lookup_reap_attempts] at hn
    rw [hpolicy]
    split at hn
    · cases hn
    next => exact hbudget hmem hn
  | drained => cases hn

/-! ## every run -/

theorem counted_of_reach {ok : ConnectionManager → Order NodeId × Call → Prop}
    (h : connectionMachine.Reach ok m) : Counted m := by
  refine h.inv ?_ ?_
  · rintro m ⟨policy, rfl⟩
    exact nofun
  · intro m call m' h _ hnext
    cases hnext
    exact h.step (after_changes call.1 m call.2)

theorem dialable_of_reach (h : connectionMachine.Reach (fun m call => m.spares call.2 = true) m) :
    Dialable m := by
  refine h.inv ?_ ?_
  · rintro m ⟨policy, rfl⟩
    exact ⟨nofun, fun k n hk hn => (by cases hk)⟩
  · intro m call m' h hok hnext
    cases hnext
    have hs := after_changes call.1 m call.2
    exact ⟨fun k => h.step_connected hok hs, fun k n => h.step_budget hs⟩

theorem lost_triggers (haddr : m.hasAddress nodeId = true) :
    (m.onConnectionLost nodeId).2 = [.nodeDown nodeId, .reconnectTriggered nodeId] := by
  unfold ConnectionManager.onConnectionLost
  dsimp only
  rw [if_pos (mem_addresses_iff.mpr haddr)]

theorem lost_reconnects (haddr : m.hasAddress nodeId = true) (conn : ConnId) :
    ∃ m', (m.onConnectionLost nodeId).1.attemptReconnect nodeId (.ok conn) = (m', [], .ok 0) ∧
      m'.connections.lookup nodeId = some conn := by
  obtain ⟨addr, hlookup⟩ := Option.isSome_iff_exists.mp haddr
  unfold ConnectionManager.onConnectionLost
  dsimp only
  rw [if_pos (mem_addresses_iff.mpr haddr)]
  unfold ConnectionManager.attemptReconnect
  dsimp only
  -- the lost connection is not there any more, so none is closed
  rw [hlookup, AList.lookup_erase]
  exact ⟨_, rfl, AList.lookup_insert _⟩

/-- **Every node with a reconnect counter has a known address, in every run.  In a run in which
`attempt_reconnect` does not give up on a node that is connected, so has every node with a live connection,
and a connection that is lost triggers a reconnect, which succeeds as soon as the connector does.** -/
theorem connected_dialable (m : ConnectionManager) (nodeId : NodeId) :
    (connectionMachine.Reach Machine.Anytime m →
      m.hasCounter nodeId = true → m.hasAddress nodeId = true) ∧
    (connectionMachine.Reach (fun m call => m.spares call.2 = true) m →
      m.isConnected nodeId = true → m.hasAddress nodeId = true ∧
        (m.onConnectionLost nodeId).2 = [.nodeDown nodeId, .reconnectTriggered nodeId] ∧
        ∀ conn, ∃ m', (m.onConnectionLost nodeId).1.attemptReconnect nodeId (.ok conn) =
          (m', [], .ok 0) ∧ m'.connections.lookup nodeId = some conn) := by
  refine ⟨fun h => counted_of_reach h nodeId, fun h hlive => ?_⟩
  have haddr := (dialable_of_reach h).connected nodeId hlive
  exact ⟨haddr, lost_triggers haddr, lost_reconnects haddr⟩

private def harbour : SocketAddr := ⟨1, 4001⟩

private def impatient : ReconnectPolicy := ⟨1000000, 10000000, 1⟩

private def bumpy : List (Order NodeId × Call) :=
  [(Order.stored, .connect 1 harbour (.ok 0)), (Order.stored, .onConnectionLost 1),
    (Order.stored, .attemptReconnect 1 (.ok 1))]

theorem connected_dialable_bumpy :
    ∃ m, connectionMachine.Reach (fun m call => m.spares call.2 = true) m ∧
      m.isConnected 1 = true ∧ m.hasAddress 1 = true ∧
      (m.onConnectionLost 1).2 = [.nodeDown 1, .reconnectTriggered 1] := by
  have hstart : connectionMachine.Reach (fun m call => m.spares call.2 = true)
      (.withReconnectPolicy impatient) := .start ⟨impatient, rfl⟩
  obtain ⟨m, h, hlive⟩ := hstart.exists_checked bumpy (p := fun m => m.isConnected 1) (by decide)
  obtain ⟨haddr, hlost, -⟩ := (connected_dialable m 1).2 h hlive
  exact ⟨m, h, hlive, haddr, hlost⟩

/-- a reconnect is tried while the node is connected, and it fails -/
private def needless : List (Order NodeId × Call) :=
  [(Order.stored, .connect 1 harbour (.ok 0)),
    (Order.stored, .attemptReconnect 1 (.error .connectionClosed))]

/-- the manager gives up and forgets the address of a node that stays connected -/
theorem connected_dialable_needless :
    ∃ m, connectionMachine.Reach Machine.Anytime m ∧ m.isConnected 1 = true ∧
      m.hasAddress 1 = false ∧ (m.onConnectionLost 1).2 = [.nodeDown 1] := by
  have hstart : connectionMachine.Reach Machine.Anytime (.withReconnectPolicy impatient) :=
    .start ⟨impatient, rfl⟩
  exact hstart.exists_run needless (by decide)

end Rebar.Connection
