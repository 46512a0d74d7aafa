import Rebar.Connection.Addresses

/-!
# Open connections that are dropped

`disconnect`, `attempt_reconnect` and `drain_connections` close what they take out of the map; `connect`
overwrites a live connection, and `on_connection_lost` removes one, without `close`.  With neither of them
called for a connected node, every connection obtained from the connector is in the map or was closed.

* `ConnectionManager.trades`     the connections that a call obtains and closes.
-/

namespace Rebar.Connection
open Machine
open Swim (NodeId SocketAddr)
open Transport (TransportError)

inductive Trade where
  | opened (conn : ConnId)
  | closed (conn : ConnId)
deriving DecidableEq

def obtained : Except TransportError ConnId → List Trade
  | .ok conn => [Trade.opened conn]
  | .error _ => []

namespace ConnectionManager

def trades (o : Order NodeId) (m : ConnectionManager) : Call → List Trade
  | .connect _ _ answer => obtained answer
  | .disconnect nodeId => (m.disconnect nodeId).2.1.map Trade.closed
  | .onNodeDiscovered nodeId _ answer => if m.isConnected nodeId then [] else obtained answer
  | .attemptReconnect nodeId answer =>
    (if nodeId ∈ m.addresses then obtained answer else []) ++
      (m.attemptReconnect nodeId answer).2.1.map Trade.closed
  | .drainConnections => (m.drainConnections o).2.1.map Trade.closed
  | .onConnectionLost _ | .reap _ | .drainEvents => []

/-- no connection is overwritten by `connect` or dropped by `on_connection_lost` -/
def tidy (m : ConnectionManager) : Call → Bool
  | .connect nodeId _ (.ok _) => !m.isConnected nodeId
  | .onConnectionLost nodeId => !m.isConnected nodeId
  | _ => true

def Holds (m : ConnectionManager) (conn : ConnId) : Prop := ∃ k, m.connections.lookup k = some conn

end ConnectionManager

def tradeMachine : Machine (ConnectionManager × List Trade) (Order NodeId × Call) :=
  connectionMachine.logged fun m call => m.trades call.1 call.2

variable {m : ConnectionManager} {o : Order NodeId} {nodeId : NodeId} {c : ConnId}

/-! ## what leaves the map -/

theorem erase_or_closed {connections : HashMap NodeId ConnId} {k : NodeId} (nodeId : NodeId)
    (h : connections.lookup k = some c) : (connections.erase nodeId).lookup k = some c ∨
      c ∈ (connections.lookup nodeId).toList := by
  by_cases hk : k = nodeId
  · right
    rw [← hk, h]
    simp
  · left
    rw [HashMap.lookup_erase_if, if_neg hk, h]

theorem insert_or_closed {connections : HashMap NodeId ConnId} {k : NodeId} (nodeId : NodeId)
    (conn : ConnId) (h : connections.lookup k = some c) :
    (connections.insert nodeId conn).lookup k = some c ∨ c ∈ (connections.lookup nodeId).toList := by
  by_cases hk : k = nodeId
  · right
    rw [← hk, h]
    simp
  · left
    rw [HashMap.lookup_insert_if, if_neg hk, h]

theorem closed_of_drain (o : Order NodeId) (h : m.Holds c) : c ∈ (m.drainConnections o).2.1 := by
  -- the loop closes the connection of every key that it visits
  have hloop : ∀ (ids : List NodeId) (drained : HashMap NodeId ConnId × List ConnId) (k : NodeId),
      (c ∈ drained.2 ∨ k ∈ ids ∧ drained.1.lookup k = some c) →
      c ∈ (ids.foldl (fun drained id =>
        (drained.1.erase id, drained.2 ++ (drained.1.lookup id).toList)) drained).2 := by
    intro ids
    induction ids with
    | nil => simp
    | cons id ids ih =>
      intro drained k hk
      apply ih _ k
      rcases hk with hk | ⟨hmem, hk⟩
      · exact Or.inl (List.mem_append_left _ hk)
      · rcases erase_or_closed id hk with hstays | hcloses
        · have hne : k ≠ id := (HashMap.of_lookup_erase hstays).1
          exact Or.inr ⟨(List.mem_cons.mp hmem).resolve_left hne, hstays⟩
        · exact Or.inl (List.mem_append_right _ hcloses)
  obtain ⟨k, hk⟩ := h
  exact hloop _ _ k (Or.inr ⟨(HashMap.mem_keysIn _ _ _).mpr ⟨c, hk⟩, hk⟩)

/-! ## one call -/

theorem not_connected (h : m.isConnected nodeId = false) : m.connections.lookup nodeId = none := by
  simpa [ConnectionManager.isConnected] using h

theorem connect_holds (addr : SocketAddr) (answer : Except TransportError ConnId)
    (hfree : ∀ conn, answer = .ok conn → m.isConnected nodeId = false)
    (h : m.Holds c ∨ Trade.opened c ∈ obtained answer) :
    (m.connect nodeId addr answer).1.Holds c := by
  cases answer with
  | error e => exact h.resolve_right (by simp [obtained])
  | ok conn =>
    rcases h with ⟨k, hk⟩ | hnew
    · refine ⟨k, (insert_or_closed nodeId conn hk).resolve_right ?_⟩
      simp [not_connected (hfree conn rfl)]
    · refine ⟨nodeId, (AList.lookup_insert _).trans ?_⟩
      simp_all [obtained]

theorem attemptReconnect_holds (answer : Except TransportError ConnId)
    (h : m.Holds c ∨ Trade.opened c ∈ if nodeId ∈ m.addresses then obtained answer else []) :
    (m.attemptReconnect nodeId answer).1.Holds c ∨ c ∈ (m.attemptReconnect nodeId answer).2.1 := by
  unfold ConnectionManager.attemptReconnect
  cases haddr : m.addresses.lookup nodeId with
  | none =>
    have hout : nodeId ∉ m.addresses := AList.lookup_eq_none.mp haddr
    exact Or.inl (h.resolve_right (by simp [hout]))
  | some addr =>
    cases answer with
    | error e =>
      left
      rcases h with ⟨k, hk⟩ | hnew
      · refine ⟨k, ?_⟩
        unfold ConnectionManager.failReconnect
        dsimp only
        split
        · exact hk
        · exact hk
      · simp [obtained] at hnew
    | ok conn =>
      rcases h with ⟨k, hk⟩ | hnew
      · exact (insert_or_closed nodeId conn hk).imp (fun hk => ⟨k, hk⟩) fun hc => hc
      · refine Or.inl ⟨nodeId, (AList.lookup_insert _).trans ?_⟩
        split at hnew
        · simp_all [obtained]
        · cases hnew

/-- a connection that is held before a tidy call, or obtained by it, is held after it or closed -/
theorem after_holds {call : Call} (htidy : m.tidy call = true)
    (h : m.Holds c ∨ Trade.opened c ∈ m.trades o call) :
    (m.after o call).Holds c ∨ Trade.closed c ∈ m.trades o call := by
  cases call with
  | connect nodeId addr answer =>
    refine Or.inl (connect_holds addr answer (fun conn hok => ?_) h)
    subst hok
    simpa [ConnectionManager.tidy] using htidy
  | disconnect nodeId =>
    obtain ⟨k, hk⟩ := h.resolve_right (by simp [ConnectionManager.trades])
    exact (erase_or_closed nodeId hk).imp (fun hk => ⟨k, hk⟩) List.mem_map_of_mem
  | onNodeDiscovered nodeId addr answer =>
    left
    show (m.onNodeDiscovered nodeId addr answer).1.Holds c
    unfold ConnectionManager.onNodeDiscovered
    simp only [ConnectionManager.trades] at h
    split
    next hin => exact h.resolve_right (by simp [hin])
    next hout =>
      rw [if_neg hout] at h
      exact connect_holds addr answer (fun _ _ => Bool.not_eq_true _ ▸ hout) h
  | onConnectionLost nodeId =>
    obtain ⟨k, hk⟩ := h.resolve_right (by simp [ConnectionManager.trades])
    have hfree : m.isConnected nodeId = false := by simpa [ConnectionManager.tidy] using htidy
    have hstays := (erase_or_closed nodeId hk).resolve_right (by simp [not_connected hfree])
    refine Or.inl ⟨k, ?_⟩
    show (m.onConnectionLost nodeId).1.connections.lookup k = _
    unfold ConnectionManager.onConnectionLost
    dsimp only
    split
    · exact hstays
    · exact hstays
  | attemptReconnect nodeId answer =>
    refine (attemptReconnect_holds answer (h.imp_right fun hnew => ?_)).imp_right fun hc => ?_
    · simpa [ConnectionManager.trades] using hnew
    · exact List.mem_append_right _ (List.mem_map_of_mem hc)
  | reap stale =>
    obtain ⟨k, hk⟩ := h.resolve_right (by simp [ConnectionManager.trades])
    exact Or.inl ⟨k, (congrArg (·.lookup k) (m.reap_keeps o stale).1).trans hk⟩
  | drainConnections =>
    exact Or.inr (List.mem_map_of_mem (closed_of_drain o (h.resolve_right (by
      simp [ConnectionManager.trades]))))
  | drainEvents => exact Or.inl (h.resolve_right (by simp [ConnectionManager.trades]))

/-! ## whole runs -/

/-- **Every connection obtained from the connector is in the map or was closed, as long as neither
`connect` nor `on_connection_lost` is called for a node that is connected.** -/
theorem held_or_closed (m : ConnectionManager) (log : List Trade)
    (h : tradeMachine.Reach (fun s call => s.1.tidy call.2) (m, log)) (c : ConnId)
    (hc : Trade.opened c ∈ log) : m.Holds c ∨ Trade.closed c ∈ log := by
  refine h.inv_logged_of (I := fun m log => ∀ c, Trade.opened c ∈ log → m.Holds c ∨ Trade.closed c ∈ log)
    (fun _ _ => by simp) (fun m log call m' ih htidy hnext c hc => ?_) c hc
  cases hnext
  simp only [List.mem_append] at hc ⊢
  rcases hc with hc | hc
  · rcases ih c hc with hheld | hclosed
    · exact (after_holds htidy (Or.inl hheld)).imp_right Or.inr
    · exact Or.inr (Or.inl hclosed)
  · exact (after_holds htidy (Or.inr hc)).imp_right Or.inr

/-- a connection that a reconnect replaces is closed -/
theorem held_or_closed_replaced : ∃ (m : ConnectionManager) (log : List Trade),
    tradeMachine.Reach (fun s call => s.1.tidy call.2) (m, log) ∧ log.length = 3 ∧
    Trade.opened 10 ∈ log ∧ (m.Holds 10 ∨ Trade.closed 10 ∈ log) := by
  have hstart : tradeMachine.Reach (fun s call => s.1.tidy call.2) (ConnectionManager.new, []) :=
    .start ⟨⟨.default, rfl⟩, rfl⟩
  obtain ⟨s, hs, hlog⟩ := hstart.exists_checked
    [(.stored, .connect 1 ⟨7, 4001⟩ (.ok 10)), (.stored, .attemptReconnect 1 (.ok 11))]
    (p := fun s => s.2.length = 3 ∧ Trade.opened 10 ∈ s.2) (by decide)
  exact ⟨s.1, s.2, hs, hlog.1, hlog.2, held_or_closed s.1 s.2 hs 10 hlog.2⟩

/-- `connect` twice, and `on_connection_lost`: both connections are gone, and none was closed -/
theorem held_or_closed_dropped :
    (tradeMachine.run (.new, []) [(.stored, .connect 1 ⟨7, 4001⟩ (.ok 10)),
      (.stored, .connect 1 ⟨7, 4001⟩ (.ok 11)), (.stored, .onConnectionLost 1)]).map
        (fun s => (s.1.connections.keys, s.2)) =
      some ([], [Trade.opened 10, Trade.opened 11]) := by
  decide

end Rebar.Connection
