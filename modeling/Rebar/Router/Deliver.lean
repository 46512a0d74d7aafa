import Rebar.Process.Mailbox
import Rebar.Protocol.Frame

/-!
# Messages between nodes

The model of `router.rs` of the cluster: a message to another node is encoded as a frame, and an
inbound frame is delivered to a local process.
-/

namespace Rebar.Router
open Protocol

inductive RouterCommand where
  | send (nodeId : Nat) (frame : Frame)

structure DistributedRouter where
  nodeId : Nat
  table : Processes
  remoteTx : Channel RouterCommand

def encodeSendFrame (sender dest : ProcessId) (payload : Value) : Frame where
  version := 1
  msgType := .send
  requestId := 0
  header := .map [
    (.string (.ok "from_node"), .integer sender.nodeId),
    (.string (.ok "from_local"), .integer sender.localId),
    (.string (.ok "to_node"), .integer dest.nodeId),
    (.string (.ok "to_local"), .integer dest.localId)]
  payload

/-- `route` at the time `now` -/
def DistributedRouter.route (r : DistributedRouter) (now : Nat) (sender dest : ProcessId)
    (payload : Value) : DistributedRouter × Except SendError Unit :=
  if dest.nodeId = r.nodeId then
    let sent := r.table.send dest (.new now sender payload)
    ({ r with table := sent.1 }, sent.2)
  else
    match r.remoteTx.trySend (.send dest.nodeId (encodeSendFrame sender dest payload)) with
    | .ok remoteTx => ({ r with remoteTx }, .ok ())
    | .error _ => (r, .error (.nodeUnreachable dest.nodeId))

inductive DeliverError where
  | malformed (text : String)
  | send (e : SendError)
deriving DecidableEq

structure Address where
  fromNode : UInt64
  fromLocal : UInt64
  toNode : UInt64
  toLocal : UInt64

def Address.slot (key : String) : Option (Address → UInt64 → Address) :=
  match key with
  | "from_node" => some fun a n => { a with fromNode := n }
  | "from_local" => some fun a n => { a with fromLocal := n }
  | "to_node" => some fun a n => { a with toNode := n }
  | "to_local" => some fun a n => { a with toLocal := n }
  | _ => none

def address (a : Address) : List (Value × Value) → Except DeliverError Address
  | [] => .ok a
  | (key, value) :: header =>
    match key.asStr.bind Address.slot with
    | none => address a header
    | some set =>
      match value.asU64 with
      | none => .error (.malformed "addressing field is not a u64")
      | some n => address (set a n) header

def deliverInboundFrame (now : Nat) (table : Processes) (frame : Frame) :
    Processes × Except DeliverError Unit :=
  match frame.header.asMap with
  | none => (table, .error (.malformed "header is not a map"))
  | some header =>
    match address ⟨0, 0, 0, 0⟩ header with
    | .error e => (table, .error e)
    | .ok a =>
      let sent := table.send (.new a.toNode a.toLocal)
        (.new now (.new a.fromNode a.fromLocal) frame.payload)
      (sent.1, sent.2.mapError .send)

variable {codec : Msgpack} {bytes : List UInt8}

/-! ## the way through the header -/

theorem asU64_toNat (n : UInt64) : (Value.integer n.toNat).asU64 = some n := by
  rw [Value.asU64, if_pos ⟨Int.natCast_nonneg _, n.toNat_lt_size⟩, Int.toNat_natCast,
    UInt64.ofNat_toNat]

theorem address_encodeSendFrame (fromNode fromLocal toNode toLocal : UInt64) (payload : Value) :
    ∃ header, (encodeSendFrame (.new fromNode fromLocal) (.new toNode toLocal) payload).header.asMap
        = some header ∧
      address ⟨0, 0, 0, 0⟩ header = .ok ⟨fromNode, fromLocal, toNode, toLocal⟩ := by
  refine ⟨_, rfl, ?_⟩
  simp [address, Value.asStr, Address.slot, ProcessId.new, asU64_toNat]

theorem deliver_encodeSendFrame (now : Nat) (table : Processes)
    (fromNode fromLocal toNode toLocal : UInt64) (payload : Value) :
    deliverInboundFrame now table
        (encodeSendFrame (.new fromNode fromLocal) (.new toNode toLocal) payload)
      = ((table.send (.new toNode toLocal) (.new now (.new fromNode fromLocal) payload)).1,
        (table.send (.new toNode toLocal)
          (.new now (.new fromNode fromLocal) payload)).2.mapError .send) := by
  obtain ⟨header, hheader, haddress⟩ :=
    address_encodeSendFrame fromNode fromLocal toNode toLocal payload
  rw [deliverInboundFrame, hheader]
  dsimp only
  rw [haddress]
  rfl

/-- **A message routed to another node has there the effect of a local send.**  Routing queues one
frame for that node.  Whatever the frame is encoded as, if it is within the maximum size, it is
decoded and delivered with the effect and the result of a local send of the same message.  Where the
process lives and its mailbox is open and has room, exactly this message is queued there; otherwise
an error is reported and nothing changes. -/
theorem remote_eq_local (hcodec : codec.Inverse) (now : Nat)
    (fromNode fromLocal toNode toLocal : UInt64) (payload : Value)
    {r r' : DistributedRouter} (hnode : r.nodeId ≠ toNode.toNat)
    (hroute : r.route now (.new fromNode fromLocal) (.new toNode toLocal) payload = (r', .ok ())) :
    ∃ frame, r' = { r with remoteTx.queue := r.remoteTx.queue ++ [.send toNode.toNat frame] } ∧
      ∀ bytes, frame.encode codec = some bytes → bytes.length ≤ maxFrameSize →
      ∃ inbound, Frame.decode codec bytes = .ok inbound ∧ ∀ later table,
        let msg := Message.new later (.new fromNode fromLocal) payload
        let sent := Processes.send table (.new toNode toLocal) msg
        deliverInboundFrame later table inbound = (sent.1, sent.2.mapError .send) ∧
        ((∃ box, table.lookup (.new toNode toLocal) = some box ∧ box.Accepts ∧
            sent = (table.insert (.new toNode toLocal) { box with queue := box.queue ++ [msg] },
              .ok ())) ∨
          ((∀ box, table.lookup (.new toNode toLocal) = some box → ¬ box.Accepts) ∧
            ∃ e, sent = (table, .error e))) := by
  refine ⟨encodeSendFrame (.new fromNode fromLocal) (.new toNode toLocal) payload, ?_,
    fun bytes hencode hsize => ⟨_, decode_encode hcodec hencode hsize, fun later table => ⟨?_, ?_⟩⟩⟩
  · rw [DistributedRouter.route, if_neg (fun heq => hnode heq.symm)] at hroute
    rcases Channel.trySend_eq r.remoteTx (.send (ProcessId.new toNode toLocal).nodeId
      (encodeSendFrame (.new fromNode fromLocal) (.new toNode toLocal) payload))
      with ⟨-, hsend⟩ | ⟨-, e, hsend⟩
    · rw [hsend] at hroute
      cases hroute
      rfl
    · rw [hsend] at hroute
      cases hroute
  · exact deliver_encodeSendFrame later table fromNode fromLocal toNode toLocal payload
  · exact send_eq table _ _

/-- the msgpack bytes of the header of a message from process 5 of node 1 to process 10 of node 2 -/
private def addressed : List UInt8 :=
  [0x84, 0xa9, 0x66, 0x72, 0x6f, 0x6d, 0x5f, 0x6e, 0x6f, 0x64, 0x65, 0x01,
    0xaa, 0x66, 0x72, 0x6f, 0x6d, 0x5f, 0x6c, 0x6f, 0x63, 0x61, 0x6c, 0x05,
    0xa7, 0x74, 0x6f, 0x5f, 0x6e, 0x6f, 0x64, 0x65, 0x02,
    0xa8, 0x74, 0x6f, 0x5f, 0x6c, 0x6f, 0x63, 0x61, 0x6c, 0x0a]

private def writeAddressed : Value → Except String (List UInt8)
  | .nil => .ok [0xc0]
  | .map [(.string (.ok "from_node"), .integer 1), (.string (.ok "from_local"), .integer 5),
      (.string (.ok "to_node"), .integer 2), (.string (.ok "to_local"), .integer 10)] =>
    .ok addressed
  | _ => .error "unsupported"

private def lettered : Msgpack where
  write := writeAddressed
  read := fun bytes =>
    if bytes = [0xc0] then .ok .nil
    else if bytes = addressed then .ok (encodeSendFrame (.new 1 5) (.new 2 10) .nil).header
    else .error "unsupported"

private theorem lettered_inverse : lettered.Inverse := by
  intro v bytes h
  replace h : writeAddressed v = .ok bytes := h
  unfold writeAddressed at h
  split at h
  next =>
    cases h
    rfl
  next =>
    cases h
    rfl
  next => cases h

private def roomy : Mailbox := ⟨some 1, false, []⟩

theorem remote_eq_local_nil : ∃ (codec : Msgpack) (r r' : DistributedRouter), codec.Inverse ∧
    r.nodeId ≠ (2 : UInt64).toNat ∧ r.route 0 (.new 1 5) (.new 2 10) .nil = (r', .ok ()) ∧
    ∃ frame bytes inbound, r'.remoteTx.queue = [.send 2 frame] ∧
      frame.encode codec = some bytes ∧ bytes.length ≤ maxFrameSize ∧
      Frame.decode codec bytes = .ok inbound ∧
      -- a live process whose open mailbox has room gets the message
      deliverInboundFrame 3 (AList.insert (.new 2 10) roomy ∅) inbound
        = (AList.insert (.new 2 10) ⟨some 1, false, [.new 3 (.new 1 5) .nil]⟩
            (AList.insert (.new 2 10) roomy ∅), .ok ()) := by
  let r : DistributedRouter := ⟨1, ∅, ⟨some 1, false, []⟩⟩
  let frame := encodeSendFrame (.new 1 5) (.new 2 10) .nil
  let r' : DistributedRouter := ⟨1, ∅, ⟨some 1, false, [.send 2 frame]⟩⟩
  have hnode : r.nodeId ≠ (2 : UInt64).toNat := by decide
  have hroute : r.route 0 (.new 1 5) (.new 2 10) .nil = (r', .ok ()) := rfl
  obtain ⟨queued, hqueued, hsame⟩ :=
    remote_eq_local lettered_inverse 0 1 5 2 10 .nil hnode hroute
  have hframe : queued = frame := by
    have hqueue := congrArg (fun r => r.remoteTx.queue) hqueued
    cases hqueue
    rfl
  obtain ⟨bytes, hbytes, hlen⟩ : ∃ bytes, queued.encode lettered = some bytes ∧
      bytes.length ≤ maxFrameSize := by
    rw [hframe]
    exact ⟨_, rfl, by decide⟩
  obtain ⟨inbound, hdecode, hdeliver⟩ := hsame bytes hbytes hlen
  refine ⟨lettered, r, r', lettered_inverse, hnode, hroute, queued, bytes, inbound, hframe ▸ rfl,
    hbytes, hlen, hdecode, ?_⟩
  have hroomy : roomy.Accepts := ⟨rfl, by rintro n ⟨⟩; exact Nat.one_pos⟩
  obtain ⟨hlocal, ⟨box, hbox, -, hsent⟩ | ⟨hrefused, -⟩⟩ :=
    hdeliver 3 (AList.insert (.new 2 10) roomy ∅)
  · cases Option.some.inj ((AList.lookup_insert ∅).symm.trans hbox)
    rw [hlocal, hsent]
    rfl
  · exact absurd hroomy (hrefused roomy (AList.lookup_insert ∅))

end Rebar.Router
