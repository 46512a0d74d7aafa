import Rebar.Lib.Bytes
import Rebar.Lib.Msgpack

/-!
# Wire frames

The model of `protocol/frame.rs`.  The msgpack encoder and decoder (`rmpv::encode::write_value` into a
buffer, `rmpv::decode::read_value`) are those of a library; they are a parameter, `Msgpack`, and what
is assumed of them is `Msgpack.Inverse`.

* `MsgType.fromU8`   the wire bytes of the message types;
* `Frame.encode`, `Frame.decode`   the format, and `decode_encode` that a frame is read back.

A panic of the source is `none`.  The conversions of section lengths to `usize` cannot fail on a
64-bit target and are left out.
-/

namespace Rebar.Protocol

inductive FrameError where
  | invalidMsgType (v : UInt8)
  | tooShort (expected actual : Nat)
  | tooLarge (declared max : Nat)
  | msgpackDecode (text : String)
deriving DecidableEq

def maxFrameSize : Nat := 64 * 1024 * 1024

inductive MsgType where
  | send
  | monitor
  | demonitor
  | link
  | unlink
  | exit
  | processDown
  | nameLookup
  | nameRegister
  | nameUnregister
  | heartbeat
  | heartbeatAck
  | nodeInfo
  | swim
deriving DecidableEq

/-- `as u8` -/
def MsgType.toU8 : MsgType → UInt8
  | .send => 0x01
  | .monitor => 0x02
  | .demonitor => 0x03
  | .link => 0x04
  | .unlink => 0x05
  | .exit => 0x06
  | .processDown => 0x07
  | .nameLookup => 0x08
  | .nameRegister => 0x09
  | .nameUnregister => 0x0A
  | .heartbeat => 0x0B
  | .heartbeatAck => 0x0C
  | .nodeInfo => 0x0D
  | .swim => 0x0E

def MsgType.fromU8 (v : UInt8) : Except FrameError MsgType :=
  match v with
  | 0x01 => .ok .send
  | 0x02 => .ok .monitor
  | 0x03 => .ok .demonitor
  | 0x04 => .ok .link
  | 0x05 => .ok .unlink
  | 0x06 => .ok .exit
  | 0x07 => .ok .processDown
  | 0x08 => .ok .nameLookup
  | 0x09 => .ok .nameRegister
  | 0x0A => .ok .nameUnregister
  | 0x0B => .ok .heartbeat
  | 0x0C => .ok .heartbeatAck
  | 0x0D => .ok .nodeInfo
  | 0x0E => .ok .swim
  | _ => .error (.invalidMsgType v)

theorem fromU8_toU8 (t : MsgType) : MsgType.fromU8 t.toU8 = .ok t := by
  cases t <;> rfl

structure Frame where
  version : UInt8
  msgType : MsgType
  requestId : UInt64
  header : Value
  payload : Value

def fixedHeaderSize : Nat := 18

namespace Frame

/-- `none` is a panic: a section that does not encode, or whose length is no `u32` -/
def encode (codec : Msgpack) (frame : Frame) : Option (List UInt8) :=
  match codec.write frame.header with
  | .error _ => none
  | .ok headerBuf =>
    match codec.write frame.payload with
    | .error _ => none
    | .ok payloadBuf =>
      if headerBuf.length < 2 ^ 32 ∧ payloadBuf.length < 2 ^ 32 then
        some ([frame.version, frame.msgType.toU8] ++ toBe 8 frame.requestId.toNat
          ++ toBe 4 headerBuf.length ++ toBe 4 payloadBuf.length ++ headerBuf ++ payloadBuf)
      else none

def decode (codec : Msgpack) (bytes : List UInt8) : Except FrameError Frame :=
  if bytes.length < fixedHeaderSize then .error (.tooShort fixedHeaderSize bytes.length)
  else
    match MsgType.fromU8 (bytes.getD 1 0) with
    | .error e => .error e
    | .ok msgType =>
      let headerLen := ofBe (slice bytes 10 14)
      let payloadLen := ofBe (slice bytes 14 18)
      let declared := fixedHeaderSize + headerLen + payloadLen
      if maxFrameSize < declared then .error (.tooLarge declared maxFrameSize)
      else if bytes.length < declared then .error (.tooShort declared bytes.length)
      else
        let payloadStart := fixedHeaderSize + headerLen
        match codec.read (slice bytes fixedHeaderSize payloadStart) with
        | .error text => .error (.msgpackDecode text)
        | .ok header =>
          match codec.read (slice bytes payloadStart (payloadStart + payloadLen)) with
          | .error text => .error (.msgpackDecode text)
          | .ok payload => .ok {
              version := bytes.getD 0 0
              msgType
              requestId := UInt64.ofNat (ofBe (slice bytes 2 10))
              header
              payload }

end Frame

variable {codec : Msgpack} {frame : Frame} {bytes : List UInt8}

/-! ## the round trip -/

theorem encode_cases (h : frame.encode codec = some bytes) :
    ∃ header payload, codec.write frame.header = .ok header ∧
      codec.write frame.payload = .ok payload ∧
      header.length < 2 ^ 32 ∧ payload.length < 2 ^ 32 ∧
      bytes = [frame.version, frame.msgType.toU8] ++ (toBe 8 frame.requestId.toNat
        ++ (toBe 4 header.length ++ (toBe 4 payload.length ++ (header ++ payload)))) := by
  unfold Frame.encode at h
  split at h
  next => cases h
  next header hheader =>
    split at h
    next => cases h
    next payload hpayload =>
      split at h
      next hlen =>
        cases h
        refine ⟨header, payload, hheader, hpayload, hlen.1, hlen.2, ?_⟩
        simp only [List.append_assoc]
      next => cases h

theorem length_encode (version code : UInt8) (id : Nat) (header payload : List UInt8) :
    ([version, code] ++ (toBe 8 id ++ (toBe 4 header.length ++ (toBe 4 payload.length
      ++ (header ++ payload))))).length = fixedHeaderSize + header.length + payload.length := by
  simp only [List.length_append, length_toBe, List.length_cons, List.length_nil, fixedHeaderSize]
  omega

theorem encode_of_write {header payload : List UInt8}
    (hheader : codec.write frame.header = .ok header)
    (hpayload : codec.write frame.payload = .ok payload)
    (hhlen : header.length < 2 ^ 32) (hplen : payload.length < 2 ^ 32) :
    ∃ bytes, frame.encode codec = some bytes ∧
      bytes.length = fixedHeaderSize + header.length + payload.length := by
  refine ⟨_, ?_, length_encode frame.version frame.msgType.toU8 frame.requestId.toNat header payload⟩
  rw [Frame.encode, hheader, hpayload]
  dsimp only
  rw [if_pos ⟨hhlen, hplen⟩]
  simp only [List.append_assoc]

def Frame.fixedHeader (frame : Frame) (headerLen payloadLen : Nat) : List UInt8 :=
  [frame.version, frame.msgType.toU8] ++ (toBe 8 frame.requestId.toNat
    ++ (toBe 4 headerLen ++ toBe 4 payloadLen))

theorem length_fixedHeader (frame : Frame) (headerLen payloadLen : Nat) :
    (frame.fixedHeader headerLen payloadLen).length = fixedHeaderSize := by
  simp only [Frame.fixedHeader, List.length_append, length_toBe, List.length_cons, List.length_nil,
    fixedHeaderSize]

theorem encode_eq_fixedHeader (h : frame.encode codec = some bytes) :
    ∃ header payload, codec.write frame.header = .ok header ∧
      codec.write frame.payload = .ok payload ∧
      header.length < 2 ^ 32 ∧ payload.length < 2 ^ 32 ∧
      bytes = frame.fixedHeader header.length payload.length ++ (header ++ payload) := by
  obtain ⟨header, payload, hheader, hpayload, hhlen, hplen, hbytes⟩ := encode_cases h
  refine ⟨header, payload, hheader, hpayload, hhlen, hplen, ?_⟩
  rw [hbytes]
  simp only [Frame.fixedHeader, List.append_assoc]

/-- what `decode` makes of a fixed header and the bytes that follow it -/
theorem decode_fixedHeader {headerLen payloadLen : Nat} (hhlen : headerLen < 2 ^ 32)
    (hplen : payloadLen < 2 ^ 32) (frame : Frame) (rest : List UInt8) :
    Frame.decode codec (frame.fixedHeader headerLen payloadLen ++ rest) =
      if maxFrameSize < fixedHeaderSize + headerLen + payloadLen then
        .error (.tooLarge (fixedHeaderSize + headerLen + payloadLen) maxFrameSize)
      else if rest.length < headerLen + payloadLen then
        .error (.tooShort (fixedHeaderSize + headerLen + payloadLen) (fixedHeaderSize + rest.length))
      else
        match codec.read (rest.take headerLen) with
        | .error text => .error (.msgpackDecode text)
        | .ok header =>
          match codec.read (slice rest headerLen (headerLen + payloadLen)) with
          | .error text => .error (.msgpackDecode text)
          | .ok payload => .ok { frame with header, payload } := by
  have hlength : (frame.fixedHeader headerLen payloadLen ++ rest).length =
      fixedHeaderSize + rest.length := by
    rw [List.length_append, length_fixedHeader]
  -- where the sections stand
  have hid : slice (frame.fixedHeader headerLen payloadLen ++ rest) 2 10 =
      toBe 8 frame.requestId.toNat := by
    simp only [Frame.fixedHeader, List.append_assoc]
    exact slice_append rfl rfl
  have hhl : slice (frame.fixedHeader headerLen payloadLen ++ rest) 10 14 = toBe 4 headerLen := by
    simp only [Frame.fixedHeader, List.append_assoc]
    rw [← List.append_assoc]
    exact slice_append rfl rfl
  have hpl : slice (frame.fixedHeader headerLen payloadLen ++ rest) 14 18 = toBe 4 payloadLen := by
    simp only [Frame.fixedHeader, List.append_assoc]
    rw [← List.append_assoc, ← List.append_assoc]
    exact slice_append rfl rfl
  have hhs : slice (frame.fixedHeader headerLen payloadLen ++ rest) fixedHeaderSize
      (fixedHeaderSize + headerLen) = rest.take headerLen :=
    slice_append_add (length_fixedHeader ..) 0 headerLen
  have hps : slice (frame.fixedHeader headerLen payloadLen ++ rest) (fixedHeaderSize + headerLen)
      (fixedHeaderSize + headerLen + payloadLen) = slice rest headerLen (headerLen + payloadLen) := by
    rw [Nat.add_assoc]
    exact slice_append_add (length_fixedHeader ..) _ _
  have hcode : (frame.fixedHeader headerLen payloadLen ++ rest).getD 1 0 = frame.msgType.toU8 := rfl
  have hversion : (frame.fixedHeader headerLen payloadLen ++ rest).getD 0 0 = frame.version := rfl
  rw [Frame.decode, if_neg (by omega), hcode, fromU8_toU8, hhl, hpl, hid, hversion, hlength,
    ofBe_toBe (k := 4) hhlen, ofBe_toBe (k := 4) hplen,
    ofBe_toBe (k := 8) frame.requestId.toNat_lt, UInt64.ofNat_toNat]
  dsimp only
  rw [hhs, hps]
  have hless : fixedHeaderSize + rest.length < fixedHeaderSize + headerLen + payloadLen ↔
      rest.length < headerLen + payloadLen := by omega
  simp only [hless]

theorem decode_append (hcodec : codec.Inverse) (h : frame.encode codec = some bytes)
    (hsize : bytes.length ≤ maxFrameSize) (rest : List UInt8) :
    Frame.decode codec (bytes ++ rest) = .ok frame := by
  obtain ⟨header, payload, hheader, hpayload, hhlen, hplen, rfl⟩ := encode_eq_fixedHeader h
  rw [List.length_append, List.length_append, length_fixedHeader] at hsize
  rw [List.append_assoc, decode_fixedHeader hhlen hplen, if_neg (by omega), List.append_assoc,
    if_neg (by simp only [List.length_append]; omega), List.take_left, slice_append rfl rfl,
    hcodec _ _ hheader, hcodec _ _ hpayload]

/-- **A frame of at most the maximum size is read back.** -/
theorem decode_encode (hcodec : codec.Inverse) (h : frame.encode codec = some bytes)
    (hsize : bytes.length ≤ maxFrameSize) : Frame.decode codec bytes = .ok frame := by
  have hread := decode_append hcodec h hsize []
  rw [List.append_nil] at hread
  exact hread

end Rebar.Protocol
