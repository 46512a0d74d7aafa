import Rebar.Protocol.Frame

/-!
# Connections

The model of `send` and `recv` of `transport/tcp.rs` and `transport/quic.rs`.  A frame goes over the
wire as its length and its bytes: on one stream of bytes with TCP, on a stream of its own with QUIC.
The wire is what was sent and not received yet; nothing is lost on it, and the streams of QUIC are
accepted in the order in which they were opened.
-/

namespace Rebar.Transport
open Protocol

inductive IoError where
  | unexpectedEof
  | other
deriving DecidableEq

inductive TransportError where
  | io (e : IoError)
  | connectionClosed
  | frameTooLarge (declared max : Nat)
  | frame (e : FrameError)
deriving DecidableEq

/-- what `send` writes; `none` is a panic of `encode` -/
def lengthPrefixed (codec : Msgpack) (frame : Frame) :
    Option (Except TransportError (List UInt8)) :=
  (frame.encode codec).map fun encoded =>
    if encoded.length < 2 ^ 32 then .ok (toBe 4 encoded.length ++ encoded)
    else .error (.io .other)

/-- what `recv` reads from a stream; `closed` and `cut` are its errors where the stream ends before
the length and before the end of the frame -/
def readFrame (codec : Msgpack) (closed cut : TransportError) (stream : List UInt8) :
    Except TransportError Frame × List UInt8 :=
  match readExact 4 stream with
  | none => (.error closed, [])
  | some (lenBuf, rest) =>
    let len := ofBe lenBuf
    if maxFrameSize < len then (.error (.frameTooLarge len maxFrameSize), rest)
    else
      match readExact len rest with
      | none => (.error cut, [])
      | some (buf, rest) =>
        match Frame.decode codec buf with
        | .error e => (.error (.frame e), rest)
        | .ok frame => (.ok frame, rest)

/-- the two ends of a connection, by what they do to the wire between them -/
structure Connection (ω : Type) where
  send : ω → Frame → Option (Except TransportError ω)
  recv : ω → Except TransportError Frame × ω

def tcp (codec : Msgpack) : Connection (List UInt8) where
  send := fun wire frame => (lengthPrefixed codec frame).map (·.map (wire ++ ·))
  recv := readFrame codec .connectionClosed (.io .unexpectedEof)

def quic (codec : Msgpack) : Connection (List (List UInt8)) where
  send := fun wire frame => (lengthPrefixed codec frame).map (·.map fun bytes => wire ++ [bytes])
  recv
    | [] => (.error (.io .other), [])
    | stream :: wire => ((readFrame codec (.io .other) (.io .other) stream).1, wire)

namespace Connection
variable {ω : Type}

/-- frames sent one after another; the wire, if every `send` returned `Ok` -/
def sendAll (c : Connection ω) : ω → List Frame → Option ω
  | wire, [] => some wire
  | wire, frame :: frames =>
    match c.send wire frame with
    | some (.ok wire) => c.sendAll wire frames
    | some (.error _) => none
    | none => none

/-- the results of successive calls of `recv` -/
def recvs (c : Connection ω) : Nat → ω → List (Except TransportError Frame)
  | 0, _ => []
  | k + 1, wire => (c.recv wire).1 :: c.recvs k (c.recv wire).2

end Connection

/-- the fixed header and the two sections are at most the maximum size -/
def Fits (codec : Msgpack) (frame : Frame) : Prop :=
  ∀ header payload, codec.write frame.header = .ok header → codec.write frame.payload = .ok payload →
    fixedHeaderSize + header.length + payload.length ≤ maxFrameSize

/-- what a `send` of the frame that returns `Ok` writes -/
def Written (codec : Msgpack) (frame : Frame) (bytes : List UInt8) : Prop :=
  ∃ encoded, frame.encode codec = some encoded ∧ encoded.length < 2 ^ 32 ∧
    bytes = toBe 4 encoded.length ++ encoded

variable {codec : Msgpack} {frame : Frame} {frames : List Frame} {bytes encoded : List UInt8}
  {parts : List (List UInt8)} {ω : Type} {c : Connection ω}

theorem fits_iff (h : frame.encode codec = some encoded) :
    Fits codec frame ↔ encoded.length ≤ maxFrameSize := by
  obtain ⟨header, payload, hheader, hpayload, -, -, hencoded⟩ := encode_cases h
  rw [hencoded, length_encode]
  refine ⟨fun hfits => hfits header payload hheader hpayload, fun hle h₁ p₁ hh hp => ?_⟩
  cases hheader.symm.trans hh
  cases hpayload.symm.trans hp
  exact hle

theorem lengthPrefixed_of_encode (h : frame.encode codec = some encoded)
    (hlen : encoded.length < 2 ^ 32) :
    lengthPrefixed codec frame = some (.ok (toBe 4 encoded.length ++ encoded)) := by
  rw [lengthPrefixed, h, Option.map_some, if_pos hlen]

theorem lengthPrefixed_ok (h : lengthPrefixed codec frame = some (.ok bytes)) :
    Written codec frame bytes := by
  obtain ⟨encoded, hencoded, hbytes⟩ := Option.map_eq_some_iff.mp h
  split at hbytes
  next hlen =>
    cases hbytes
    exact ⟨encoded, hencoded, hlen, rfl⟩
  next => cases hbytes

/-! ## one frame -/

theorem readFrame_fits (hcodec : codec.Inverse) (h : Written codec frame bytes)
    (hfits : Fits codec frame) (closed cut : TransportError) (rest : List UInt8) :
    readFrame codec closed cut (bytes ++ rest) = (.ok frame, rest) := by
  obtain ⟨encoded, hencoded, hlen, rfl⟩ := h
  have hsize := (fits_iff hencoded).mp hfits
  rw [readFrame, List.append_assoc, readExact_append (length_toBe _ _)]
  dsimp only
  rw [ofBe_toBe (k := 4) hlen, if_neg (Nat.not_lt.mpr hsize), readExact_append rfl]
  dsimp only
  rw [decode_encode hcodec hencoded hsize]

theorem readFrame_too_large (h : Written codec frame bytes) (hfits : ¬ Fits codec frame)
    (closed cut : TransportError) (rest : List UInt8) :
    ∃ declared rest', readFrame codec closed cut (bytes ++ rest)
      = (.error (.frameTooLarge declared maxFrameSize), rest') := by
  obtain ⟨encoded, hencoded, hlen, rfl⟩ := h
  rw [fits_iff hencoded, Nat.not_le] at hfits
  rw [readFrame, List.append_assoc, readExact_append (length_toBe _ _)]
  dsimp only
  rw [ofBe_toBe (k := 4) hlen, if_pos hfits]
  exact ⟨_, _, rfl⟩

/-! ## lists of frames -/

/-- the wires that hold what was written, by a connection that reads one frame after another -/
structure Orderly (codec : Msgpack) (c : Connection ω) (wire : List (List UInt8) → ω) : Prop where
  sends : ∀ parts frame, c.send (wire parts) frame
    = (lengthPrefixed codec frame).map (·.map fun bytes => wire (parts ++ [bytes]))
  receives : ∀ {frame bytes} parts, Written codec frame bytes → Fits codec frame →
    c.recv (wire (bytes :: parts)) = (.ok frame, wire parts)
  rejects : ∀ {frame bytes} parts, Written codec frame bytes → ¬ Fits codec frame →
    ∃ declared, (c.recv (wire (bytes :: parts))).1 = .error (.frameTooLarge declared maxFrameSize)

variable {wire : List (List UInt8) → ω} {w : ω}

theorem Orderly.sendAll (h : Orderly codec c wire) (parts : List (List UInt8))
    (hsend : c.sendAll (wire parts) frames = some w) :
    ∃ written, List.Forall₂ (Written codec) frames written ∧ w = wire (parts ++ written) := by
  induction frames generalizing parts with
  | nil =>
    cases hsend
    exact ⟨[], .nil, by rw [List.append_nil]⟩
  | cons frame frames ih =>
    rw [Connection.sendAll, h.sends] at hsend
    cases hp : lengthPrefixed codec frame with
    | none =>
      rw [hp] at hsend
      cases hsend
    | some result =>
      rw [hp] at hsend
      cases result with
      | error e => cases hsend
      | ok bytes =>
        obtain ⟨written, hwritten, hw⟩ := ih _ hsend
        refine ⟨bytes :: written, .cons (lengthPrefixed_ok hp) hwritten, ?_⟩
        rw [hw, List.append_assoc, List.singleton_append]

/-- **The receiver gets what was written exactly when every frame fits.** -/
theorem Orderly.recvs (h : Orderly codec c wire) (hw : List.Forall₂ (Written codec) frames parts) :
    c.recvs frames.length (wire parts) = frames.map .ok ↔ ∀ frame ∈ frames, Fits codec frame := by
  induction hw with
  | nil => exact ⟨nofun, fun _ => rfl⟩
  | @cons frame bytes frames parts hwritten _ ih =>
    rw [List.length_cons, Connection.recvs, List.map_cons, List.forall_mem_cons, List.cons_eq_cons]
    by_cases hfits : Fits codec frame
    · rw [h.receives _ hwritten hfits, ih]
      exact and_congr_left fun _ => iff_of_true rfl hfits
    · obtain ⟨e, he⟩ := h.rejects parts hwritten hfits
      rw [he]
      exact iff_of_false (fun heq => nomatch heq.1) fun hall => hfits hall.1

theorem Orderly.refused (h : Orderly codec c wire)
    (hbytes : lengthPrefixed codec frame = some (.ok bytes)) (hfits : ¬ Fits codec frame) :
    ∃ w declared, c.sendAll (wire []) [frame] = some w ∧
      c.recvs 1 w = [.error (.frameTooLarge declared maxFrameSize)] := by
  obtain ⟨declared, hrecv⟩ := h.rejects [] (lengthPrefixed_ok hbytes) hfits
  refine ⟨wire [bytes], declared, ?_, congrArg (fun result => [result]) hrecv⟩
  rw [Connection.sendAll, h.sends, hbytes]
  rfl

theorem orderly_tcp (hcodec : codec.Inverse) : Orderly codec (tcp codec) List.flatten where
  sends := by
    intro parts frame
    simp only [tcp, List.flatten_append, List.flatten_singleton]
  receives := by
    intro frame bytes parts hwritten hfits
    rw [List.flatten_cons]
    exact readFrame_fits hcodec hwritten hfits _ _ _
  rejects := by
    intro frame bytes parts hwritten hfits
    obtain ⟨declared, rest, heq⟩ := readFrame_too_large hwritten hfits .connectionClosed
      (.io .unexpectedEof) parts.flatten
    rw [List.flatten_cons]
    exact ⟨_, congrArg Prod.fst heq⟩

theorem orderly_quic (hcodec : codec.Inverse) : Orderly codec (quic codec) id where
  sends := fun _ _ => rfl
  receives := by
    intro frame bytes parts hwritten hfits
    have hread := readFrame_fits hcodec hwritten hfits (.io .other) (.io .other) []
    rw [List.append_nil] at hread
    show ((readFrame codec _ _ bytes).1, parts) = _
    rw [hread]
    rfl
  rejects := by
    intro frame bytes parts hwritten hfits
    obtain ⟨declared, rest, heq⟩ := readFrame_too_large hwritten hfits (.io .other) (.io .other) []
    rw [List.append_nil] at heq
    exact ⟨_, congrArg Prod.fst heq⟩

/-- **Frames that were all sent with success are received as they were sent, on both transports,
exactly when each of them is at most the maximum size.** -/
theorem received_iff_fits (hcodec : codec.Inverse) (frames : List Frame) :
    (∀ wire, (tcp codec).sendAll [] frames = some wire →
      ((tcp codec).recvs frames.length wire = frames.map .ok ↔
        ∀ frame ∈ frames, Fits codec frame)) ∧
    ∀ wire, (quic codec).sendAll [] frames = some wire →
      ((quic codec).recvs frames.length wire = frames.map .ok ↔
        ∀ frame ∈ frames, Fits codec frame) := by
  refine ⟨fun wire hsend => ?_, fun wire hsend => ?_⟩
  · obtain ⟨written, hwritten, rfl⟩ := (orderly_tcp hcodec).sendAll [] hsend
    exact (orderly_tcp hcodec).recvs hwritten
  · obtain ⟨written, hwritten, rfl⟩ := (orderly_quic hcodec).sendAll [] hsend
    exact (orderly_quic hcodec).recvs hwritten

/-! ## a frame that is too large -/

private def writePlain : Value → Except String (List UInt8)
  | .nil => .ok [0xc0]
  | .binary bytes =>
    if bytes.length < 2 ^ 8 then .ok (0xc4 :: toBe 1 bytes.length ++ bytes)
    else if bytes.length < 2 ^ 16 then .ok (0xc5 :: toBe 2 bytes.length ++ bytes)
    else if bytes.length < 2 ^ 32 then .ok (0xc6 :: toBe 4 bytes.length ++ bytes)
    else .error "too long"
  | _ => .error "unsupported"

private def counted (k : Nat) (bytes : List UInt8) : Value :=
  .binary (slice bytes k (k + ofBe (bytes.take k)))

private def plain : Msgpack where
  write := writePlain
  read
    | 0xc0 :: _ => .ok .nil
    | 0xc4 :: bytes => .ok (counted 1 bytes)
    | 0xc5 :: bytes => .ok (counted 2 bytes)
    | 0xc6 :: bytes => .ok (counted 4 bytes)
    | _ => .error "unsupported"

private theorem counted_append {k : Nat} (h : bytes.length < 256 ^ k) :
    counted k (toBe k bytes.length ++ bytes) = .binary bytes := by
  rw [counted, List.take_left' (length_toBe _ _), ofBe_toBe h,
    slice_append_right (length_toBe _ _) rfl]

private theorem plain_inverse : plain.Inverse := by
  intro v bytes h
  replace h : writePlain v = .ok bytes := h
  unfold writePlain at h
  split at h
  next =>
    cases h
    rfl
  next content =>
    split at h
    next hlen =>
      cases h
      exact congrArg Except.ok (counted_append (k := 1) hlen)
    next =>
      split at h
      next hlen =>
        cases h
        exact congrArg Except.ok (counted_append (k := 2) hlen)
      next =>
        split at h
        next hlen =>
          cases h
          exact congrArg Except.ok (counted_append (k := 4) hlen)
        next => cases h
  next => cases h

theorem received_iff_fits_two : ∃ codec : Msgpack, codec.Inverse ∧
    ∃ (frames : List Frame) (wire : List UInt8),
    frames.length = 2 ∧ (tcp codec).sendAll [] frames = some wire ∧
    (tcp codec).recvs 2 wire = frames.map .ok := by
  refine ⟨plain, plain_inverse,
    [⟨1, .heartbeat, 7, .nil, .nil⟩, ⟨1, .send, 0, .nil, .binary [1, 2, 3]⟩], _, rfl, rfl, ?_⟩
  refine ((received_iff_fits plain_inverse
    [⟨1, .heartbeat, 7, .nil, .nil⟩, ⟨1, .send, 0, .nil, .binary [1, 2, 3]⟩]).1 _ rfl).mpr
    fun frame hf => ?_
  rcases List.mem_pair.mp hf with rfl | rfl
  · intro header payload hheader hpayload
    cases hheader
    cases hpayload
    decide
  · intro header payload hheader hpayload
    cases hheader
    cases hpayload
    decide

private def carrying (content : List UInt8) : Frame := ⟨1, .send, 0, .nil, .binary content⟩

private theorem plain_write_long {content : List UInt8} (hlong : 2 ^ 16 ≤ content.length)
    (hshort : content.length < 2 ^ 32) :
    plain.write (.binary content) = .ok (0xc6 :: toBe 4 content.length ++ content) := by
  show writePlain (.binary content) = _
  rw [writePlain, if_neg (by omega), if_neg (by omega), if_pos hshort]

private theorem sends_oversized {content : List UInt8} (hlong : maxFrameSize ≤ content.length)
    (hshort : content.length < 2 ^ 31) :
    (∃ bytes, lengthPrefixed plain (carrying content) = some (.ok bytes)) ∧
      ¬ Fits plain (carrying content) := by
  have hmax : maxFrameSize = 67108864 := rfl
  have hbig : 2 ^ 16 ≤ content.length := by omega
  have hwrite := plain_write_long hbig (by omega)
  obtain ⟨payload, hpayload⟩ : ∃ payload, payload = 0xc6 :: toBe 4 content.length ++ content :=
    ⟨_, rfl⟩
  have hlen : payload.length = content.length + 5 := by
    rw [hpayload, List.cons_append, List.length_cons, List.length_append, length_toBe]
    omega
  rw [← hpayload] at hwrite
  have hheader : plain.write (carrying content).header = .ok [0xc0] := rfl
  obtain ⟨encoded, hencoded, hsize⟩ :=
    encode_of_write hheader hwrite (by decide) (by omega)
  rw [fixedHeaderSize, List.length_singleton, hlen] at hsize
  refine ⟨⟨_, lengthPrefixed_of_encode hencoded (by omega)⟩, fun hfits => ?_⟩
  have hle := (fits_iff hencoded).mp hfits
  omega

/-- **A frame that is too large is sent without error, and the receiver refuses it.** -/
theorem oversized_not_received : ∃ codec : Msgpack, codec.Inverse ∧ ∃ frame : Frame,
    (∃ wire declared, (tcp codec).sendAll [] [frame] = some wire ∧
      (tcp codec).recvs 1 wire = [.error (.frameTooLarge declared maxFrameSize)]) ∧
    ∃ wire declared, (quic codec).sendAll [] [frame] = some wire ∧
      (quic codec).recvs 1 wire = [.error (.frameTooLarge declared maxFrameSize)] := by
  have hlen : (List.replicate maxFrameSize (0 : UInt8)).length = maxFrameSize :=
    List.length_replicate
  obtain ⟨⟨bytes, hbytes⟩, hfits⟩ := sends_oversized hlen.ge (by rw [hlen]; decide)
  exact ⟨plain, plain_inverse, _, (orderly_tcp plain_inverse).refused hbytes hfits,
    (orderly_quic plain_inverse).refused hbytes hfits⟩

end Rebar.Transport
