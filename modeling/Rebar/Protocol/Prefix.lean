import Rebar.Protocol.Frame

/-!
# Frames in a longer byte string, and frames cut short

* `decode_append_tooLarge`   an encoding above the maximum size is refused, whatever follows it;
* `encode_prefix_free`       no encoding starts another;
* `Frame.decodeChecked`      `decode` with every index, slice, addition and conversion checked, in a `usize` of
                             a given width; `decodeChecked_eq` says that no check fails.
-/

namespace Rebar.Protocol

variable {codec : Msgpack} {frame other : Frame} {bytes rest : List UInt8}

theorem decode_append_tooLarge (h : frame.encode codec = some bytes)
    (hsize : maxFrameSize < bytes.length) (rest : List UInt8) :
    Frame.decode codec (bytes ++ rest) = .error (.tooLarge bytes.length maxFrameSize) := by
  obtain ⟨header, payload, -, -, hhlen, hplen, rfl⟩ := encode_eq_fixedHeader h
  have hlength : (frame.fixedHeader header.length payload.length ++ (header ++ payload)).length =
      fixedHeaderSize + header.length + payload.length := by
    rw [List.length_append, List.length_append, length_fixedHeader, Nat.add_assoc]
  rw [hlength] at hsize ⊢
  rw [List.append_assoc, decode_fixedHeader hhlen hplen, if_pos hsize]

theorem decode_take (h : frame.encode codec = some bytes) (hsize : bytes.length ≤ maxFrameSize)
    {n : Nat} (hn : n < bytes.length) :
    Frame.decode codec (bytes.take n) =
      .error (.tooShort (if n < fixedHeaderSize then fixedHeaderSize else bytes.length) n) := by
  have hlen : (bytes.take n).length = n := List.length_take_of_le (Nat.le_of_lt hn)
  split
  next hshort =>
    rw [Frame.decode, hlen, if_pos hshort]
  next hlong =>
    obtain ⟨header, payload, -, -, hhlen, hplen, rfl⟩ := encode_eq_fixedHeader h
    rw [List.length_append, List.length_append, length_fixedHeader] at hsize hn ⊢
    -- the cut is behind the fixed header
    have htake : (frame.fixedHeader header.length payload.length ++ (header ++ payload)).take n =
        frame.fixedHeader header.length payload.length ++
          (header ++ payload).take (n - fixedHeaderSize) := by
      rw [List.take_append, length_fixedHeader, List.take_of_length_le]
      rw [length_fixedHeader]
      omega
    have hrest : ((header ++ payload).take (n - fixedHeaderSize)).length = n - fixedHeaderSize := by
      apply List.length_take_of_le
      rw [List.length_append]
      omega
    rw [htake, decode_fixedHeader hhlen hplen, if_neg (by omega), hrest, if_pos (by omega),
      Nat.add_assoc, Nat.add_sub_cancel' (by omega)]

/-! ## no encoding starts another -/

theorem fixedHeader_inj {hl pl hl' pl' : Nat} (hhl : hl < 2 ^ 32) (hpl : pl < 2 ^ 32)
    (hhl' : hl' < 2 ^ 32) (hpl' : pl' < 2 ^ 32)
    (h : frame.fixedHeader hl pl = other.fixedHeader hl' pl') :
    frame.version = other.version ∧ frame.msgType = other.msgType ∧
      frame.requestId = other.requestId ∧ hl = hl' ∧ pl = pl' := by
  unfold Frame.fixedHeader at h
  obtain ⟨hfirst, h⟩ := List.append_inj h rfl
  obtain ⟨hid, h⟩ := List.append_inj h (by rw [length_toBe, length_toBe])
  obtain ⟨hheader, hpayload⟩ := List.append_inj h (by rw [length_toBe, length_toBe])
  have hcode : frame.msgType.toU8 = other.msgType.toU8 := by
    injection hfirst with _ hcodes
    injection hcodes
  refine ⟨by injection hfirst, ?_, ?_, ?_, ?_⟩
  · have htype := congrArg MsgType.fromU8 hcode
    rw [fromU8_toU8, fromU8_toU8] at htype
    exact Except.ok.inj htype
  · have hnat := congrArg ofBe hid
    rw [ofBe_toBe (k := 8) frame.requestId.toNat_lt, ofBe_toBe (k := 8) other.requestId.toNat_lt] at hnat
    exact UInt64.toNat_inj.mp hnat
  · have hnat := congrArg ofBe hheader
    rw [ofBe_toBe (k := 4) hhl, ofBe_toBe (k := 4) hhl'] at hnat
    exact hnat
  · have hnat := congrArg ofBe hpayload
    rw [ofBe_toBe (k := 4) hpl, ofBe_toBe (k := 4) hpl'] at hnat
    exact hnat

theorem encode_prefix_free {bytes' : List UInt8} (hcodec : codec.Inverse)
    (h : frame.encode codec = some bytes) (h' : other.encode codec = some bytes')
    (hstarts : bytes <+: bytes') : frame = other ∧ bytes = bytes' := by
  obtain ⟨header, payload, hheader, hpayload, hhl, hpl, rfl⟩ := encode_eq_fixedHeader h
  obtain ⟨header', payload', hheader', hpayload', hhl', hpl', rfl⟩ := encode_eq_fixedHeader h'
  obtain ⟨rest, heq⟩ := hstarts
  rw [List.append_assoc] at heq
  obtain ⟨hfixed, hsections⟩ :=
    List.append_inj heq (by rw [length_fixedHeader, length_fixedHeader])
  obtain ⟨hversion, htype, hid, hhlen, hplen⟩ := fixedHeader_inj hhl hpl hhl' hpl' hfixed
  rw [List.append_assoc] at hsections
  obtain ⟨rfl, hlast⟩ := List.append_inj hsections hhlen
  have hrest : rest = [] := by
    have hlength := congrArg List.length hlast
    rw [List.length_append] at hlength
    exact List.length_eq_zero_iff.mp (by omega)
  rw [hrest, List.append_nil] at hlast
  subst hlast
  refine ⟨?_, by rw [hfixed]⟩
  have hsame := (hcodec _ _ hheader).symm.trans (hcodec _ _ hheader')
  have hsame' := (hcodec _ _ hpayload).symm.trans (hcodec _ _ hpayload')
  cases frame
  cases other
  cases hversion
  cases htype
  cases hid
  cases hsame
  cases hsame'
  rfl

/-! ## every check of `decode` -/

/-- `&bytes[i..j]`; a range outside of the bytes is a panic -/
def sliceChecked (bytes : List UInt8) (i j : Nat) : Option (List UInt8) :=
  if i ≤ j ∧ j ≤ bytes.length then some (slice bytes i j) else none

/-- `bytes[i..j].try_into().unwrap()` for an array of `n` bytes, read as a number -/
def numberChecked (n : Nat) (bytes : List UInt8) (i j : Nat) : Option Nat :=
  (sliceChecked bytes i j).bind fun section_ =>
    if section_.length = n then some (ofBe section_) else none

/-- an addition of numbers of `width` bits; an overflow is a panic -/
def addChecked (width a b : Nat) : Option Nat := if a + b < 2 ^ width then some (a + b) else none

namespace Frame

def decodeChecked (width : Nat) (codec : Msgpack) (bytes : List UInt8) :
    Option (Except FrameError Frame) :=
  if bytes.length < fixedHeaderSize then some (.error (.tooShort fixedHeaderSize bytes.length))
  else do
    let version ← bytes[0]?
    let code ← bytes[1]?
    match MsgType.fromU8 code with
    | .error e => some (.error e)
    | .ok msgType =>
      let requestId ← numberChecked 8 bytes 2 10
      let headerLen ← numberChecked 4 bytes 10 14
      let payloadLen ← numberChecked 4 bytes 14 18
      let upToPayload ← addChecked 64 fixedHeaderSize headerLen
      let declared ← addChecked 64 upToPayload payloadLen
      if maxFrameSize < declared then some (.error (.tooLarge declared maxFrameSize))
      else if 2 ^ width ≤ declared then some (.error (.tooLarge declared maxFrameSize))
      else if 2 ^ width ≤ headerLen ∨ 2 ^ width ≤ payloadLen then
        some (.error (.tooLarge declared maxFrameSize))
      else if bytes.length < declared then some (.error (.tooShort declared bytes.length))
      else
        let headerEnd ← addChecked width fixedHeaderSize headerLen
        let headerBytes ← sliceChecked bytes fixedHeaderSize headerEnd
        match codec.read headerBytes with
        | .error text => some (.error (.msgpackDecode text))
        | .ok header =>
          let payloadStart ← addChecked width fixedHeaderSize headerLen
          let payloadEnd ← addChecked width payloadStart payloadLen
          let payloadBytes ← sliceChecked bytes payloadStart payloadEnd
          match codec.read payloadBytes with
          | .error text => some (.error (.msgpackDecode text))
          | .ok payload => some (.ok {
              version
              msgType
              requestId := UInt64.ofNat requestId
              header
              payload })

end Frame

theorem sliceChecked_of_le {i j : Nat} (hij : i ≤ j) (hj : j ≤ bytes.length) :
    sliceChecked bytes i j = some (slice bytes i j) :=
  if_pos ⟨hij, hj⟩

theorem numberChecked_of_le {n i j : Nat} (hn : j = i + n) (hj : j ≤ bytes.length) :
    numberChecked n bytes i j = some (ofBe (slice bytes i j)) := by
  unfold numberChecked
  rw [sliceChecked_of_le (by omega) hj, Option.bind_some, length_slice hj, if_pos (by omega)]

theorem addChecked_of_lt {width a b : Nat} (h : a + b < 2 ^ width) :
    addChecked width a b = some (a + b) :=
  if_pos h

theorem ofBe_slice_lt {i j : Nat} (hn : j = i + 4) (hj : j ≤ bytes.length) :
    ofBe (slice bytes i j) < 2 ^ 32 := by
  have hlt := ofBe_lt (slice bytes i j)
  rw [length_slice hj, show j - i = 4 by omega] at hlt
  exact hlt

/-- no index, slice, addition or conversion of `decode` fails, on any bytes -/
theorem decodeChecked_eq {width : Nat} (hwidth : 32 ≤ width) (codec : Msgpack)
    (bytes : List UInt8) :
    Frame.decodeChecked width codec bytes = some (Frame.decode codec bytes) := by
  have hpow : 2 ^ 32 ≤ 2 ^ width := Nat.pow_le_pow_right (by decide) hwidth
  unfold Frame.decodeChecked Frame.decode
  split
  next => rfl
  next hlong =>
    have hbytes : 18 ≤ bytes.length := Nat.le_of_not_lt hlong
    have hversion : bytes[0]? = some (bytes.getD 0 0) := by
      rw [List.getD_eq_getElem?_getD, List.getElem?_eq_getElem (by omega), Option.getD_some]
    have hcode : bytes[1]? = some (bytes.getD 1 0) := by
      rw [List.getD_eq_getElem?_getD, List.getElem?_eq_getElem (by omega), Option.getD_some]
    have hid : numberChecked 8 bytes 2 10 = some (ofBe (slice bytes 2 10)) :=
      numberChecked_of_le rfl (by omega)
    have hhl : numberChecked 4 bytes 10 14 = some (ofBe (slice bytes 10 14)) :=
      numberChecked_of_le rfl (by omega)
    have hpl : numberChecked 4 bytes 14 18 = some (ofBe (slice bytes 14 18)) :=
      numberChecked_of_le rfl (by omega)
    have hheaderLen : ofBe (slice bytes 10 14) < 2 ^ 32 := ofBe_slice_lt rfl (by omega)
    have hpayloadLen : ofBe (slice bytes 14 18) < 2 ^ 32 := ofBe_slice_lt rfl (by omega)
    simp only [hversion, hcode, hid, hhl, hpl, Option.bind_eq_bind, Option.bind_some]
    cases MsgType.fromU8 (bytes.getD 1 0) with
    | error e => rfl
    | ok msgType =>
      generalize ofBe (slice bytes 10 14) = headerLen at *
      generalize ofBe (slice bytes 14 18) = payloadLen at *
      have hmax : maxFrameSize < 2 ^ 32 := by decide
      have hfixed : fixedHeaderSize = 18 := rfl
      dsimp only
      -- two `u32` numbers and the fixed size are far below `u64::MAX`
      rw [addChecked_of_lt (by omega), Option.bind_some, addChecked_of_lt (by omega),
        Option.bind_some]
      by_cases hlarge : maxFrameSize < fixedHeaderSize + headerLen + payloadLen
      · rw [if_pos hlarge, if_pos hlarge]
      · rw [if_neg hlarge, if_neg hlarge, if_neg (by omega), if_neg (by omega)]
        by_cases hshort : bytes.length < fixedHeaderSize + headerLen + payloadLen
        · rw [if_pos hshort, if_pos hshort]
        · rw [if_neg hshort, if_neg hshort, addChecked_of_lt (by omega), Option.bind_some,
            sliceChecked_of_le (by omega) (by omega), Option.bind_some]
          cases codec.read (slice bytes fixedHeaderSize (fixedHeaderSize + headerLen)) with
          | error text => rfl
          | ok header =>
            dsimp only
            rw [Option.bind_some, addChecked_of_lt (by omega), Option.bind_some,
              sliceChecked_of_le (by omega) (by omega), Option.bind_some]
            cases codec.read (slice bytes (fixedHeaderSize + headerLen)
                (fixedHeaderSize + headerLen + payloadLen)) with
            | error text => rfl
            | ok payload => rfl

/-! ## all together -/

/-- **An encoding is read back whatever follows it if its length is at most the maximum, and refused as too
large otherwise; each proper prefix of one within the maximum is too short; no encoding starts another; and on
every byte string `decode` slices within its input and computes no length that overflows.** -/
theorem decode_framed (hcodec : codec.Inverse) :
    (∀ frame bytes rest, Frame.encode codec frame = some bytes →
      Frame.decode codec (bytes ++ rest) =
        if bytes.length ≤ maxFrameSize then .ok frame
        else .error (.tooLarge bytes.length maxFrameSize)) ∧
    (∀ frame bytes n, Frame.encode codec frame = some bytes → bytes.length ≤ maxFrameSize →
      n < bytes.length → Frame.decode codec (bytes.take n) =
        .error (.tooShort (if n < fixedHeaderSize then fixedHeaderSize else bytes.length) n)) ∧
    (∀ frame other bytes bytes', Frame.encode codec frame = some bytes →
      Frame.encode codec other = some bytes' → bytes <+: bytes' → frame = other ∧ bytes = bytes') ∧
    ∀ width bytes, 32 ≤ width →
      Frame.decodeChecked width codec bytes = some (Frame.decode codec bytes) := by
  refine ⟨fun frame bytes rest h => ?_, fun frame bytes n h hsize hn => decode_take h hsize hn,
    fun frame other bytes bytes' h h' hstarts => encode_prefix_free hcodec h h' hstarts,
    fun width bytes hwidth => decodeChecked_eq hwidth codec bytes⟩
  split
  next hsize => exact decode_append hcodec h hsize rest
  next hsize => exact decode_append_tooLarge h (Nat.lt_of_not_le hsize) rest

/-- a codec for `nil` and strings of one byte -/
private def tiny : Msgpack where
  write
    | .nil => .ok [0xc0]
    | .binary [b] => .ok [0xc4, 1, b]
    | _ => .error "unsupported"
  read
    | 0xc0 :: _ => .ok .nil
    | 0xc4 :: 1 :: b :: _ => .ok (.binary [b])
    | _ => .error "unsupported"

private theorem tiny_inverse : tiny.Inverse := by
  intro v bytes h
  unfold tiny at h
  dsimp only at h
  split at h
  next =>
    cases h
    rfl
  next =>
    cases h
    rfl
  next => cases h

private def beat : Frame := ⟨1, .heartbeat, 258, .nil, .binary [7]⟩

private def beatBytes : List UInt8 :=
  [1, 11, 0, 0, 0, 0, 0, 0, 1, 2, 0, 0, 0, 1, 0, 0, 0, 3, 0xc0, 0xc4, 1, 7]

theorem decode_framed_beat :
    beat.encode tiny = some beatBytes ∧ Frame.decode tiny (beatBytes ++ [9, 9]) = .ok beat ∧
      Frame.decode tiny (beatBytes.take 20) = .error (.tooShort 22 20) ∧
      Frame.decodeChecked 32 tiny beatBytes = some (Frame.decode tiny beatBytes) := by
  have hencode : beat.encode tiny = some beatBytes := rfl
  obtain ⟨happend, htake, -, hchecked⟩ := decode_framed tiny_inverse
  refine ⟨hencode, ?_, htake beat beatBytes 20 hencode (by decide) (by decide),
    hchecked 32 beatBytes (by decide)⟩
  rw [happend beat beatBytes [9, 9] hencode, if_pos (by decide)]

end Rebar.Protocol
