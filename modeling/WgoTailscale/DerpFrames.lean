import WgoTailscale.Wire
import WgoTailscale.Lib.ByteStream

/-!
# DERP frames (`readDERPFrame`, `writeDERPFrame`, `send` and `readLoop` in `derp.go`)

A frame is a type, the length of its payload in four bytes, and the payload. However a connection
cuts the bytes of frames into segments, and wherever it ends, the frames that arrived whole are read
and then an error (`readDERPFrames_take`). A frame that claims to be too long is refused before its
payload is read (`readDERPFrame_oversized`). The destination and the packet of a sent frame are
recovered by the rule for received ones (`derp_framing` says all of this).
-/

namespace WgoTailscale

open Bytes List

/-! ## Frames -/

/-- `derpMaxFrame`. -/
def derpMaxFrame : Nat := 2 ^ 20

/-- `derpFrameRecv`. -/
def derpFrameRecv : UInt8 := 0x05

/-- `derpFramePing`. -/
def derpFramePing : UInt8 := 0x12

/-- `derpFramePong`. -/
def derpFramePong : UInt8 := 0x13

/-- How reading a frame fails: the connection does, or the frame is refused. -/
inductive DERPError where
  | stream (err : StreamError)
  | message (text : String)
  deriving DecidableEq

/-- `writeDERPFrame`: the bytes that the writer has after those it had. -/
def writeDERPFrame (written : List UInt8) (frameType : UInt8) (payload : List UInt8) :
    Except String (List UInt8) :=
  if derpMaxFrame < payload.length then .error "tailnet: DERP frame too large"
  else .ok (written ++ (frameType :: ofNat 4 payload.length) ++ payload)

/-- `readDERPFrame`: a frame, and what is left to be delivered. -/
def readDERPFrame (incoming : List Incoming) :
    Except DERPError (UInt8 × List UInt8) × List Incoming :=
  match readFull 5 incoming with
  | (.error err, rest) => (.error (.stream err), rest)
  | (.ok header, rest) =>
    let length := toNat header.tail
    if derpMaxFrame < length then
      (.error (.message s!"tailnet: oversized DERP frame: {length}"), rest)
    else match readFull length rest with
    | (.error err, rest) => (.error (.stream err), rest)
    | (.ok payload, rest) => (.ok (header.headD 0, payload), rest)

/-- The frames that repeated calls of `readDERPFrame` return, up to the first error and to the given
number of calls. -/
def readDERPFrames : (calls : Nat) → List Incoming → List (UInt8 × List UInt8) × Option DERPError
  | 0, _ => ([], none)
  | calls + 1, incoming =>
    match readDERPFrame incoming with
    | (.error err, _) => ([], some err)
    | (.ok frame, rest) => (frame :: (readDERPFrames calls rest).1, (readDERPFrames calls rest).2)

/-! ## Packets -/

/-- `derpClient.send`: the payload that it writes. -/
def derpSendPayload (destination : NodePublic) (packet : List UInt8) :
    Except String (List UInt8) :=
  if 64 * 2 ^ 10 < packet.length then .error "tailnet: DERP packet exceeds 64 KiB"
  else .ok (destination.bytes ++ packet)

/-- What `readLoop` does with a frame. -/
inductive DERPAction where
  | nothing
  | onPacket (source : NodePublic) (data : List UInt8)
  | writeFrame (frameType : UInt8) (payload : List UInt8)
  deriving DecidableEq

/-- The body of the loop of `readLoop`. The frames that it does not name, and those that only
inform, come to nothing. -/
def derpAction (frameType : UInt8) (payload : List UInt8) : DERPAction :=
  if frameType = derpFrameRecv then
    if payload.length < 32 then .nothing
    else .onPacket (.ofBytes (payload.take 32)) (payload.drop 32)
  else if frameType = derpFramePing then .writeFrame derpFramePong payload
  else .nothing

/-! ## Reading what was written -/

/-- A frame that can be written. -/
structure DERPFrame where
  frameType : UInt8
  payload : List UInt8
  fits : payload.length ≤ derpMaxFrame

namespace DERPFrame

/-- The bytes of a frame. -/
def bytes (f : DERPFrame) : List UInt8 :=
  (f.frameType :: ofNat 4 f.payload.length) ++ f.payload

/-- What `readDERPFrame` returns of it. -/
def read (f : DERPFrame) : UInt8 × List UInt8 := (f.frameType, f.payload)

theorem length_bytes (f : DERPFrame) : f.bytes.length = 5 + f.payload.length := by
  rw [bytes, length_append, length_cons, length_ofNat]

theorem toNat_length (f : DERPFrame) :
    toNat (ofNat 4 f.payload.length) = f.payload.length := by
  refine toNat_ofNat_of_lt (Nat.lt_of_le_of_lt f.fits ?_)
  decide

end DERPFrame

/-- The frames are written one after the other. -/
theorem foldlM_writeDERPFrame (frames : List DERPFrame) (written : List UInt8) :
    frames.foldlM (fun written f => writeDERPFrame written f.frameType f.payload) written =
      .ok (written ++ frames.flatMap DERPFrame.bytes) := by
  induction frames generalizing written with
  | nil =>
    rw [flatMap_nil, append_nil]
    rfl
  | cons f frames ih =>
    rw [foldlM_cons, writeDERPFrame, if_neg (Nat.not_lt.mpr f.fits)]
    change List.foldlM _ _ frames = _
    rw [ih, flatMap_cons, DERPFrame.bytes, append_assoc, append_assoc,
      append_assoc]

section
variable {incoming : List Incoming} (hunbroken : Unbroken incoming)
include hunbroken

/-- A frame that has arrived whole is read. -/
theorem readDERPFrame_bytes (f : DERPFrame) {more : List UInt8}
    (hbytes : streamBytes incoming = f.bytes ++ more) :
    ∃ rest, readDERPFrame incoming = (.ok f.read, rest) ∧ Unbroken rest ∧
      streamBytes rest = more := by
  rw [DERPFrame.bytes, append_assoc] at hbytes
  obtain ⟨rest, hheader, hunbroken', hbytes'⟩ := readFull_unbroken hunbroken hbytes
  obtain ⟨rest', hpayload, hunbroken'', hbytes''⟩ := readFull_unbroken hunbroken' hbytes'
  refine ⟨rest', ?_, hunbroken'', hbytes''⟩
  have hfive : (f.frameType :: ofNat 4 f.payload.length).length = 5 := by
    rw [length_cons, length_ofNat]
  rw [hfive] at hheader
  unfold readDERPFrame
  simp only [hheader, tail_cons, f.toNat_length, if_neg (Nat.not_lt.mpr f.fits), hpayload]
  rfl

/-- A frame of which a part is missing is not. -/
theorem readDERPFrame_short (f : DERPFrame) {missing : List UInt8}
    (hbytes : streamBytes incoming ++ missing = f.bytes) (hmissing : missing ≠ []) :
    ∃ err rest, readDERPFrame incoming = (.error (.stream err), rest) := by
  have hpos : 0 < missing.length := length_pos_of_ne_nil hmissing
  have hlength := congrArg List.length hbytes
  rw [length_append, f.length_bytes] at hlength
  unfold readDERPFrame
  by_cases hshort : (streamBytes incoming).length < 5
  · obtain ⟨rest, hheader, -⟩ := readFull_short hunbroken hshort
    rw [hheader]
    exact ⟨_, rest, rfl⟩
  · have hfive : (f.frameType :: ofNat 4 f.payload.length).length = 5 := by
      rw [length_cons, length_ofNat]
    obtain ⟨part, hpart⟩ : ∃ part, streamBytes incoming =
        (f.frameType :: ofNat 4 f.payload.length) ++ part := by
      refine ⟨(streamBytes incoming).drop 5, ?_⟩
      have htake : (streamBytes incoming).take 5 =
          f.frameType :: ofNat 4 f.payload.length := by
        have hwhole : (streamBytes incoming ++ missing).take 5 = (streamBytes incoming).take 5 :=
          take_append_of_le_length (Nat.le_of_not_lt hshort)
        rw [← hwhole, hbytes, DERPFrame.bytes, take_left' hfive]
      rw [← htake, take_append_drop]
    obtain ⟨rest, hheader, hunbroken', hrest⟩ := readFull_unbroken hunbroken hpart
    have hpartial : (streamBytes rest).length < f.payload.length := by
      rw [hrest]
      rw [hpart, length_append, hfive] at hlength
      omega
    obtain ⟨rest', hpayload, -⟩ := readFull_short hunbroken' hpartial
    rw [hfive] at hheader
    simp only [hheader, tail_cons, f.toNat_length, if_neg (Nat.not_lt.mpr f.fits), hpayload]
    exact ⟨_, rest', rfl⟩

/-- A frame that claims to be too long is refused, with its payload unread. -/
theorem readDERPFrame_oversized {frameType : UInt8} {length more : List UInt8}
    (hlength : length.length = 4) (hoversized : derpMaxFrame < toNat length)
    (hbytes : streamBytes incoming = (frameType :: length) ++ more) :
    ∃ rest, readDERPFrame incoming =
        (.error (.message s!"tailnet: oversized DERP frame: {toNat length}"), rest) ∧
      streamBytes rest = more := by
  obtain ⟨rest, hheader, -, hrest⟩ := readFull_unbroken hunbroken hbytes
  rw [length_cons, hlength] at hheader
  refine ⟨rest, ?_, hrest⟩
  unfold readDERPFrame
  simp only [hheader, tail_cons]
  exact if_pos hoversized

/-- At the end of the input there is no frame. -/
theorem readDERPFrame_drained (hbytes : streamBytes incoming = []) :
    ∃ rest, readDERPFrame incoming = (.error (.stream .eof), rest) := by
  have hshort : (streamBytes incoming).length < 5 := by
    rw [hbytes]
    decide
  obtain ⟨rest, hheader, -⟩ := readFull_short hunbroken hshort
  rw [if_pos hbytes] at hheader
  unfold readDERPFrame
  rw [hheader]
  exact ⟨rest, rfl⟩

end

/-- Of the first `m` bytes of frames, the `k` frames that are whole are read, and then an error; if
nothing is missing it is the end of the input. -/
theorem readDERPFrames_take (frames : List DERPFrame) (m : Nat) {incoming : List Incoming}
    (hunbroken : Unbroken incoming)
    (hbytes : streamBytes incoming = (frames.flatMap DERPFrame.bytes).take m) :
    ∃ k err, ((frames.take k).flatMap DERPFrame.bytes).length ≤ m ∧
      (k < frames.length → m < ((frames.take (k + 1)).flatMap DERPFrame.bytes).length) ∧
      (∀ calls, k < calls → readDERPFrames calls incoming =
        ((frames.take k).map DERPFrame.read, some (.stream err))) ∧
      ((frames.flatMap DERPFrame.bytes).length ≤ m → k = frames.length ∧ err = .eof) := by
  induction frames generalizing m incoming with
  | nil =>
    rw [flatMap_nil, take_nil] at hbytes
    obtain ⟨rest, hread⟩ := readDERPFrame_drained hunbroken hbytes
    refine ⟨0, .eof, Nat.zero_le _, nofun, fun calls hcalls => ?_, fun _ => ⟨rfl, rfl⟩⟩
    obtain ⟨calls, rfl⟩ : ∃ n, calls = n + 1 := ⟨calls - 1, by omega⟩
    rw [readDERPFrames, hread]
    rfl
  | cons f frames ih =>
    rw [flatMap_cons] at hbytes
    by_cases hm : m < f.bytes.length
    · rw [take_append_of_le_length hm.le] at hbytes
      have hmissing : f.bytes.drop m ≠ [] := by
        intro hnil
        have := drop_eq_nil_iff.mp hnil
        omega
      obtain ⟨err, rest, hread⟩ := readDERPFrame_short hunbroken f
        (by rw [hbytes, take_append_drop]) hmissing
      refine ⟨0, err, Nat.zero_le _, fun _ => ?_, fun calls hcalls => ?_, fun hall => ?_⟩
      · simpa using hm
      · obtain ⟨calls, rfl⟩ : ∃ n, calls = n + 1 := ⟨calls - 1, by omega⟩
        rw [readDERPFrames, hread]
        rfl
      · rw [flatMap_cons, length_append] at hall
        omega
    · rw [take_append, take_of_length_le (Nat.le_of_not_lt hm)] at hbytes
      obtain ⟨rest, hread, hunbroken', hbytes'⟩ := readDERPFrame_bytes hunbroken f hbytes
      obtain ⟨k, err, hfirst, hnext, hcalls, hwhole⟩ := ih (m - f.bytes.length) hunbroken' hbytes'
      refine ⟨k + 1, err, ?_, fun hk => ?_, fun calls hk => ?_, fun hall => ?_⟩
      · rw [take_succ_cons, flatMap_cons, length_append]
        omega
      · have := hnext (Nat.lt_of_succ_lt_succ hk)
        rw [take_succ_cons, flatMap_cons, length_append]
        omega
      · obtain ⟨calls, rfl⟩ : ∃ n, calls = n + 1 := ⟨calls - 1, by omega⟩
        rw [readDERPFrames, hread]
        dsimp only
        rw [hcalls calls (by omega), take_succ_cons, map_cons]
      · rw [flatMap_cons, length_append] at hall
        obtain ⟨rfl, rfl⟩ := hwhole (by omega)
        exact ⟨rfl, rfl⟩

/-- The stream that delivers the given segments. -/
def delivered (segments : List (List UInt8)) : List Incoming := segments.map .data

theorem unbroken_delivered (segments : List (List UInt8)) : Unbroken (delivered segments) := by
  intro err h
  obtain ⟨_, -, heq⟩ := mem_map.mp h
  cases heq

theorem streamBytes_delivered (segments : List (List UInt8)) :
    streamBytes (delivered segments) = segments.flatten := by
  induction segments with
  | nil => rfl
  | cons segment segments ih =>
    rw [flatten_cons, ← ih]
    rfl

/-- For every sequence of frames: they are written, and wherever their bytes end and however they
are cut into segments, repeated `readDERPFrame` returns the frames that arrived whole and then an
error, which is the end of the input if they are all there. A frame whose length field is above
the limit is refused with the payload left in the connection. What `send` writes for a destination
and a packet of up to 64 KiB fits in a frame, and by the rule of `readLoop` it is that destination
and that packet. -/
theorem derp_framing :
    (∀ frames : List DERPFrame, ∃ bytes,
      frames.foldlM (fun written f => writeDERPFrame written f.frameType f.payload) [] =
        .ok bytes ∧
      ∀ m segments, segments.flatten = bytes.take m →
        ∃ k err, ((frames.take k).flatMap DERPFrame.bytes).length ≤ m ∧
          (k < frames.length → m < ((frames.take (k + 1)).flatMap DERPFrame.bytes).length) ∧
          (∀ calls, k < calls → readDERPFrames calls (delivered segments) =
            ((frames.take k).map DERPFrame.read, some (.stream err))) ∧
          (bytes.length ≤ m → k = frames.length ∧ err = .eof)) ∧
    (∀ frameType length more segments, length.length = 4 → derpMaxFrame < toNat length →
      segments.flatten = (frameType :: length) ++ more →
      ∃ rest, readDERPFrame (delivered segments) =
          (.error (.message s!"tailnet: oversized DERP frame: {toNat length}"), rest) ∧
        streamBytes rest = more) ∧
    ∀ destination packet, packet.length ≤ 64 * 2 ^ 10 →
      ∃ payload, derpSendPayload destination packet = .ok payload ∧
        payload.length ≤ derpMaxFrame ∧
        derpAction derpFrameRecv payload = .onPacket destination packet := by
  refine ⟨fun frames => ⟨frames.flatMap DERPFrame.bytes, ?_, fun m segments hsegments => ?_⟩,
    fun frameType length more segments hlength hoversized hsegments => ?_,
    fun destination packet hpacket => ⟨destination.bytes ++ packet, ?_, ?_, ?_⟩⟩
  · exact foldlM_writeDERPFrame frames []
  · exact readDERPFrames_take frames m (unbroken_delivered segments)
      ((streamBytes_delivered segments).trans hsegments)
  · exact readDERPFrame_oversized (unbroken_delivered segments) hlength hoversized
      ((streamBytes_delivered segments).trans hsegments)
  · exact if_neg (Nat.not_lt.mpr hpacket)
  · rw [length_append, destination.length_bytes]
    unfold derpMaxFrame
    omega
  · have hlong : ¬ (destination.bytes ++ packet).length < 32 := by
      rw [length_append, destination.length_bytes]
      omega
    rw [derpAction, if_pos rfl, if_neg hlong, take_left' destination.length_bytes,
      drop_left' destination.length_bytes, destination.ofBytes_bytes]

end WgoTailscale
