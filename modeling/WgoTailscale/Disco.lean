import WgoTailscale.Stun
import WgoTailscale.Sections
import WgoTailscale.Lib.IdealAead

/-!
# DISCO packets (`disco.go`)

`handleDisco` on the bytes of a packet, and the CallMeMaybe message of `probePeer`. A slice out of
range, or a loop that does not end, would make the model return `none`; it never does. What a packet
can do is one table (`handleDiscoPacket_cases`). The endpoints of a CallMeMaybe message are read
back in order (`callMe_roundTrip`).
-/

namespace WgoTailscale

open Bytes List

/-! ## The format -/

/-- `discoMagic`, the UTF-8 bytes of "TS" and U+1F4AC. -/
def discoMagic : List UInt8 := [0x54, 0x53, 0xf0, 0x9f, 0x92, 0xac]

/-- `discoHeaderLen`. -/
def discoHeaderLen : Nat := discoMagic.length + 32

/-- `discoPing`. -/
def discoPing : UInt8 := 1

/-- `discoPong`. -/
def discoPong : UInt8 := 2

/-- `discoCallMe`. -/
def discoCallMe : UInt8 := 3

/-- `discoVersion`. -/
def discoVersion : UInt8 := 0

/-- `discoEndpoint`, the length of an endpoint in a message. -/
def discoEndpoint : Nat := 16 + 2

/-- `maxCallMeMaybeEndpoints`. -/
def maxCallMeMaybeEndpoints : Nat := 256

/-- An endpoint in a message. -/
def AddrPort.discoBytes (a : AddrPort) : List UInt8 := a.addr.as16 ++ ofNat 2 a.port.toNat

/-! ## Boxes -/

/-- The bind's private discovery key, `box.Precompute`, and the boxes that anyone has sealed. -/
structure DiscoBox where
  discoPrivate : PrivateKey
  precompute : (peersPublicKey privateKey : BitVec 256) → BitVec 256
  log : List (Sealed (BitVec 256) (List UInt8))

namespace DiscoBox

/-- `DiscoShared` of the bind's key and a peer's. -/
def shared (box : DiscoBox) (peer : DiscoPublic) : BitVec 256 :=
  box.precompute peer.raw box.discoPrivate.raw

/-- `OpenDisco`: the nonce is in front of the box, and only what was sealed can be opened. -/
def openDisco (box : DiscoBox) (shared : BitVec 256) (ciphertext : List UInt8) :
    Option (List UInt8) :=
  if ciphertext.length < 24 then none
  else openSealed box.log shared (ciphertext.take 24) (ciphertext.drop 24)

/-- A text was sealed under the key that the bind shares with a peer. -/
def SealedFor (box : DiscoBox) (peer : DiscoPublic) (cleartext : List UInt8) : Prop :=
  ∃ r ∈ box.log, r.key = box.shared peer ∧ r.plain = cleartext

theorem sealedFor_of_openDisco {box : DiscoBox} {peer : DiscoPublic}
    {ciphertext cleartext : List UInt8}
    (h : box.openDisco (box.shared peer) ciphertext = some cleartext) :
    box.SealedFor peer cleartext := by
  unfold openDisco at h
  split at h
  · cases h
  · obtain ⟨r, hr, hkey, -, hplain⟩ := mem_of_openSealed h
    exact ⟨r, hr, hkey, hplain⟩

end DiscoBox

/-! ## `handleDisco` -/

/-- What `handleDisco` does with a packet: is it consumed, the bind afterwards, the path that is
emitted, the cleartext of the pong that is sent and its destination, the transaction whose pong was
taken, and is the peer probed? -/
structure DiscoHandled where
  consumed : Bool
  bind : Bind
  emitted : Option PathUpdate := none
  reply : Option (List UInt8 × AddrPort) := none
  answered : Option TxID := none
  probes : Bool := false

/-- The endpoints that `handleDisco` takes from a CallMeMaybe message. -/
def callMeAccepts (a : AddrPort) : Bool :=
  a.addr.isValid && !a.addr.isUnspecified && !a.addr.isMulticast && !a.addr.isLoopback &&
    !a.addr.isLinkLocalUnicast && a.port != 0

/-- The loop of `handleDisco` over the endpoints of a CallMeMaybe message; `fuel` bounds its
rounds. -/
def callMeEndpoints : (fuel : Nat) → List AddrPort → List UInt8 → Option (List AddrPort)
  | 0, _, _ => none
  | fuel + 1, fresh, data => do
    if data.length < discoEndpoint then return fresh
    if maxCallMeMaybeEndpoints ≤ fresh.length then return fresh
    let addr := (addrFrom16 (← slice data 0 16)).unmap
    let port := UInt16.ofNat (← number 2 (← slice data 16 18))
    let fresh := if callMeAccepts ⟨addr, port⟩ then fresh ++ [⟨addr, port⟩] else fresh
    callMeEndpoints fuel fresh (← slice data discoEndpoint data.length)

/-- The endpoints of a CallMeMaybe message, nothing if its length is wrong. -/
def decodeCallMe (cleartext : List UInt8) : Option (Option (List AddrPort)) := do
  if cleartext.length ≤ 2 ∨ (cleartext.length - 2) % discoEndpoint ≠ 0 then return none
  let data ← slice cleartext 2 cleartext.length
  return some (← callMeEndpoints (data.length + 1) [] data)

namespace Bind

/-- `setDirect` with the path that it emits. -/
def provePath (b : Bind) (node : NodePublic) (source : AddrPort) (latency : Duration) (now : Time) :
    Bind × Option PathUpdate :=
  let (b, changed) := b.setDirect node source latency now
  (b, if changed then some ⟨node, "direct", unmapAddrPort source, latency, now⟩ else none)

/-- A ping proves the path it came by, and is answered. -/
def takePing (b : Bind) (node : NodePublic) (tx : List UInt8) (source : AddrPort) (now : Time) :
    DiscoHandled :=
  let (b, emitted) := b.provePath node source 0 now
  { consumed := true, bind := b, emitted
    reply := some ([discoPong, discoVersion] ++ tx ++ source.discoBytes, source) }

/-- A pong takes its transaction, and proves the path it came by if it is the peer's. -/
def takePong (b : Bind) (node : NodePublic) (tx : TxID) (source : AddrPort) (received now : Time) :
    DiscoHandled :=
  match b.pending.get tx with
  | none => { consumed := true, bind := b }
  | some pending =>
    let b := { b with pending := b.pending.erase tx }
    if pending.node = node then
      let (b, emitted) := b.provePath node source (received - pending.sent) now
      { consumed := true, bind := b, emitted, answered := some tx }
    else { consumed := true, bind := b }

/-- The endpoints of a CallMeMaybe message are learned, and probed if there are new ones. -/
def takeCallMe (b : Bind) (node : NodePublic) (fresh : List AddrPort) (received now : Time) :
    DiscoHandled :=
  if fresh = [] then { consumed := true, bind := b }
  else
    let (b, changed) := b.addLearnedCandidates node fresh received
    if changed then
      let (b, probes) := b.probePeer node now
      { consumed := true, bind := b, probes }
    else { consumed := true, bind := b }

/-- `handleDisco` on the opened text of a packet from a node. -/
def handleDiscoText (b : Bind) (node : NodePublic) (cleartext : List UInt8) (source : AddrPort)
    (viaDERP : Bool) (received now : Time) : Option DiscoHandled := do
  if cleartext.length < 2 then return { consumed := true, bind := b }
  if (← index cleartext 1) ≠ discoVersion then return { consumed := true, bind := b }
  let kind ← index cleartext 0
  if kind = discoPing then
    if cleartext.length < 14 ∨ viaDERP ∨ ¬ source.isValid then
      return { consumed := true, bind := b }
    let claimed ← if 46 ≤ cleartext.length then
        (slice cleartext 14 46).map fun raw => some (NodePublic.ofBytes raw)
      else pure none
    if claimed.any fun key => key ≠ node then return { consumed := true, bind := b }
    return b.takePing node (← slice cleartext 2 14) source now
  else if kind = discoPong then
    if cleartext.length < 32 ∨ viaDERP ∨ ¬ source.isValid then
      return { consumed := true, bind := b }
    return b.takePong node (TxID.ofBytes (← slice cleartext 2 14)) source received now
  else if kind = discoCallMe then
    if ¬ viaDERP then return { consumed := true, bind := b }
    match ← decodeCallMe cleartext with
    | none => return { consumed := true, bind := b }
    | some fresh => return b.takeCallMe node fresh received now
  else return { consumed := true, bind := b }

/-- `handleDisco` on the bytes of a packet. The clock is read twice, first for the latency of a pong
and for what a CallMeMaybe message tells. -/
def handleDiscoPacket (b : Bind) (box : DiscoBox) (packet : List UInt8) (source : AddrPort)
    (derpSource : NodePublic) (viaDERP : Bool) (received now : Time) : Option DiscoHandled := do
  if b.cfg.disableDiscovery then return { consumed := false, bind := b }
  if packet.length < discoHeaderLen + 24 then return { consumed := false, bind := b }
  if (← slice packet 0 discoMagic.length) ≠ discoMagic then
    return { consumed := false, bind := b }
  let sender := DiscoPublic.ofBytes (← slice packet discoMagic.length discoHeaderLen)
  match b.discoNode sender (if viaDERP then some derpSource else none) with
  | none => return { consumed := true, bind := b }
  | some node =>
    match box.openDisco (box.shared sender) (← slice packet discoHeaderLen packet.length) with
    | none => return { consumed := true, bind := b }
    | some cleartext => b.handleDiscoText node cleartext source viaDERP received now

end Bind

/-! ## CallMeMaybe messages -/

/-- The loop of `probePeer` that writes the CallMeMaybe message. -/
def callMePayload (localEndpoints : List EndpointCandidate) : List UInt8 :=
  localEndpoints.foldl (fun payload endpoint =>
    if ¬ endpoint.addr.isValid then payload else payload ++ endpoint.addr.discoBytes)
    [discoCallMe, discoVersion]

/-- An endpoint as a CallMeMaybe message carries it. -/
def callMeEndpoint (a : AddrPort) : AddrPort := ⟨a.addr.unmap.withoutZone, a.port⟩

/-- The endpoint that a round of the loop reads. -/
def callMeEntry (data : List UInt8) : AddrPort :=
  ⟨(addrFrom16 (data.take 16)).unmap, UInt16.ofNat (toNat ((data.take 18).drop 16))⟩

/-- A round of the loop. -/
theorem callMeEndpoints_succ (fuel : Nat) (fresh : List AddrPort) (data : List UInt8) :
    callMeEndpoints (fuel + 1) fresh data =
      if data.length < discoEndpoint ∨ maxCallMeMaybeEndpoints ≤ fresh.length then some fresh
      else callMeEndpoints fuel
        (fresh ++ [callMeEntry data].filter callMeAccepts) (data.drop discoEndpoint) := by
  rw [callMeEndpoints]
  by_cases hshort : data.length < discoEndpoint
  · rw [if_pos hshort, if_pos (.inl hshort)]
    rfl
  · rw [if_neg hshort]
    by_cases hfull : maxCallMeMaybeEndpoints ≤ fresh.length
    · rw [if_pos hfull, if_pos (.inr hfull)]
      rfl
    · have hlength : 18 ≤ data.length := Nat.le_of_not_lt hshort
      have hport : ((data.take 18).drop 16).length = 2 := by
        rw [length_drop, length_take, Nat.min_eq_left hlength]
      rw [if_neg hfull, if_neg (not_or.mpr ⟨hshort, hfull⟩),
        slice_eq (Nat.zero_le _) (show 16 ≤ data.length by omega),
        slice_eq (show 16 ≤ 18 by omega) hlength,
        slice_eq (show discoEndpoint ≤ data.length from hlength) (Nat.le_refl _)]
      simp only [Option.bind_eq_bind, Option.bind_some, number_of_length hport,
        drop_zero, take_length]
      change callMeEndpoints fuel (if callMeAccepts (callMeEntry data) then
        fresh ++ [callMeEntry data] else fresh) _ = _
      by_cases haccepted : callMeAccepts (callMeEntry data)
      · rw [if_pos haccepted, filter_cons_of_pos haccepted, filter_nil]
      · rw [if_neg haccepted, filter_cons_of_neg haccepted, filter_nil, append_nil]

/-- The loop ends. -/
theorem exists_callMeEndpoints {fuel : Nat} (fresh : List AddrPort) {data : List UInt8}
    (h : data.length < fuel) : ∃ found, callMeEndpoints fuel fresh data = some found := by
  induction fuel generalizing fresh data with
  | zero => omega
  | succ fuel ih =>
    rw [callMeEndpoints_succ]
    split
    · exact ⟨fresh, rfl⟩
    · next hgo =>
      apply ih
      have : 18 ≤ data.length := Nat.le_of_not_lt (not_or.mp hgo).1
      rw [length_drop]
      change data.length - 18 < fuel
      omega

/-- Only a message of the right length is decoded. -/
theorem exists_decodeCallMe (cleartext : List UInt8) :
    ∃ found, decodeCallMe cleartext = some found ∧
      (found.isSome → ∃ n, cleartext.length = 2 + discoEndpoint * n) := by
  unfold decodeCallMe
  split
  · exact ⟨none, rfl, nofun⟩
  · next hlength =>
    rw [not_or, not_not, not_le] at hlength
    obtain ⟨data, hdata, -⟩ : ∃ a, slice cleartext 2 cleartext.length = some a ∧
        a.length = cleartext.length - 2 := exists_slice hlength.1.le (Nat.le_refl _)
    obtain ⟨found, hfound⟩ := exists_callMeEndpoints [] (Nat.lt_succ_self data.length)
    simp only [hdata, Option.bind_eq_bind, Option.bind_some, hfound]
    refine ⟨some found, rfl, fun _ => ⟨(cleartext.length - 2) / discoEndpoint, ?_⟩⟩
    have := Nat.div_add_mod (cleartext.length - 2) discoEndpoint
    omega

theorem AddrPort.length_discoBytes (a : AddrPort) : a.discoBytes.length = discoEndpoint := by
  rw [discoBytes, length_append, Addr.length_as16, length_ofNat]
  rfl

/-- A round of the loop on an endpoint that was written. -/
theorem callMeEntry_discoBytes {a : AddrPort} (h : a.isValid = true) (data : List UInt8) :
    callMeEntry (a.discoBytes ++ data) = callMeEndpoint a := by
  have haddr : (a.discoBytes ++ data).take 16 = a.addr.as16 := by
    rw [AddrPort.discoBytes, append_assoc]
    exact take_left' a.addr.length_as16
  have hport : ((a.discoBytes ++ data).take 18).drop 16 = ofNat 2 a.port.toNat := by
    rw [AddrPort.discoBytes, append_assoc]
    exact drop_take_append a.addr.length_as16.symm
      (by rw [a.addr.length_as16, length_ofNat])
  unfold callMeEntry callMeEndpoint
  rw [haddr, hport, Addr.unmap_addrFrom16_as16 h, toNat_ofNat_of_lt a.port.toNat_lt,
    UInt16.ofNat_toNat]

/-- The loop reads what was written. -/
theorem callMeEndpoints_flatMap {addrs : List AddrPort} (h : ∀ a ∈ addrs, a.isValid = true)
    {fuel : Nat} (hfuel : addrs.length < fuel) {fresh : List AddrPort}
    (hfresh : fresh.length ≤ maxCallMeMaybeEndpoints) :
    callMeEndpoints fuel fresh (addrs.flatMap AddrPort.discoBytes) =
      some ((fresh ++ (addrs.map callMeEndpoint).filter callMeAccepts).take
        maxCallMeMaybeEndpoints) := by
  induction addrs generalizing fuel fresh with
  | nil =>
    obtain ⟨fuel, rfl⟩ : ∃ n, fuel = n + 1 := ⟨fuel - 1, by omega⟩
    rw [callMeEndpoints_succ, if_pos (.inl (by decide))]
    simp only [map_nil, filter_nil, append_nil, take_of_length_le hfresh]
  | cons a addrs ih =>
    obtain ⟨fuel, rfl⟩ : ∃ n, fuel = n + 1 := ⟨fuel - 1, by omega⟩
    have hlength :
        ¬ (a.discoBytes ++ addrs.flatMap AddrPort.discoBytes).length < discoEndpoint := by
      rw [length_append, a.length_discoBytes]
      omega
    rw [callMeEndpoints_succ, flatMap_cons]
    by_cases hfull : maxCallMeMaybeEndpoints ≤ fresh.length
    · rw [if_pos (.inr hfull), take_append_of_le_length hfull,
        take_of_length_le hfresh]
    · rw [if_neg (not_or.mpr ⟨hlength, hfull⟩), callMeEntry_discoBytes (h a mem_cons_self),
        drop_left' a.length_discoBytes,
        ih (fun a ha => h a (mem_cons_of_mem _ ha)) (Nat.lt_of_succ_lt_succ hfuel),
        append_assoc, ← filter_append, map_cons]
      · rfl
      · rw [length_append]
        have : ([callMeEndpoint a].filter callMeAccepts).length ≤ 1 := length_filter_le _ _
        omega

/-- The message has the valid endpoints in order. -/
theorem callMePayload_eq (localEndpoints : List EndpointCandidate) :
    callMePayload localEndpoints = [discoCallMe, discoVersion] ++
      ((localEndpoints.map EndpointCandidate.addr).filter AddrPort.isValid).flatMap
        AddrPort.discoBytes := by
  unfold callMePayload
  generalize [discoCallMe, discoVersion] = payload
  induction localEndpoints generalizing payload with
  | nil => simp
  | cons endpoint localEndpoints ih =>
    rw [foldl_cons, ih, map_cons, filter_cons]
    by_cases hvalid : endpoint.addr.isValid
    · rw [if_neg (not_not.mpr hvalid), if_pos hvalid, flatMap_cons, append_assoc]
    · rw [if_pos hvalid, if_neg hvalid]

theorem length_flatMap_discoBytes (addrs : List AddrPort) :
    (addrs.flatMap AddrPort.discoBytes).length = discoEndpoint * addrs.length := by
  induction addrs with
  | nil => rfl
  | cons a addrs ih =>
    rw [flatMap_cons, length_append, a.length_discoBytes, ih, length_cons,
      Nat.mul_succ, Nat.add_comm]

/-- For every list of local endpoints, what `handleDisco` decodes from the CallMeMaybe message that
`probePeer` writes is the first 256 of the valid ones, unmapped and without zones, that are not
unspecified, multicast, loopback or link-local and have a port; a message without endpoints is not
decoded. What is decoded has the length of a whole number of endpoints. -/
theorem callMe_roundTrip :
    (∀ localEndpoints, ∃ found, decodeCallMe (callMePayload localEndpoints) = some found ∧
      found.getD [] = ((((localEndpoints.map EndpointCandidate.addr).filter AddrPort.isValid).map
        callMeEndpoint).filter callMeAccepts).take 256) ∧
    ∀ cleartext fresh, decodeCallMe cleartext = some (some fresh) →
      ∃ n, cleartext.length = 2 + 18 * n := by
  constructor
  · intro localEndpoints
    rw [callMePayload_eq]
    generalize haddrs : (localEndpoints.map EndpointCandidate.addr).filter AddrPort.isValid = addrs
    have hvalid : ∀ a ∈ addrs, a.isValid = true := by
      intro a ha
      rw [← haddrs] at ha
      exact (mem_filter.mp ha).2
    have hlength : ([discoCallMe, discoVersion] ++ addrs.flatMap AddrPort.discoBytes).length =
        2 + discoEndpoint * addrs.length := by
      rw [length_append, length_flatMap_discoBytes]
      rfl
    unfold decodeCallMe
    rw [hlength, Nat.add_sub_cancel_left, Nat.mul_mod_right]
    by_cases hnone : addrs = []
    · subst hnone
      rw [if_pos (.inl (Nat.le_refl 2))]
      exact ⟨none, rfl, rfl⟩
    · have hpos : 0 < addrs.length := length_pos_of_ne_nil hnone
      have hsome : 0 < discoEndpoint * addrs.length := Nat.mul_pos (by decide) hpos
      rw [if_neg (by omega), ← hlength, slice_eq (by omega) (Nat.le_refl _), take_length]
      simp only [Option.bind_eq_bind, Option.bind_some]
      change ∃ found, Option.bind (callMeEndpoints
        ((addrs.flatMap AddrPort.discoBytes).length + 1) [] (addrs.flatMap AddrPort.discoBytes))
        (fun found => some (some found)) = some found ∧ _
      rw [callMeEndpoints_flatMap hvalid]
      · exact ⟨_, rfl, rfl⟩
      · rw [length_flatMap_discoBytes]
        have : addrs.length ≤ discoEndpoint * addrs.length := Nat.le_mul_of_pos_left _ (by decide)
        omega
      · exact Nat.zero_le _
  · intro cleartext fresh h
    obtain ⟨found, hfound, hlength⟩ := exists_decodeCallMe cleartext
    cases hfound.symm.trans h
    exact hlength rfl

/-! ## What a packet can do -/

/-- What is recognised as a DISCO packet. -/
def IsDisco (packet : List UInt8) : Prop :=
  discoHeaderLen + 24 ≤ packet.length ∧ packet.take discoMagic.length = discoMagic

instance (packet : List UInt8) : Decidable (IsDisco packet) := inferInstanceAs (Decidable (_ ∧ _))

/-- The sender of a packet. -/
def discoSender (packet : List UInt8) : DiscoPublic :=
  .ofBytes ((packet.take discoHeaderLen).drop discoMagic.length)

/-- The transaction of a ping or a pong. -/
def discoTx (cleartext : List UInt8) : List UInt8 := (cleartext.take 14).drop 2

/-- What the text of a packet from a node can do, with the conditions that are checked. -/
inductive DiscoActs (b : Bind) (node : NodePublic) (cleartext : List UInt8) (source : AddrPort)
    (viaDERP : Bool) (received now : Time) : DiscoHandled → Prop
  | ignored : DiscoActs b node cleartext source viaDERP received now { consumed := true, bind := b }
  | ping : cleartext[0]? = some discoPing → cleartext[1]? = some discoVersion → viaDERP = false →
      source.isValid = true →
      (46 ≤ cleartext.length → NodePublic.ofBytes ((cleartext.take 46).drop 14) = node) →
      DiscoActs b node cleartext source viaDERP received now
        (b.takePing node (discoTx cleartext) source now)
  | pong : cleartext[0]? = some discoPong → cleartext[1]? = some discoVersion → viaDERP = false →
      source.isValid = true →
      DiscoActs b node cleartext source viaDERP received now
        (b.takePong node (.ofBytes (discoTx cleartext)) source received now)
  | callMe {fresh : List AddrPort} : cleartext[0]? = some discoCallMe →
      cleartext[1]? = some discoVersion → viaDERP = true →
      decodeCallMe cleartext = some (some fresh) →
      DiscoActs b node cleartext source viaDERP received now (b.takeCallMe node fresh received now)

section
variable (b : Bind) (node : NodePublic) (source : AddrPort) (viaDERP : Bool) (received now : Time)

theorem DiscoActs.consumed {b : Bind} {node : NodePublic} {cleartext : List UInt8}
    {source : AddrPort} {viaDERP : Bool} {received now : Time} {r : DiscoHandled}
    (h : DiscoActs b node cleartext source viaDERP received now r) : r.consumed = true := by
  cases h with
  | ignored => rfl
  | ping => rfl
  | pong =>
    unfold Bind.takePong
    repeat' split
    all_goals rfl
  | callMe =>
    unfold Bind.takeCallMe
    repeat' split
    all_goals rfl

theorem handleDiscoText_cases (cleartext : List UInt8) :
    ∃ r, b.handleDiscoText node cleartext source viaDERP received now = some r ∧
      DiscoActs b node cleartext source viaDERP received now r := by
  unfold Bind.handleDiscoText
  by_cases hshort : cleartext.length < 2
  · rw [if_pos hshort]
    exact ⟨_, rfl, .ignored⟩
  obtain ⟨kind, hkind⟩ : ∃ byte, index cleartext 0 = some byte :=
    exists_index (by omega)
  obtain ⟨version, hversion⟩ : ∃ byte, index cleartext 1 = some byte :=
    exists_index (by omega)
  simp only [if_neg hshort, hversion, hkind, Option.bind_eq_bind, Option.bind_some]
  by_cases hv : version = discoVersion
  · subst hv
    rw [if_neg (not_not.mpr rfl)]
    split
    · next hping =>
      subst hping
      split
      · exact ⟨_, rfl, .ignored⟩
      · next hok =>
        simp only [not_or, Bool.not_eq_true, Bool.not_eq_false] at hok
        obtain ⟨hlength, hudp, hvalid⟩ := hok
        have htx : slice cleartext 2 14 = some (discoTx cleartext) :=
          slice_eq (by omega) (by omega)
        by_cases hlong : 46 ≤ cleartext.length
        · rw [if_pos hlong, slice_eq (by omega) hlong]
          simp only [Option.map_some, Option.bind_some, Option.any_some, decide_eq_true_eq]
          split
          · exact ⟨_, rfl, .ignored⟩
          · next hclaimed =>
            rw [htx]
            exact ⟨_, rfl, .ping hkind hversion hudp hvalid fun _ => not_not.mp hclaimed⟩
        · rw [if_neg hlong, htx]
          exact ⟨_, rfl, .ping hkind hversion hudp hvalid fun h => absurd h hlong⟩
    · split
      · next hpong =>
        subst hpong
        split
        · exact ⟨_, rfl, .ignored⟩
        · next hok =>
          simp only [not_or, Bool.not_eq_true, Bool.not_eq_false] at hok
          obtain ⟨hlength, hudp, hvalid⟩ := hok
          have htx : slice cleartext 2 14 = some (discoTx cleartext) :=
            slice_eq (by omega) (by omega)
          rw [htx]
          exact ⟨_, rfl, .pong hkind hversion hudp hvalid⟩
      · split
        · next hcallMe =>
          subst hcallMe
          split
          · exact ⟨_, rfl, .ignored⟩
          · next hderp =>
            obtain ⟨found, hfound, -⟩ := exists_decodeCallMe cleartext
            rw [hfound]
            cases found with
            | none => exact ⟨_, rfl, .ignored⟩
            | some fresh => exact ⟨_, rfl, .callMe hkind hversion (not_not.mp hderp) hfound⟩
        · exact ⟨_, rfl, .ignored⟩
  · rw [if_pos hv]
    exact ⟨_, rfl, .ignored⟩

variable (box : DiscoBox) (derpSource : NodePublic)

/-- A packet is not recognised, or it is consumed: it comes to nothing, or its text acts for the
node of its sender. -/
theorem handleDiscoPacket_cases (packet : List UInt8) :
    ∃ r, b.handleDiscoPacket box packet source derpSource viaDERP received now = some r ∧
      (r.consumed = true ↔ b.cfg.disableDiscovery = false ∧ IsDisco packet) ∧
      (r.bind = b ∧ r.emitted = none ∧ r.answered = none ∨
        ∃ node cleartext, b.cfg.disableDiscovery = false ∧
          b.discoNode (discoSender packet) (if viaDERP then some derpSource else none) = some node ∧
          box.openDisco (box.shared (discoSender packet)) (packet.drop discoHeaderLen) =
            some cleartext ∧
          DiscoActs b node cleartext source viaDERP received now r) := by
  unfold Bind.handleDiscoPacket
  by_cases hdisabled : b.cfg.disableDiscovery
  · rw [if_pos hdisabled]
    exact ⟨_, rfl, by simp [hdisabled], .inl ⟨rfl, rfl, rfl⟩⟩
  rw [if_neg hdisabled]
  rw [Bool.not_eq_true] at hdisabled
  by_cases hshort : packet.length < discoHeaderLen + 24
  · rw [if_pos hshort]
    exact ⟨_, rfl, by simp [IsDisco, hshort], .inl ⟨rfl, rfl, rfl⟩⟩
  have hheader : discoHeaderLen ≤ packet.length := by omega
  have hmagicLen : discoMagic.length ≤ discoHeaderLen := by decide
  rw [if_neg hshort, slice_eq (Nat.zero_le _) (hmagicLen.trans hheader),
    slice_eq hmagicLen hheader, slice_eq hheader (Nat.le_refl _)]
  simp only [Option.bind_eq_bind, Option.bind_some, drop_zero, take_length]
  by_cases hmagic : packet.take discoMagic.length = discoMagic
  · have hdisco : IsDisco packet := ⟨by omega, hmagic⟩
    rw [if_neg (not_not.mpr hmagic)]
    change ∃ r, (match b.discoNode (discoSender packet) _ with
      | none => _
      | some node => _) = some r ∧ _
    cases hnode : b.discoNode (discoSender packet) (if viaDERP then some derpSource else none) with
    | none => exact ⟨_, rfl, by simp [hdisabled, hdisco], .inl ⟨rfl, rfl, rfl⟩⟩
    | some node =>
      change ∃ r, (match box.openDisco (box.shared (discoSender packet)) _ with
        | none => _
        | some cleartext => _) = some r ∧ _
      cases hopen : box.openDisco (box.shared (discoSender packet))
          (packet.drop discoHeaderLen) with
      | none => exact ⟨_, rfl, by simp [hdisabled, hdisco], .inl ⟨rfl, rfl, rfl⟩⟩
      | some cleartext =>
        obtain ⟨r, hr, hacts⟩ :=
          handleDiscoText_cases b node source viaDERP received now cleartext
        refine ⟨r, hr, ?_, .inr ⟨node, cleartext, hdisabled, rfl, rfl, hacts⟩⟩
        simp [hdisabled, hdisco, hacts.consumed]
  · rw [if_pos hmagic]
    exact ⟨_, rfl, by simp [IsDisco, hmagic], .inl ⟨rfl, rfl, rfl⟩⟩

end

end WgoTailscale
