import WgoTailscale.Candidates
import WgoTailscale.Wire

/-!
# STUN responses (`stun.go`)

`handleSTUN` on the bytes of a datagram. A slice out of range, or a loop that does not end, would
make the model return `none`; it never does. A response is credited to its transaction once, what it
adds can be sent to, and a response made as RFC 5389 says is read back (`stun_response_handling`).
-/

namespace WgoTailscale

open Bytes List

/-! ## `handleSTUN` -/

/-- `stunBindingResponse`. -/
def stunBindingResponse : Nat := 0x0101

/-- `stunMappedAddress`. -/
def stunMappedAddress : Nat := 0x0001

/-- `stunXORMapped`. -/
def stunXORMapped : Nat := 0x0020

/-- `stunCookie`. -/
def stunCookie : Nat := 0x2112a442

/-- The mask of an address: the bytes of the cookie, followed by the transaction id. -/
def stunMask (tx : List UInt8) : List UInt8 := [0x21, 0x12, 0xa4, 0x42] ++ tx

/-- `parseSTUNAddress`. -/
def parseSTUNAddress (value : List UInt8) (xor : Bool) (tx : List UInt8) : Option AddrPort := do
  if value.length < 4 then return .zero
  if (← index value 0) ≠ 0 then return .zero
  let port := UInt16.ofNat (← number 2 (← slice value 2 4))
  let port := if xor then port ^^^ UInt16.ofNat (stunCookie / 2 ^ 16) else port
  let family ← index value 1
  if family = 1 then
    if value.length < 8 then return .zero
    let raw ← slice value 4 8
    let raw := if xor then Bytes.xor raw (stunMask []) else raw
    return ⟨addrFrom4 raw, port⟩
  else if family = 2 then
    if value.length < 20 then return .zero
    let raw ← slice value 4 20
    let raw := if xor then Bytes.xor raw (stunMask tx) else raw
    return ⟨(addrFrom16 raw).unmap, port⟩
  else return .zero

/-- The loop of `handleSTUN` over the attributes; `fuel` bounds its rounds. -/
def stunAttributes (tx : List UInt8) : (fuel : Nat) → AddrPort → List UInt8 → Option AddrPort
  | 0, _, _ => none
  | fuel + 1, mapped, attrs => do
    if attrs.length < 4 then return mapped
    let typeID ← number 2 (← slice attrs 0 2)
    let length ← number 2 (← slice attrs 2 4)
    if attrs.length < 4 + length then return mapped
    let value ← slice attrs 4 (4 + length)
    let mapped ← if typeID = stunXORMapped ∨ typeID = stunMappedAddress then
        parseSTUNAddress value (typeID = stunXORMapped) tx
      else pure mapped
    if (typeID = stunXORMapped ∨ typeID = stunMappedAddress) ∧ mapped.isValid then return mapped
    let padded := (length + 3) / 4 * 4
    if attrs.length < 4 + padded then return mapped
    stunAttributes tx fuel mapped (← slice attrs (4 + padded) attrs.length)

/-- What `handleSTUN` does with a datagram: is it consumed, the bind afterwards, the latency that is
recorded for a check and a region, the check whose probe is completed, and is `notifyEndpoints`
called? -/
structure STUNHandled where
  consumed : Bool
  bind : Bind
  latency : Option (Nat × Int × Duration) := none
  completed : Option Nat := none
  notifies : Bool := false

/-- The end of `handleSTUN`, for the probe that is answered and the address that was found. -/
def Bind.creditSTUN (b : Bind) (probe : STUNProbe) (mapped : AddrPort) (received now : Time) :
    STUNHandled :=
  if ¬ mapped.isValid ∨ mapped.addr.isUnspecified ∨ mapped.addr.isMulticast ∨ mapped.port = 0 then
    { consumed := true, bind := b, completed := some probe.checkID }
  else
    { consumed := true, bind := (b.recordSTUN mapped now).1
      latency := some (probe.checkID, probe.regionID, received - probe.sent)
      completed := some probe.checkID
      notifies := (b.recordSTUN mapped now).2 }

/-- `handleSTUN`. `received` and `now` are the times read for the latency and for the endpoint. -/
def Bind.handleSTUN (b : Bind) (packet : List UInt8) (received now : Time) :
    Option STUNHandled := do
  if packet.length < 20 then return { consumed := false, bind := b }
  if (← number 4 (← slice packet 4 8)) ≠ stunCookie then
    return { consumed := false, bind := b }
  let messageLen ← number 2 (← slice packet 2 4)
  if packet.length < 20 + messageLen then return { consumed := true, bind := b }
  if (← number 2 (← slice packet 0 2)) ≠ stunBindingResponse then
    return { consumed := true, bind := b }
  let tx ← slice packet 8 20
  match b.stunPending.get (TxID.ofBytes tx) with
  | none => return { consumed := true, bind := b }
  | some probe =>
    let b := { b with stunPending := b.stunPending.erase (TxID.ofBytes tx) }
    let attrs ← slice packet 20 (20 + messageLen)
    let mapped ← stunAttributes tx (attrs.length + 1) .zero attrs
    return b.creditSTUN probe mapped received now

/-! ## No panic -/

/-- An address that was parsed is unmapped; anything else is the zero value. -/
theorem exists_parseSTUNAddress (value : List UInt8) (xor : Bool) (tx : List UInt8) :
    ∃ mapped, parseSTUNAddress value xor tx = some mapped ∧
      (mapped = .zero ∨ mapped.addr.unmap = mapped.addr) := by
  unfold parseSTUNAddress
  by_cases hshort : value.length < 4
  · rw [if_pos hshort]
    exact ⟨_, rfl, .inl rfl⟩
  · obtain ⟨first, hfirst⟩ : ∃ byte, index value 0 = some byte :=
      exists_index (by omega)
    obtain ⟨family, hfamily⟩ : ∃ byte, index value 1 = some byte :=
      exists_index (by omega)
    obtain ⟨port, hport, hlength⟩ : ∃ a, slice value 2 4 = some a ∧ a.length = 4 - 2 :=
      exists_slice (by omega) (by omega)
    rw [if_neg hshort, hfirst, hfamily, hport]
    simp only [Option.bind_eq_bind, Option.bind_some, number_of_length hlength]
    split
    · exact ⟨_, rfl, .inl rfl⟩
    · split
      · split
        · exact ⟨_, rfl, .inl rfl⟩
        · rw [slice_eq (by omega) (by omega)]
          exact ⟨_, rfl, .inr rfl⟩
      · split
        · split
          · exact ⟨_, rfl, .inl rfl⟩
          · rw [slice_eq (by omega) (by omega)]
            exact ⟨_, rfl, .inr (Addr.unmap_unmap (addrFrom16 _))⟩
        · exact ⟨_, rfl, .inl rfl⟩

/-- One round of the loop, whose slices are all in range. -/
theorem stunAttributes_succ (tx : List UInt8) (fuel : Nat) (mapped : AddrPort)
    (attrs : List UInt8) :
    stunAttributes tx (fuel + 1) mapped attrs =
      if attrs.length < 4 then some mapped
      else
        let typeID := toNat (attrs.take 2)
        let length := toNat ((attrs.take 4).drop 2)
        if attrs.length < 4 + length then some mapped
        else
          let carries := typeID = stunXORMapped ∨ typeID = stunMappedAddress
          (if carries then
            parseSTUNAddress ((attrs.take (4 + length)).drop 4) (typeID = stunXORMapped) tx
          else some mapped).bind fun mapped =>
            if carries ∧ mapped.isValid then some mapped
            else if attrs.length < 4 + (length + 3) / 4 * 4 then some mapped
            else stunAttributes tx fuel mapped (attrs.drop (4 + (length + 3) / 4 * 4)) := by
  rw [stunAttributes]
  by_cases hshort : attrs.length < 4
  · rw [if_pos hshort, if_pos hshort]
    rfl
  · have htype : ((attrs.take 2).drop 0).length = 2 := by
      rw [drop_zero, length_take]
      omega
    have hlength : ((attrs.take 4).drop 2).length = 2 := by
      rw [length_drop, length_take]
      omega
    rw [if_neg hshort, if_neg hshort, slice_eq (by omega) (by omega),
      slice_eq (by omega) (by omega)]
    simp only [Option.bind_eq_bind, Option.bind_some, number_of_length htype,
      number_of_length hlength]
    rw [drop_zero]
    split
    · rfl
    · next hroom =>
      rw [slice_eq (by omega) (by omega)]
      simp only [Option.bind_some]
      -- what follows an attribute is the same for both kinds
      by_cases hcarries : toNat (attrs.take 2) = stunXORMapped ∨
          toNat (attrs.take 2) = stunMappedAddress
      · rw [if_pos hcarries, if_pos hcarries]
        refine congrArg _ (funext fun mapped => ?_)
        split
        · rfl
        · split
          · rfl
          · rw [slice_eq (by omega) (by omega), take_length]
            rfl
      · rw [if_neg hcarries, if_neg hcarries, Option.bind_some]
        simp only [hcarries, false_and, if_false]
        split
        · rfl
        · rw [slice_eq (by omega) (by omega), take_length]
          rfl

variable {mapped : AddrPort}

/-- The loop ends, and finds an unmapped address or none. -/
theorem exists_stunAttributes (tx : List UInt8) {fuel : Nat} {attrs : List UInt8}
    (hfuel : attrs.length < fuel) (hmapped : mapped = .zero ∨ mapped.addr.unmap = mapped.addr) :
    ∃ found, stunAttributes tx fuel mapped attrs = some found ∧
      (found = .zero ∨ found.addr.unmap = found.addr) := by
  induction fuel generalizing mapped attrs with
  | zero => omega
  | succ fuel ih =>
    rw [stunAttributes_succ]
    dsimp only
    split
    · exact ⟨mapped, rfl, hmapped⟩
    · split
      · exact ⟨mapped, rfl, hmapped⟩
      · next hlong hroom =>
        -- the attribute gives an address, or leaves the one there is
        obtain ⟨next, hnext, hunmapped⟩ : ∃ next,
            (if toNat (attrs.take 2) = stunXORMapped ∨
                toNat (attrs.take 2) = stunMappedAddress then
              parseSTUNAddress
                ((attrs.take (4 + toNat ((attrs.take 4).drop 2))).drop 4)
                (toNat (attrs.take 2) = stunXORMapped) tx
            else some mapped) = some next ∧ (next = .zero ∨ next.addr.unmap = next.addr) := by
          split
          · exact exists_parseSTUNAddress _ _ _
          · exact ⟨mapped, rfl, hmapped⟩
        rw [hnext, Option.bind_some]
        split
        · exact ⟨next, rfl, hunmapped⟩
        · split
          · exact ⟨next, rfl, hunmapped⟩
          · refine ih ?_ hunmapped
            rw [length_drop]
            omega

/-! ## What a datagram does -/

/-- The datagram has the cookie in its place. -/
def IsSTUN (packet : List UInt8) : Prop :=
  20 ≤ packet.length ∧ toNat ((packet.take 8).drop 4) = stunCookie

instance (packet : List UInt8) : Decidable (IsSTUN packet) := inferInstanceAs (Decidable (_ ∧ _))

/-- The cookie in bytes. -/
theorem isSTUN_iff {packet : List UInt8} :
    IsSTUN packet ↔ 20 ≤ packet.length ∧ (packet.take 8).drop 4 = stunMask [] := by
  have hcookie : toNat (stunMask []) = stunCookie := by decide
  constructor
  · rintro ⟨hlength, hnumber⟩
    refine ⟨hlength, toNat_inj ?_ (hnumber.trans hcookie.symm)⟩
    rw [length_drop, length_take, Nat.min_eq_left (by omega)]
    rfl
  · rintro ⟨hlength, hbytes⟩
    exact ⟨hlength, by rw [hbytes, hcookie]⟩

/-- The transaction of a datagram. -/
def stunTx (packet : List UInt8) : TxID := TxID.ofBytes ((packet.take 20).drop 8)

/-- The length field of a datagram. -/
def stunLength (packet : List UInt8) : Nat := toNat ((packet.take 4).drop 2)

/-- The datagram is a whole response. -/
def IsResponse (packet : List UInt8) : Prop :=
  20 + stunLength packet ≤ packet.length ∧ toNat (packet.take 2) = stunBindingResponse

instance (packet : List UInt8) : Decidable (IsResponse packet) :=
  inferInstanceAs (Decidable (_ ∧ _))

/-- `handleSTUN`, whose slices are all in range. -/
theorem handleSTUN_eq (b : Bind) (packet : List UInt8) (received now : Time) :
    b.handleSTUN packet received now =
      if ¬ IsSTUN packet then some { consumed := false, bind := b }
      else if ¬ IsResponse packet then some { consumed := true, bind := b }
      else match b.stunPending.get (stunTx packet) with
      | none => some { consumed := true, bind := b }
      | some probe =>
        (stunAttributes ((packet.take 20).drop 8) (stunLength packet + 1) .zero
          ((packet.take (20 + stunLength packet)).drop 20)).map fun mapped =>
            { b with stunPending := b.stunPending.erase (stunTx packet) }.creditSTUN probe mapped
              received now := by
  unfold Bind.handleSTUN
  by_cases hshort : packet.length < 20
  · rw [if_pos hshort, if_pos fun h => by have := h.1; omega]
    rfl
  · have hcookie : ((packet.take 8).drop 4).length = 4 := by
      rw [length_drop, length_take]
      omega
    have hlength : ((packet.take 4).drop 2).length = 2 := by
      rw [length_drop, length_take]
      omega
    have htype : (packet.take 2).length = 2 := by
      rw [length_take]
      omega
    have hfield : toNat ((packet.take 4).drop 2) = stunLength packet := rfl
    have htx : TxID.ofBytes ((packet.take 20).drop 8) = stunTx packet := rfl
    rw [if_neg hshort, slice_eq (by omega) (by omega), slice_eq (by omega) (by omega),
      slice_eq (by omega) (by omega), slice_eq (by omega) (by omega)]
    simp only [Option.bind_eq_bind, Option.bind_some, number_of_length hcookie,
      number_of_length hlength, drop_zero, number_of_length htype, hfield, htx]
    by_cases hstun : IsSTUN packet
    · rw [if_neg (not_not.mpr hstun.2), if_neg (not_not.mpr hstun)]
      by_cases hwhole : packet.length < 20 + stunLength packet
      · rw [if_pos hwhole, if_pos fun h => by have := h.1; omega]
        rfl
      · rw [if_neg hwhole]
        by_cases hresponse : toNat (packet.take 2) = stunBindingResponse
        · have hattrs : ((packet.take (20 + stunLength packet)).drop 20).length =
              stunLength packet := by
            rw [length_drop, length_take]
            omega
          rw [if_neg (not_not.mpr hresponse), if_neg (not_not.mpr ⟨by omega, hresponse⟩)]
          cases b.stunPending.get (stunTx packet) with
          | none => rfl
          | some probe =>
            dsimp only
            rw [slice_eq (by omega) (by omega), Option.bind_some, hattrs]
            exact (Option.map_eq_bind ..).symm
        · rw [if_pos hresponse, if_pos fun h => hresponse h.2]
          rfl
    · rw [if_pos fun h => hstun ⟨by omega, h⟩, if_pos hstun]
      rfl

/-- A datagram that is not a response to an outstanding transaction changes nothing; one that is
answers it. -/
theorem handleSTUN_cases (b : Bind) (packet : List UInt8) (received now : Time) :
    (b.handleSTUN packet received now =
        some { consumed := decide (IsSTUN packet), bind := b } ∧
      (IsSTUN packet → IsResponse packet → stunTx packet ∉ b.stunPending)) ∨
    ∃ probe mapped, IsSTUN packet ∧ IsResponse packet ∧
      b.stunPending.get (stunTx packet) = some probe ∧
      (mapped = .zero ∨ mapped.addr.unmap = mapped.addr) ∧
      b.handleSTUN packet received now =
        some ({ b with stunPending := b.stunPending.erase (stunTx packet) }.creditSTUN probe mapped
          received now) := by
  rw [handleSTUN_eq]
  by_cases hstun : IsSTUN packet
  · rw [if_neg (not_not.mpr hstun), decide_eq_true hstun]
    by_cases hresponse : IsResponse packet
    · rw [if_neg (not_not.mpr hresponse)]
      cases hget : b.stunPending.get (stunTx packet) with
      | none => exact .inl ⟨rfl, fun _ _ => FinMap.not_mem_iff.mpr hget⟩
      | some probe =>
        have hattrs : ((packet.take (20 + stunLength packet)).drop 20).length <
            stunLength packet + 1 := by
          rw [length_drop, length_take]
          omega
        obtain ⟨mapped, hmapped, hunmapped⟩ :=
          exists_stunAttributes ((packet.take 20).drop 8) hattrs (.inl rfl)
        rw [hmapped]
        exact .inr ⟨probe, mapped, hstun, hresponse, rfl, hunmapped, rfl⟩
    · rw [if_pos hresponse]
      exact .inl ⟨rfl, fun _ h => absurd h hresponse⟩
  · rw [if_pos hstun, decide_eq_false hstun]
    exact .inl ⟨rfl, fun h => absurd h hstun⟩

/-- What answering a transaction adds. -/
theorem creditSTUN_spec (b : Bind) (probe : STUNProbe) (received now : Time)
    (hmapped : mapped = .zero ∨ mapped.addr.unmap = mapped.addr) :
    (b.creditSTUN probe mapped received now).consumed = true ∧
      (b.creditSTUN probe mapped received now).bind.stunPending = b.stunPending ∧
      ((b.creditSTUN probe mapped received now).bind.stun = b.stun ∨
        (mapped.Sendable ∧ (b.creditSTUN probe mapped received now).bind.stun =
          b.stun.insert mapped ⟨mapped, .stun⟩)) := by
  unfold Bind.creditSTUN
  split
  · exact ⟨rfl, rfl, .inl rfl⟩
  · next hok =>
    simp only [not_or, Bool.not_eq_true, Bool.not_eq_false] at hok
    obtain ⟨hvalid, hspecified, hunicast, hport⟩ := hok
    refine ⟨rfl, rfl, .inr ⟨⟨?_, hvalid, hspecified, hunicast, hport⟩, rfl⟩⟩
    rcases hmapped with rfl | hunmapped
    · cases hvalid
    · exact hunmapped

/-- An address that can be sent to is recorded. -/
theorem stun_creditSTUN (b : Bind) (probe : STUNProbe) (h : mapped.Sendable) (received now : Time) :
    (b.creditSTUN probe mapped received now).bind.stun =
      b.stun.insert mapped ⟨mapped, .stun⟩ := by
  unfold Bind.creditSTUN
  rw [if_neg]
  · rfl
  · simp [h.valid, h.specified, h.unicast, h.port]

/-! ## Responses as RFC 5389 defines them -/

/-- An attribute, padded to a multiple of four bytes. -/
structure STUNAttribute where
  typeID : UInt16
  value : List UInt8
  padding : List UInt8
  value_lt : value.length < 2 ^ 16
  padded : value.length + padding.length = (value.length + 3) / 4 * 4

/-- The bytes of an attribute. -/
def STUNAttribute.bytes (a : STUNAttribute) : List UInt8 :=
  ofNat 2 a.typeID.toNat ++ (ofNat 2 a.value.length ++ (a.value ++ a.padding))

/-- An attribute that carries no mapped address. -/
def STUNAttribute.IsOther (a : STUNAttribute) : Prop :=
  a.typeID.toNat ≠ stunXORMapped ∧ a.typeID.toNat ≠ stunMappedAddress

/-- The value of a mapped address: a zero byte, the family, the port and the address. In the masked
form the port is XOR-ed with the upper half of the cookie, an IPv4 address with the cookie, and an
IPv6 address with the cookie followed by the transaction id. -/
def addressValue (masked : Bool) (tx : TxID) (mapped : AddrPort) : List UInt8 :=
  let port := ofNat 2 (if masked then mapped.port ^^^ 0x2112 else mapped.port).toNat
  match mapped.addr with
  | .invalid => []
  | .v4 bits => 0 :: 1 :: (port ++
      ofNat 4 (if masked then bits ^^^ 0x2112a442#32 else bits).toNat)
  | .v6 bits _ => 0 :: 2 :: (port ++
      ofNat 16 (if masked then bits ^^^ (0x2112a442#32 ++ tx) else bits).toNat)

theorem stunMask_ofNat (tx : TxID) :
    stunMask (ofNat 12 tx.toNat) = ofNat 16 (0x2112a442#32 ++ tx).toNat := by
  refine toNat_inj (by simp [stunMask]) ?_
  have htx := tx.isLt
  have happend : (0x2112a442#32 ++ tx).toNat = 0x2112a442 * 2 ^ 96 + tx.toNat := by
    rw [BitVec.toNat_append, ← Nat.shiftLeft_add_eq_or_of_lt tx.isLt, Nat.shiftLeft_eq]
    rfl
  rw [stunMask, toNat_append, length_ofNat, toNat_ofNat_of_lt (by omega),
    toNat_ofNat_of_lt (BitVec.isLt _), happend]
  rfl

/-- Taking the mask off a number. -/
theorem toNat_xor_mask {w : Nat} (bits mask : BitVec (8 * w)) :
    toNat (Bytes.xor (ofNat w (bits ^^^ mask).toNat) (ofNat w mask.toNat)) =
      bits.toNat := by
  have hlt (v : BitVec (8 * w)) : v.toNat < 256 ^ w := by
    have := v.isLt
    rwa [Nat.pow_mul] at this
  rw [toNat_xor (by rw [length_ofNat, length_ofNat]),
    toNat_ofNat_of_lt (hlt _), toNat_ofNat_of_lt (hlt _), ← BitVec.toNat_xor,
    BitVec.xor_assoc, BitVec.xor_self, BitVec.xor_zero]

/-- Parsing a value that is laid out as an address of the given family. -/
theorem parseSTUNAddress_cons {family : UInt8} {port raw : List UInt8} (hport : port.length = 2)
    (masked : Bool) (tx : List UInt8) :
    parseSTUNAddress (0 :: family :: (port ++ raw)) masked tx =
      let number := UInt16.ofNat (toNat port)
      let number := if masked then number ^^^ 0x2112 else number
      if family = 1 then
        if raw.length < 4 then some .zero
        else some ⟨addrFrom4 (if masked then Bytes.xor (raw.take 4) (stunMask [])
          else raw.take 4), number⟩
      else if family = 2 then
        if raw.length < 16 then some .zero
        else some ⟨(addrFrom16 (if masked then Bytes.xor (raw.take 16) (stunMask tx)
          else raw.take 16)).unmap, number⟩
      else some .zero := by
  have hlength : (0 :: family :: (port ++ raw)).length = 4 + raw.length := by
    simp only [length_cons, length_append]
    omega
  have hnumber : slice (0 :: family :: (port ++ raw)) 2 4 = some port :=
    slice_append (a := [0, family]) rfl (by rw [hport]; rfl)
  have hraw {n : Nat} (h : ¬ raw.length < n) :
      slice (0 :: family :: (port ++ raw)) 4 (4 + n) = some (raw.take n) := by
    have hsplit : 0 :: family :: (port ++ raw) =
        (0 :: family :: port) ++ (raw.take n ++ raw.drop n) := by
      rw [take_append_drop]
      rfl
    rw [hsplit]
    refine slice_append ?_ ?_
    · simp [hport]
    · simp only [length_cons, length_take, hport]
      omega
  unfold parseSTUNAddress
  rw [if_neg (by omega), hnumber, hlength]
  have hfirst : index (0 :: family :: (port ++ raw)) 0 = some 0 := rfl
  have hfamily : index (0 :: family :: (port ++ raw)) 1 = some family := rfl
  simp only [Option.bind_eq_bind, Option.bind_some, number_of_length hport, hfirst, hfamily,
    ne_eq, not_true_eq_false, if_false]
  split
  · by_cases hshort : raw.length < 4
    · rw [if_pos hshort, if_pos (by omega)]
      rfl
    · rw [if_neg hshort, if_neg (by omega), hraw hshort]
      rfl
  · split
    · by_cases hshort : raw.length < 16
      · rw [if_pos hshort, if_pos (by omega)]
        rfl
      · rw [if_neg hshort, if_neg (by omega), hraw hshort]
        rfl
    · rfl

/-- A mapped address is read back. -/
theorem parseSTUNAddress_addressValue (masked : Bool) (tx : TxID) (h : mapped.Sendable)
    (hzone : mapped.addr.zone = "") :
    parseSTUNAddress (addressValue masked tx mapped) masked (ofNat 12 tx.toNat) =
      some mapped := by
  obtain ⟨hunmapped, hvalid, -⟩ := h
  obtain ⟨addr, port⟩ := mapped
  have hread (n : UInt16) : UInt16.ofNat (toNat (ofNat 2 n.toNat)) = n := by
    rw [toNat_ofNat_of_lt n.toNat_lt, UInt16.ofNat_toNat]
  have hport : (let number := UInt16.ofNat (toNat (ofNat 2
      (if masked then port ^^^ 0x2112 else port).toNat))
      if masked then number ^^^ 0x2112 else number) = port := by
    rw [hread]
    cases masked
    · rfl
    · show port ^^^ 0x2112 ^^^ 0x2112 = port
      rw [UInt16.xor_assoc, UInt16.xor_self, UInt16.xor_zero]
  cases addr with
  | invalid => cases hvalid
  | v4 bits =>
    unfold addressValue
    rw [parseSTUNAddress_cons (length_ofNat 2 _)]
    rw [if_pos rfl, hport, length_ofNat, if_neg (by omega),
      take_of_length_le (length_ofNat 4 _).le]
    cases masked with
    | false => exact congrArg (fun a => some (AddrPort.mk a port)) (addrFrom4_ofNat bits)
    | true =>
      have hmask : stunMask [] = ofNat 4 (0x2112a442#32).toNat := by decide
      have haddr : addrFrom4 (Bytes.xor (ofNat 4 (bits ^^^ 0x2112a442#32).toNat)
          (stunMask [])) = .v4 bits := by
        rw [addrFrom4, hmask, toNat_xor_mask (w := 4), BitVec.ofNat_toNat, BitVec.setWidth_eq]
      exact congrArg (fun a => some (AddrPort.mk a port)) haddr
  | v6 bits zone =>
    obtain rfl : zone = "" := hzone
    unfold addressValue
    rw [parseSTUNAddress_cons (length_ofNat 2 _)]
    rw [if_neg (by decide), if_pos rfl, hport, length_ofNat, if_neg (by omega),
      take_of_length_le (length_ofNat 16 _).le]
    cases masked with
    | false =>
      exact congrArg (fun a => some (AddrPort.mk a port))
        ((congrArg Addr.unmap (addrFrom16_ofNat bits)).trans hunmapped)
    | true =>
      have haddr : addrFrom16 (Bytes.xor (ofNat 16
          (bits ^^^ (0x2112a442#32 ++ tx)).toNat) (stunMask (ofNat 12 tx.toNat))) =
          .v6 bits "" := by
        rw [addrFrom16, stunMask_ofNat, toNat_xor_mask (w := 16), BitVec.ofNat_toNat,
          BitVec.setWidth_eq]
      exact congrArg (fun a => some (AddrPort.mk a port))
        ((congrArg Addr.unmap haddr).trans hunmapped)

/-- What a round of the loop sees of an attribute. -/
theorem stunAttributes_bytes (a : STUNAttribute) (tx : List UInt8) (fuel : Nat)
    (mapped : AddrPort) (rest : List UInt8) :
    stunAttributes tx (fuel + 1) mapped (a.bytes ++ rest) =
      let carries := a.typeID.toNat = stunXORMapped ∨ a.typeID.toNat = stunMappedAddress
      (if carries then parseSTUNAddress a.value (a.typeID.toNat = stunXORMapped) tx
      else some mapped).bind fun mapped =>
        if carries ∧ mapped.isValid then some mapped else stunAttributes tx fuel mapped rest := by
  obtain ⟨typeID, value, padding, hvalue, hpadded⟩ := a
  obtain ⟨data, hdata⟩ : ∃ data, data = ofNat 2 typeID.toNat ++
      (ofNat 2 value.length ++ (value ++ (padding ++ rest))) := ⟨_, rfl⟩
  have htype : data.take 2 = ofNat 2 typeID.toNat :=
    hdata ▸ take_left' (length_ofNat 2 _)
  have hlength : (data.take 4).drop 2 = ofNat 2 value.length :=
    hdata ▸ drop_take_append (length_ofNat 2 _).symm (by simp)
  have hbody : (data.take (4 + value.length)).drop 4 = value := by
    rw [hdata, ← append_assoc]
    exact drop_take_append (by simp) (by simp)
  have hrest : data.drop (4 + (value.length + 3) / 4 * 4) = rest := by
    rw [hdata, ← append_assoc, ← append_assoc, ← append_assoc]
    exact drop_left' (by simp; omega)
  have hall : data.length = 4 + (value.length + 3) / 4 * 4 + rest.length := by
    simp [hdata]
    omega
  have htypeID : toNat (ofNat 2 typeID.toNat) = typeID.toNat :=
    toNat_ofNat_of_lt typeID.toNat_lt
  have hnumber : toNat (ofNat 2 value.length) = value.length :=
    toNat_ofNat_of_lt hvalue
  have hbytes : STUNAttribute.bytes ⟨typeID, value, padding, hvalue, hpadded⟩ ++ rest = data := by
    simp [hdata, STUNAttribute.bytes]
  rw [hbytes, stunAttributes_succ]
  dsimp only
  rw [htype, hlength, htypeID, hnumber, hbody, hrest, hall, if_neg (by omega), if_neg (by omega)]
  refine congrArg _ (funext fun mapped => ?_)
  rw [if_neg (by omega : ¬ 4 + (value.length + 3) / 4 * 4 + rest.length <
    4 + (value.length + 3) / 4 * 4)]

/-- Attributes without an address are passed over. -/
theorem stunAttributes_others {others : List STUNAttribute} (h : ∀ a ∈ others, a.IsOther)
    (tx : List UInt8) {fuel : Nat} (hfuel : others.length ≤ fuel) (mapped : AddrPort)
    (rest : List UInt8) :
    stunAttributes tx fuel mapped (others.flatMap STUNAttribute.bytes ++ rest) =
      stunAttributes tx (fuel - others.length) mapped rest := by
  induction others generalizing fuel with
  | nil => rfl
  | cons a others ih =>
    obtain ⟨fuel, rfl⟩ : ∃ n, fuel = n + 1 := ⟨fuel - 1, by simp at hfuel; omega⟩
    obtain ⟨hxor, hplain⟩ := h a mem_cons_self
    have hother : ¬ (a.typeID.toNat = stunXORMapped ∨ a.typeID.toNat = stunMappedAddress) :=
      not_or.mpr ⟨hxor, hplain⟩
    rw [flatMap_cons, append_assoc, stunAttributes_bytes]
    dsimp only
    rw [if_neg hother, Option.bind_some, if_neg fun hand => hother hand.1,
      ih (fun a ha => h a (mem_cons_of_mem _ ha)) (Nat.le_of_succ_le_succ hfuel),
      length_cons, Nat.add_sub_add_right]

theorem length_le_flatMap_bytes (others : List STUNAttribute) :
    others.length ≤ (others.flatMap STUNAttribute.bytes).length := by
  induction others with
  | nil => exact Nat.le_refl 0
  | cons a others ih =>
    have hbytes : 0 < a.bytes.length := by simp [STUNAttribute.bytes]
    rw [flatMap_cons, length_cons, length_append]
    omega

/-- The attribute that carries an address. -/
def mappedAttribute (masked : Bool) (tx : TxID) (mapped : AddrPort) : STUNAttribute where
  typeID := if masked then 0x0020 else 0x0001
  value := addressValue masked tx mapped
  padding := []
  value_lt := by
    unfold addressValue
    cases mapped.addr <;> simp
  padded := by
    unfold addressValue
    cases mapped.addr <;> simp

/-- The address of such an attribute is found. -/
theorem stunAttributes_mapped (masked : Bool) (tx : TxID) (h : mapped.Sendable)
    (hzone : mapped.addr.zone = "") (fuel : Nat) (before : AddrPort) (rest : List UInt8) :
    stunAttributes (ofNat 12 tx.toNat) (fuel + 1) before
      ((mappedAttribute masked tx mapped).bytes ++ rest) = some mapped := by
  have htype : ((mappedAttribute masked tx mapped).typeID.toNat = stunXORMapped ∨
        (mappedAttribute masked tx mapped).typeID.toNat = stunMappedAddress) ∧
      decide ((mappedAttribute masked tx mapped).typeID.toNat = stunXORMapped) = masked := by
    cases masked with
    | false => exact ⟨.inr rfl, rfl⟩
    | true => exact ⟨.inl rfl, rfl⟩
  rw [stunAttributes_bytes]
  dsimp only
  rw [if_pos htype.1, htype.2]
  have hparse : parseSTUNAddress (mappedAttribute masked tx mapped).value masked
      (ofNat 12 tx.toNat) = some mapped := parseSTUNAddress_addressValue masked tx h hzone
  rw [hparse, Option.bind_some, if_pos ⟨htype.1, h.valid⟩]

/-- A binding response that carries a mapped address, plain or masked, after any number of other
attributes; more attributes and more bytes may follow. -/
structure BindingResponse where
  tx : TxID
  others : List STUNAttribute
  masked : Bool
  mapped : AddrPort
  more : List UInt8
  trailer : List UInt8
  isOther : ∀ a ∈ others, a.IsOther
  sendable : mapped.Sendable
  zone : mapped.addr.zone = ""
  length_lt : (others.flatMap STUNAttribute.bytes ++
    ((mappedAttribute masked tx mapped).bytes ++ more)).length < 2 ^ 16

namespace BindingResponse

/-- The attributes. -/
def attributes (m : BindingResponse) : List UInt8 :=
  m.others.flatMap STUNAttribute.bytes ++ ((mappedAttribute m.masked m.tx m.mapped).bytes ++ m.more)

/-- The datagram. -/
def packet (m : BindingResponse) : List UInt8 :=
  ofNat 2 stunBindingResponse ++ (ofNat 2 m.attributes.length ++
    (ofNat 4 stunCookie ++ (ofNat 12 m.tx.toNat ++ (m.attributes ++ m.trailer))))

variable (m : BindingResponse)

/-- The fields of the datagram. -/
theorem fields_packet : IsSTUN m.packet ∧ IsResponse m.packet ∧
    (m.packet.take 20).drop 8 = ofNat 12 m.tx.toNat ∧
    stunLength m.packet = m.attributes.length ∧
    (m.packet.take (20 + m.attributes.length)).drop 20 = m.attributes := by
  have hlength : m.packet.length = 20 + m.attributes.length + m.trailer.length := by
    simp [packet]
    omega
  have htype : m.packet.take 2 = ofNat 2 stunBindingResponse :=
    take_left' (length_ofNat 2 _)
  have hfield : (m.packet.take 4).drop 2 = ofNat 2 m.attributes.length :=
    drop_take_append (length_ofNat 2 _).symm (by simp)
  have hcookie : (m.packet.take 8).drop 4 = ofNat 4 stunCookie := by
    unfold packet
    rw [← append_assoc]
    exact drop_take_append (by simp) (by simp)
  have htx : (m.packet.take 20).drop 8 = ofNat 12 m.tx.toNat := by
    unfold packet
    rw [← append_assoc, ← append_assoc]
    exact drop_take_append (by simp) (by simp)
  have hattrs : (m.packet.take (20 + m.attributes.length)).drop 20 = m.attributes := by
    unfold packet
    rw [← append_assoc, ← append_assoc, ← append_assoc]
    exact drop_take_append (by simp) (by simp)
  have hstunLength : stunLength m.packet = m.attributes.length := by
    rw [stunLength, hfield]
    exact toNat_ofNat_of_lt m.length_lt
  refine ⟨⟨by omega, ?_⟩, ⟨?_, ?_⟩, htx, hstunLength, hattrs⟩
  · rw [hcookie]
    decide
  · omega
  · rw [htype]
    decide

theorem stunTx_packet : stunTx m.packet = m.tx := by
  obtain ⟨-, -, htx, -⟩ := m.fields_packet
  rw [stunTx, htx, TxID.ofBytes, toNat_ofNat_of_lt m.tx.isLt, BitVec.ofNat_toNat,
    BitVec.setWidth_eq]

/-- The response is credited with its address. -/
theorem handleSTUN_packet {b : Bind} {probe : STUNProbe} (h : b.stunPending.get m.tx = some probe)
    (received now : Time) :
    b.handleSTUN m.packet received now =
      some ({ b with stunPending := b.stunPending.erase m.tx }.creditSTUN probe m.mapped received
        now) := by
  obtain ⟨hstun, hresponse, htx, hlength, hattrs⟩ := m.fields_packet
  have hfound : stunAttributes (ofNat 12 m.tx.toNat) (m.attributes.length + 1) .zero
      m.attributes = some m.mapped := by
    have hothers := length_le_flatMap_bytes m.others
    have hall : (m.others.flatMap STUNAttribute.bytes).length ≤ m.attributes.length := by
      rw [attributes, length_append]
      exact Nat.le_add_right _ _
    obtain ⟨fuel, hfuel⟩ : ∃ fuel, m.attributes.length + 1 - m.others.length = fuel + 1 :=
      ⟨m.attributes.length - m.others.length, by omega⟩
    nth_rewrite 2 [attributes]
    rw [stunAttributes_others m.isOther _ (by omega), hfuel]
    exact stunAttributes_mapped m.masked m.tx m.sendable m.zone _ _ _
  rw [handleSTUN_eq, if_neg (not_not.mpr hstun), if_neg (not_not.mpr hresponse), m.stunTx_packet, h]
  rw [htx, hlength, hattrs, hfound]
  rfl

end BindingResponse

/-! ## Every datagram -/

/-- For every bind and every datagram, `handleSTUN` comes to an end without a panic. It changes
something only for an outstanding transaction, which it consumes, so that the datagram has no effect
when it comes again; an endpoint that it adds can be sent to. A binding response for an outstanding
transaction yields the address that it carries. -/
theorem stun_response_handling (b : Bind) (packet : List UInt8) (received now : Time) :
    ∃ r, b.handleSTUN packet received now = some r ∧
      (r.bind ≠ b → stunTx packet ∈ b.stunPending ∧
        r.bind.stunPending = b.stunPending.erase (stunTx packet)) ∧
      (∀ received' now', r.bind.handleSTUN packet received' now' =
        some { consumed := r.consumed, bind := r.bind }) ∧
      (∀ a candidate, r.bind.stun.get a = some candidate →
        b.stun.get a = some candidate ∨ (a.Sendable ∧ candidate = ⟨a, .stun⟩)) ∧
      ∀ m : BindingResponse, m.packet = packet → m.tx ∈ b.stunPending →
        r.bind.stun = b.stun.insert m.mapped ⟨m.mapped, .stun⟩ := by
  rcases handleSTUN_cases b packet received now with
    ⟨hhandled, hnot⟩ | ⟨probe, mapped, hstun, hresponse, hget, hunmapped, hhandled⟩
  · refine ⟨_, hhandled, fun h => absurd rfl h, fun received' now' => ?_, fun a c h => .inl h, ?_⟩
    · rcases handleSTUN_cases b packet received' now' with
        ⟨hagain, -⟩ | ⟨probe, _, hstun, hresponse, hget, -⟩
      · exact hagain
      · exact absurd (FinMap.mem_of_get hget) (hnot hstun hresponse)
    · rintro m rfl hpending
      obtain ⟨hstun, hresponse, -⟩ := m.fields_packet
      rw [m.stunTx_packet] at hnot
      exact absurd hpending (hnot hstun hresponse)
  · obtain ⟨hconsumed, hpending, hstunEndpoints⟩ := creditSTUN_spec
      { b with stunPending := b.stunPending.erase (stunTx packet) } probe received now hunmapped
    refine ⟨_, hhandled, fun _ => ⟨FinMap.mem_of_get hget, hpending⟩, fun received' now' => ?_,
      fun a candidate ha => ?_, ?_⟩
    · rcases handleSTUN_cases _ packet received' now' with ⟨hagain, -⟩ | ⟨_, _, -, -, hget', -⟩
      · rw [hagain, hconsumed, decide_eq_true hstun]
      · rw [hpending, FinMap.get_erase_self] at hget'
        cases hget'
    · rcases hstunEndpoints with hsame | ⟨hsendable, hinsert⟩
      · rw [hsame] at ha
        exact .inl ha
      · rw [hinsert, FinMap.get_insert] at ha
        split at ha
        · next heq =>
          cases ha
          rw [heq]
          exact .inr ⟨hsendable, rfl⟩
        · exact .inl ha
    · rintro m rfl hpendingTx
      obtain ⟨probe', hprobe⟩ := FinMap.mem_iff.mp hpendingTx
      have hsame := Option.some.inj (hhandled.symm.trans (m.handleSTUN_packet hprobe received now))
      rw [hsame]
      exact stun_creditSTUN _ probe' m.sendable received now

/-- A response that carries an address, and a bind that waits for it. -/
def sampleResponse : BindingResponse where
  tx := 1
  others := []
  masked := true
  mapped := ⟨.v4 0x01020304, 5⟩
  more := []
  trailer := []
  isOther := by simp
  sendable := by constructor <;> decide
  zone := rfl
  length_lt := by decide
def waitingBind : Bind :=
  { newBind ⟨false, false⟩ with stunPending := (∅ : FinMap TxID STUNProbe).insert 1 ⟨0, 0, 1⟩ }

theorem stun_response_handling_credited :
    ∃ r, waitingBind.handleSTUN sampleResponse.packet 0 0 = some r ∧
      r.bind.stun = (∅ : FinMap AddrPort EndpointCandidate).insert ⟨.v4 0x01020304, 5⟩
        ⟨⟨.v4 0x01020304, 5⟩, .stun⟩ := by
  obtain ⟨r, hr, -, -, -, hmapped⟩ := stun_response_handling waitingBind sampleResponse.packet 0 0
  exact ⟨r, hr, hmapped sampleResponse rfl (by decide)⟩

end WgoTailscale
