import WgoTailscale.Bind
import WgoTailscale.Lib.Bytes

/-!
# Addresses and keys in bytes

What the packets of STUN, DISCO and DERP carry: addresses as `netip` writes them, transaction ids,
and keys (`key.go`).
-/

namespace WgoTailscale

open Bytes

/-! ## Addresses -/

/-- `netip.AddrFrom4`. -/
def addrFrom4 (raw : List UInt8) : Addr := .v4 (BitVec.ofNat 32 (toNat raw))

/-- `netip.AddrFrom16`. -/
def addrFrom16 (raw : List UInt8) : Addr := .v6 (BitVec.ofNat 128 (toNat raw)) ""

theorem addrFrom4_ofNat (bits : BitVec 32) : addrFrom4 (ofNat 4 bits.toNat) = .v4 bits := by
  rw [addrFrom4, toNat_ofNat_of_lt bits.isLt, BitVec.ofNat_toNat, BitVec.setWidth_eq]

theorem addrFrom16_ofNat (bits : BitVec 128) :
    addrFrom16 (ofNat 16 bits.toNat) = .v6 bits "" := by
  rw [addrFrom16, toNat_ofNat_of_lt bits.isLt, BitVec.ofNat_toNat, BitVec.setWidth_eq]

/-- `netip.Addr.As16`. -/
def Addr.as16 : Addr → List UInt8
  | .invalid => ofNat 16 0
  | .v4 bits => ofNat 16 (0xffff * 2 ^ 32 + bits.toNat)
  | .v6 bits _ => ofNat 16 bits.toNat

theorem Addr.length_as16 (a : Addr) : a.as16.length = 16 := by
  cases a <;> exact length_ofNat 16 _

/-- Sixteen bytes hold an address but for its zone, and whether it was an IPv4-mapped one. -/
theorem Addr.unmap_addrFrom16_as16 {a : Addr} (h : a.isValid = true) :
    (addrFrom16 a.as16).unmap = a.unmap.withoutZone := by
  cases a with
  | invalid => cases h
  | v4 bits =>
    have hlt : 0xffff * 2 ^ 32 + bits.toNat < 256 ^ 16 := by
      have := bits.isLt
      omega
    have hmapped : (BitVec.ofNat 128 (0xffff * 2 ^ 32 + bits.toNat)).toNat =
        0xffff * 2 ^ 32 + bits.toNat := by
      rw [BitVec.toNat_ofNat]
      exact Nat.mod_eq_of_lt hlt
    have hmarked : BitVec.ofNat 128 (0xffff * 2 ^ 32 + bits.toNat) >>> 32 = 0xffff#128 := by
      apply BitVec.eq_of_toNat_eq
      rw [BitVec.toNat_ushiftRight, hmapped, Nat.shiftRight_eq_div_pow]
      have := bits.isLt
      simp only [BitVec.toNat_ofNat]
      omega
    have hlow : (BitVec.ofNat 128 (0xffff * 2 ^ 32 + bits.toNat)).setWidth 32 = bits := by
      apply BitVec.eq_of_toNat_eq
      rw [BitVec.toNat_setWidth, hmapped]
      have := bits.isLt
      omega
    unfold addrFrom16 as16 unmap is4In6
    rw [toNat_ofNat_of_lt hlt]
    simp only [hmarked, beq_self_eq_true, if_true, hlow]
    rfl
  | v6 bits zone =>
    have hread : addrFrom16 (Addr.v6 bits zone).as16 = .v6 bits "" := addrFrom16_ofNat bits
    rw [hread]
    unfold unmap is4In6
    dsimp only
    split <;> rfl

/-! ## Transactions and keys -/

/-- The transaction id with the given twelve bytes. -/
def TxID.ofBytes (raw : List UInt8) : TxID := BitVec.ofNat 96 (toNat raw)

/-- The discovery key with the given 32 bytes. -/
def DiscoPublic.ofBytes (raw : List UInt8) : DiscoPublic := ⟨BitVec.ofNat 256 (toNat raw)⟩

/-- The node key with the given 32 bytes. -/
def NodePublic.ofBytes (raw : List UInt8) : NodePublic := ⟨BitVec.ofNat 256 (toNat raw)⟩

/-- `NodePublic.AppendTo`, to nothing. -/
def NodePublic.bytes (k : NodePublic) : List UInt8 := ofNat 32 k.raw.toNat

theorem NodePublic.length_bytes (k : NodePublic) : k.bytes.length = 32 := length_ofNat 32 _

theorem NodePublic.ofBytes_bytes (k : NodePublic) : ofBytes k.bytes = k := by
  rw [ofBytes, bytes, toNat_ofNat_of_lt k.raw.isLt, BitVec.ofNat_toNat, BitVec.setWidth_eq]

end WgoTailscale
