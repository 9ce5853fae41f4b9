import Mathlib.Data.BitVec
import Mathlib.Data.Nat.Bitwise

/-!
# Addresses, address-port pairs and prefixes

The part of Go's `net/netip` that the client uses. An address is invalid, IPv4 or IPv6 with a zone;
an IPv4-mapped IPv6 address (`is4In6`) is a different value from the IPv4 address it maps, and
`unmap` goes from one to the other. A prefix carries the proof that its length fits its address and
that its address has no zone, so the only way to a prefix is `prefixFrom`, as in the source.
-/

namespace WgoTailscale

/-! ## Addresses -/

/-- `netip.Addr`. -/
inductive Addr where
  | invalid
  | v4 (bits : BitVec 32)
  | v6 (bits : BitVec 128) (zone : String)
  deriving DecidableEq, Repr, Inhabited

namespace Addr

def isValid : Addr → Bool
  | .invalid => false
  | _ => true

def is4 : Addr → Bool
  | .v4 _ => true
  | _ => false

def is6 : Addr → Bool
  | .v6 _ _ => true
  | _ => false

/-- An IPv6 address of `::ffff:0:0/96`. -/
def is4In6 : Addr → Bool
  | .v6 b _ => b >>> 32 == 0xffff#128
  | _ => false

def bitLen : Addr → Nat
  | .invalid => 0
  | .v4 _ => 32
  | .v6 _ _ => 128

/-- The address as a number; only its `bitLen` low bits can be set. -/
def toNat : Addr → Nat
  | .invalid => 0
  | .v4 b => b.toNat
  | .v6 b _ => b.toNat

def zone : Addr → String
  | .v6 _ z => z
  | _ => ""

def hasZone (a : Addr) : Bool := a.zone != ""

def withoutZone : Addr → Addr
  | .v6 b _ => .v6 b ""
  | a => a

/-- `Addr.Unmap`: an IPv4-mapped address becomes the IPv4 address, and its zone is dropped. -/
def unmap : Addr → Addr
  | .v6 b z => if (Addr.v6 b z).is4In6 then .v4 (b.setWidth 32) else .v6 b z
  | a => a

/-- `Addr.Compare`: by family, then by value, then by zone. -/
def compare (a b : Addr) : Ordering :=
  (Ord.compare a.bitLen b.bitLen).then <|
    (Ord.compare a.toNat b.toNat).then (Ord.compare a.zone b.zone)

def isUnspecified : Addr → Bool
  | .v4 b => b == 0
  | .v6 b z => b == 0 && z == ""
  | .invalid => false

def isMulticast (a : Addr) : Bool :=
  match a.unmap with
  | .v4 b => b >>> 28 == 0xe#32
  | .v6 b _ => b >>> 120 == 0xff#128
  | .invalid => false

def isLoopback (a : Addr) : Bool :=
  match a.unmap with
  | .v4 b => b >>> 24 == 127#32
  | .v6 b _ => b == 1
  | .invalid => false

def isLinkLocalUnicast (a : Addr) : Bool :=
  match a.unmap with
  | .v4 b => b >>> 16 == 0xa9fe#32
  | .v6 b _ => b >>> 118 == 0x3fa#128
  | .invalid => false

/-- `Addr.Next`: the following address of the family, invalid past the last one. -/
def next : Addr → Addr
  | .invalid => .invalid
  | .v4 b => if b == BitVec.allOnes 32 then .invalid else .v4 (b + 1)
  | .v6 b z => if b == BitVec.allOnes 128 then .invalid else .v6 (b + 1) z

/-- The top `n` bits of an address, the others cleared. -/
def keepTop : Addr → Nat → Addr
  | .invalid, _ => .invalid
  | .v4 b, n => .v4 ((b >>> (32 - n)) <<< (32 - n))
  | .v6 b z, n => .v6 ((b >>> (128 - n)) <<< (128 - n)) z

end Addr

/-! ## Address-port pairs -/

/-- `netip.AddrPort`. -/
structure AddrPort where
  addr : Addr
  port : UInt16
  deriving DecidableEq, Repr, Inhabited

namespace AddrPort

def isValid (a : AddrPort) : Bool := a.addr.isValid

/-- The zero `netip.AddrPort`. -/
def zero : AddrPort := ⟨.invalid, 0⟩

def compare (a b : AddrPort) : Ordering :=
  (a.addr.compare b.addr).then (Ord.compare a.port b.port)

end AddrPort

/-- `unmapAddrPort`, which both packages define alike (`client.go`, `tailnet/bind.go`). -/
def unmapAddrPort (value : AddrPort) : AddrPort :=
  if value.isValid then ⟨value.addr.unmap, value.port⟩ else value

/-! ## Prefixes -/

/-- `netip.Prefix`. `bits` is `none` on an invalid prefix, whose `Bits()` is `-1`. -/
@[ext]
structure Prefix where
  addr : Addr
  bits : Option Nat
  zone_eq : addr.zone = ""
  bits_le : ∀ b, bits = some b → addr ≠ .invalid ∧ b ≤ addr.bitLen
  deriving DecidableEq

namespace Prefix

/-- The zero `netip.Prefix`. -/
def zero : Prefix := ⟨.invalid, none, rfl, nofun⟩

instance : Inhabited Prefix := ⟨zero⟩

def isValid (p : Prefix) : Bool := p.bits.isSome

end Prefix

theorem Addr.zone_withoutZone (a : Addr) : a.withoutZone.zone = "" := by cases a <;> rfl

theorem Addr.bitLen_withoutZone (a : Addr) : a.withoutZone.bitLen = a.bitLen := by cases a <;> rfl

variable {a b : Addr} {p : Prefix} {n : Nat}

theorem Addr.withoutZone_ne_invalid (h : a ≠ .invalid) : a.withoutZone ≠ .invalid := by
  cases a <;> simp_all [Addr.withoutZone]

/-- `netip.PrefixFrom`: the zone is dropped; a length the address has not makes it invalid. -/
def prefixFrom (ip : Addr) (bits : Int) : Prefix :=
  if h : ip ≠ .invalid ∧ 0 ≤ bits ∧ bits ≤ ip.bitLen then
    ⟨ip.withoutZone, some bits.toNat, ip.zone_withoutZone, by
      intro b hb
      rw [ip.bitLen_withoutZone]
      have := Option.some.inj hb
      exact ⟨ip.withoutZone_ne_invalid h.1, by omega⟩⟩
  else ⟨ip.withoutZone, none, ip.zone_withoutZone, nofun⟩

/-- `Addr.Prefix`: the masked prefix of the given length, `none` on the error. -/
def Addr.toPrefix (ip : Addr) (b : Int) : Option Prefix :=
  if b < 0 then none
  else if ip = .invalid then some .zero
  else if b > ip.bitLen then none
  else some (prefixFrom (ip.keepTop b.toNat) b)

namespace Prefix

/-- `Prefix.Masked`. -/
def masked (p : Prefix) : Prefix :=
  match p.bits with
  | none => .zero
  | some b => (p.addr.toPrefix b).getD .zero

/-- `Prefix.Contains`: the families agree and the addresses agree on the prefix's bits. -/
def contains (p : Prefix) (ip : Addr) : Bool :=
  match p.bits with
  | none => false
  | some n =>
    if ip.hasZone then false
    else match p.addr, ip with
      | .v4 a, .v4 b => (b ^^^ a) >>> (32 - n) == 0
      | .v6 a _, .v6 b _ => (b ^^^ a) >>> (128 - n) == 0
      | _, _ => false

end Prefix

/-- `unmapPrefix` (`client.go`): a mapped prefix of at least 96 bits becomes the masked IPv4
prefix. -/
def unmapPrefix (value : Prefix) : Prefix :=
  match value.bits with
  | none => value
  | some b =>
    if value.addr.is4In6 ∧ 96 ≤ b then (prefixFrom value.addr.unmap (b - 96)).masked else value

/-! ## Addresses of one family as numbers -/

/-- Addresses without a zone are equal when family and number agree. -/
theorem Addr.eq_of_toNat (ha : a.zone = "") (hb : b.zone = "") (hlen : a.bitLen = b.bitLen)
    (hnat : a.toNat = b.toNat) : a = b := by
  cases a <;> cases b <;> simp_all [Addr.bitLen, Addr.toNat, Addr.zone, BitVec.toNat_inj]

theorem Addr.toNat_lt (a : Addr) : a.toNat < 2 ^ a.bitLen := by
  cases a with
  | invalid => simp [Addr.toNat, Addr.bitLen]
  | v4 b | v6 b z => exact b.isLt

theorem Addr.bitLen_eq_zero : a.bitLen = 0 ↔ a = .invalid := by
  cases a <;> simp [Addr.bitLen]

/-- Addresses are compared by family, then by number, then by zone. -/
theorem Addr.compare_eq_gt : a.compare b = .gt ↔ b.bitLen < a.bitLen ∨
    a.bitLen = b.bitLen ∧ (b.toNat < a.toNat ∨
      a.toNat = b.toNat ∧ Ord.compare a.zone b.zone = .gt) := by
  unfold Addr.compare
  rw [Ordering.then_eq_gt, Ordering.then_eq_gt, compare_gt_iff_gt, compare_eq_iff_eq,
    compare_gt_iff_gt, compare_eq_iff_eq]

/-- Within a family the order of numbers decides first. -/
theorem Addr.compare_eq_lt (hlen : a.bitLen = b.bitLen) (hlt : a.toNat < b.toNat) :
    a.compare b = .lt := by
  unfold Addr.compare
  rw [compare_eq_iff_eq.mpr hlen, compare_lt_iff_lt.mpr hlt]
  rfl

/-- Within a family and without zones the order is the order of numbers. -/
theorem Addr.compare_gt_iff (ha : a.zone = "") (hb : b.zone = "") (hlen : a.bitLen = b.bitLen) :
    a.compare b = .gt ↔ b.toNat < a.toNat := by
  have hzone : Ord.compare "" "" ≠ Ordering.gt := by decide
  rw [Addr.compare_eq_gt, ha, hb]
  simp only [hlen, hzone, lt_irrefl, false_or, true_and, and_false, or_false]

theorem xor_shiftRight_eq_zero {w : Nat} (a b : BitVec w) (k : Nat) :
    (b ^^^ a) >>> k = 0#w ↔ b.toNat / 2 ^ k = a.toNat / 2 ^ k := by
  rw [BitVec.ushiftRight_xor_distrib, BitVec.xor_eq_zero_iff, ← BitVec.toNat_inj,
    BitVec.toNat_ushiftRight, BitVec.toNat_ushiftRight, Nat.shiftRight_eq_div_pow,
    Nat.shiftRight_eq_div_pow]

/-- A prefix contains an address of its family when their numbers agree above the host bits. -/
theorem Prefix.contains_iff (hn : p.bits = some n) {ip : Addr} (hz : ip.zone = "") :
    p.contains ip = true ↔ ip.bitLen = p.addr.bitLen ∧
      ip.toNat / 2 ^ (p.addr.bitLen - n) = p.addr.toNat / 2 ^ (p.addr.bitLen - n) := by
  have hne := (p.bits_le n hn).1
  have hzone : ip.hasZone = false := by simp [Addr.hasZone, hz]
  simp only [Prefix.contains, hn, hzone, Bool.false_eq_true, if_false]
  cases hp : p.addr with
  | invalid => exact absurd hp hne
  | v4 | v6 => cases ip <;> simp [Addr.bitLen, Addr.toNat, xor_shiftRight_eq_zero]

theorem Addr.bitLen_keepTop (a : Addr) (n : Nat) : (a.keepTop n).bitLen = a.bitLen := by
  cases a <;> rfl

theorem Addr.zone_keepTop (a : Addr) (n : Nat) : (a.keepTop n).zone = a.zone := by
  cases a <;> rfl

theorem Addr.toNat_keepTop (a : Addr) (n : Nat) :
    (a.keepTop n).toNat = a.toNat / 2 ^ (a.bitLen - n) * 2 ^ (a.bitLen - n) := by
  have hshift {w : Nat} (b : BitVec w) (k : Nat) :
      ((b >>> k) <<< k).toNat = b.toNat / 2 ^ k * 2 ^ k := by
    rw [BitVec.toNat_shiftLeft, BitVec.toNat_ushiftRight, Nat.shiftRight_eq_div_pow,
      Nat.shiftLeft_eq, Nat.mod_eq_of_lt]
    exact lt_of_le_of_lt (Nat.div_mul_le_self _ _) b.isLt
  cases a with
  | invalid => simp [Addr.keepTop, Addr.toNat]
  | v4 b | v6 b z => exact hshift b _

theorem Addr.withoutZone_of_zone (h : a.zone = "") : a.withoutZone = a := by
  cases a with
  | v6 b z => rw [Addr.withoutZone, ← h]; rfl
  | _ => rfl

/-- The prefix of an address without a zone and a length it has. -/
theorem prefixFrom_spec (ha : a ≠ .invalid) (hz : a.zone = "") (hn : n ≤ a.bitLen) :
    (prefixFrom a n).addr = a ∧ (prefixFrom a n).bits = some n := by
  rw [prefixFrom, dif_pos ⟨ha, by omega, by omega⟩]
  exact ⟨Addr.withoutZone_of_zone hz, by simp⟩

theorem Prefix.masked_spec (hn : p.bits = some n) :
    p.masked.addr = p.addr.keepTop n ∧ p.masked.bits = some n := by
  obtain ⟨hne, hle⟩ := p.bits_le n hn
  have hkeep : p.addr.keepTop n ≠ .invalid := by
    cases hp : p.addr with
    | invalid => exact absurd hp hne
    | _ => simp [Addr.keepTop]
  have hzone : (p.addr.keepTop n).zone = "" := (Addr.zone_keepTop _ _).trans p.zone_eq
  have hmasked : p.masked = prefixFrom (p.addr.keepTop n) n := by
    simp only [Prefix.masked, hn, Addr.toPrefix]
    rw [if_neg (by omega), if_neg hne, if_neg (by omega)]
    rfl
  rw [hmasked]
  exact prefixFrom_spec hkeep hzone (by rw [Addr.bitLen_keepTop]; exact hle)

/-- Masking keeps what a prefix contains. -/
theorem Prefix.contains_masked {ip : Addr} (hz : ip.zone = "") :
    p.masked.contains ip = p.contains ip := by
  cases hn : p.bits with
  | none => simp [Prefix.masked, Prefix.contains, hn, Prefix.zero]
  | some n =>
    obtain ⟨haddr, hbits⟩ := Prefix.masked_spec hn
    rw [Bool.eq_iff_iff, Prefix.contains_iff hbits hz, Prefix.contains_iff hn hz, haddr,
      Addr.bitLen_keepTop, Addr.toNat_keepTop, Nat.mul_div_cancel _ (Nat.two_pow_pos _)]

theorem Prefix.isValid_masked : p.masked.isValid = p.isValid := by
  cases hn : p.bits with
  | none => simp [Prefix.masked, Prefix.isValid, hn, Prefix.zero]
  | some n => simp [Prefix.isValid, (Prefix.masked_spec hn).2, hn]

/-- `Addr.Next` short of the last address adds one. -/
theorem Addr.next_spec (ha : a ≠ .invalid) (hlt : a.toNat + 1 < 2 ^ a.bitLen) :
    a.next ≠ .invalid ∧ a.next.zone = a.zone ∧ a.next.bitLen = a.bitLen ∧
      a.next.toNat = a.toNat + 1 := by
  have hne {w : Nat} (b : BitVec w) (h : b.toNat + 1 < 2 ^ w) : (b == BitVec.allOnes w) = false := by
    refine beq_eq_false_iff_ne.mpr fun h0 => ?_
    rw [h0, BitVec.toNat_allOnes] at h
    omega
  have hadd {w : Nat} (b : BitVec w) (h : b.toNat + 1 < 2 ^ w) : (b + 1).toNat = b.toNat + 1 := by
    rw [BitVec.toNat_add, BitVec.ofNat_eq_ofNat, BitVec.toNat_ofNat, Nat.add_mod_mod,
      Nat.mod_eq_of_lt h]
  cases a with
  | invalid => exact absurd rfl ha
  | v4 b | v6 b z =>
    simp only [Addr.next, hne b hlt, Bool.false_eq_true, if_false]
    exact ⟨by simp, rfl, rfl, hadd b hlt⟩

/-! ## Order -/

theorem Addr.compare_eq_compareLex : Addr.compare =
    compareLex (compareOn Addr.bitLen) (compareLex (compareOn Addr.toNat) (compareOn Addr.zone)) :=
  rfl

instance : Std.TransCmp Addr.compare := by
  rw [Addr.compare_eq_compareLex]
  infer_instance

instance : Std.LawfulEqCmp Addr.compare where
  eq_of_compare {a b} h := by
    simp only [Addr.compare, Ordering.then_eq_eq, Std.LawfulEqOrd.compare_eq_iff_eq] at h
    obtain ⟨hlen, hnat, hzone⟩ := h
    cases a <;> cases b <;> simp_all [Addr.bitLen, Addr.toNat, Addr.zone, BitVec.toNat_inj]

theorem AddrPort.compare_eq_compareLex : AddrPort.compare =
    compareLex (fun a b => a.addr.compare b.addr) (compareOn AddrPort.port) := rfl

instance : Std.TransCmp fun a b : AddrPort => a.addr.compare b.addr where
  eq_swap := (inferInstance : Std.OrientedCmp Addr.compare).eq_swap
  isLE_trans := (inferInstance : Std.TransCmp Addr.compare).isLE_trans

instance : Std.TransCmp AddrPort.compare := by
  rw [AddrPort.compare_eq_compareLex]
  infer_instance

instance : Std.LawfulEqCmp AddrPort.compare where
  eq_of_compare {a b} h := by
    simp only [AddrPort.compare, Ordering.then_eq_eq, Std.LawfulEqOrd.compare_eq_iff_eq] at h
    obtain ⟨haddr, hport⟩ := h
    have haddr := Std.LawfulEqCmp.eq_of_compare haddr
    cases a
    simp_all

/-! ## Unmapping -/

theorem Addr.zone_of_hasZone (h : a.hasZone = false) : a.zone = "" := by
  simpa [Addr.hasZone] using h

theorem Addr.unmap_of_not_mapped (h : a.is4In6 = false) : a.unmap = a := by
  cases a with
  | v6 b z => rw [Addr.unmap, if_neg (by rw [h]; decide)]
  | _ => rfl

theorem Addr.unmap_of_mapped (h : a.is4In6 = true) : ∃ b, a.unmap = .v4 b := by
  cases a with
  | v6 b z => exact ⟨_, by rw [Addr.unmap, if_pos h]⟩
  | _ => cases h

theorem Addr.is4In6_unmap (a : Addr) : a.unmap.is4In6 = false := by
  cases h : a.is4In6 with
  | false => rwa [Addr.unmap_of_not_mapped h]
  | true =>
    obtain ⟨b, hb⟩ := Addr.unmap_of_mapped h
    rw [hb]
    rfl

theorem Addr.unmap_unmap (a : Addr) : a.unmap.unmap = a.unmap :=
  Addr.unmap_of_not_mapped a.is4In6_unmap

theorem Addr.zone_unmap (h : a.zone = "") : a.unmap.zone = "" := by
  cases h4 : a.is4In6 with
  | false => rwa [Addr.unmap_of_not_mapped h4]
  | true =>
    obtain ⟨b, hb⟩ := Addr.unmap_of_mapped h4
    rw [hb]
    rfl

theorem Addr.isValid_unmap (h : a.isValid = true) : a.unmap.isValid = true := by
  cases h4 : a.is4In6 with
  | false => rwa [Addr.unmap_of_not_mapped h4]
  | true =>
    obtain ⟨b, hb⟩ := Addr.unmap_of_mapped h4
    rw [hb]
    rfl

theorem Addr.ne_invalid_of_isValid (h : a.isValid = true) : a ≠ .invalid := by
  rintro rfl
  cases h

end WgoTailscale
