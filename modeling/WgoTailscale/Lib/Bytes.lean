import Mathlib.Data.List.Induction
import Mathlib.Tactic.Ring

/-!
# Byte strings

Big-endian numbers in byte strings, and Go's slice expressions on them. A slice or an index out of
range is a panic, here `none`; what is cut out of a concatenation of known parts is one of the parts
(`slice_append`, `number_append`).
-/

namespace Bytes

/-! ## Numbers -/

/-- The number that bytes stand for, the first one most significant. -/
def toNat (bytes : List UInt8) : Nat := bytes.foldl (fun n byte => n * 256 + byte.toNat) 0

/-- The last `w` bytes of a number, the first one most significant. -/
def ofNat : (w n : Nat) → List UInt8
  | 0, _ => []
  | w + 1, n => ofNat w (n / 256) ++ [UInt8.ofNat n]

@[simp] theorem length_ofNat (w n : Nat) : (ofNat w n).length = w := by
  induction w generalizing n with
  | zero => rfl
  | succ w ih => rw [ofNat, List.length_append, ih, List.length_singleton]

theorem toNat_concat (bytes : List UInt8) (byte : UInt8) :
    toNat (bytes ++ [byte]) = toNat bytes * 256 + byte.toNat := by
  rw [toNat, List.foldl_append]
  rfl

theorem toNat_append (bytes more : List UInt8) :
    toNat (bytes ++ more) = toNat bytes * 256 ^ more.length + toNat more := by
  induction more using List.reverseRecOn with
  | nil => simp [toNat]
  | append_singleton more byte ih =>
    rw [← List.append_assoc, toNat_concat, ih, toNat_concat, List.length_append,
      List.length_singleton, Nat.pow_succ]
    ring

theorem toNat_ofNat (w n : Nat) : toNat (ofNat w n) = n % 256 ^ w := by
  induction w generalizing n with
  | zero => rw [Nat.pow_zero, Nat.mod_one]; rfl
  | succ w ih =>
    have hsplit : n % 256 ^ (w + 1) = n % 256 + 256 * (n / 256 % 256 ^ w) := by
      rw [Nat.pow_succ', Nat.mod_mul]
    rw [ofNat, toNat_concat, ih, UInt8.toNat_ofNat', hsplit]
    omega

/-- A number that fits is read back. -/
theorem toNat_ofNat_of_lt {w n : Nat} (h : n < 256 ^ w) : toNat (ofNat w n) = n := by
  rw [toNat_ofNat, Nat.mod_eq_of_lt h]

theorem ofNat_toNat (bytes : List UInt8) : ofNat bytes.length (toNat bytes) = bytes := by
  induction bytes using List.reverseRecOn with
  | nil => rfl
  | append_singleton bytes byte ih =>
    have hbyte := byte.toNat_lt
    have hdiv : (toNat bytes * 256 + byte.toNat) / 256 = toNat bytes := by omega
    have hlast : UInt8.ofNat (toNat bytes * 256 + byte.toNat) = byte := by
      apply UInt8.toNat_inj.mp
      rw [UInt8.toNat_ofNat']
      omega
    rw [List.length_append, List.length_singleton, ofNat, toNat_concat, hdiv, ih, hlast]

/-- Byte strings of one length are told apart by their numbers. -/
theorem toNat_inj {bytes bytes' : List UInt8} (hlength : bytes.length = bytes'.length)
    (h : toNat bytes = toNat bytes') : bytes = bytes' := by
  rw [← ofNat_toNat bytes, ← ofNat_toNat bytes', hlength, h]

/-! ## Slices -/

/-- `bytes[i:j]`. -/
def slice (bytes : List UInt8) (i j : Nat) : Option (List UInt8) :=
  if i ≤ j ∧ j ≤ bytes.length then some ((bytes.take j).drop i) else none

/-- `bytes[i]`. -/
def index (bytes : List UInt8) (i : Nat) : Option UInt8 := bytes[i]?

/-- `binary.BigEndian.Uint16` and its like, on the first `w` bytes. -/
def number (w : Nat) (bytes : List UInt8) : Option Nat :=
  if w ≤ bytes.length then some (toNat (bytes.take w)) else none

section
variable {bytes a b c : List UInt8} {i j w : Nat}

theorem slice_eq (hij : i ≤ j) (hj : j ≤ bytes.length) :
    slice bytes i j = some ((bytes.take j).drop i) := if_pos ⟨hij, hj⟩

theorem length_slice (h : slice bytes i j = some a) : a.length = j - i := by
  unfold slice at h
  split at h
  · next hbounds =>
    cases h
    rw [List.length_drop, List.length_take, Nat.min_eq_left hbounds.2]
  · cases h

theorem exists_slice (hij : i ≤ j) (hj : j ≤ bytes.length) :
    ∃ a, slice bytes i j = some a ∧ a.length = j - i :=
  ⟨_, slice_eq hij hj, length_slice (slice_eq hij hj)⟩

/-- A part is cut out of a concatenation. -/
theorem drop_take_append (hi : i = a.length) (hj : j = a.length + b.length) :
    ((a ++ (b ++ c)).take j).drop i = b := by
  subst hi hj
  rw [← List.append_assoc, ← List.length_append, List.take_left, List.drop_left]

theorem slice_append (hi : i = a.length) (hj : j = a.length + b.length) :
    slice (a ++ (b ++ c)) i j = some b := by
  have hlength : j ≤ (a ++ (b ++ c)).length := by
    simp only [List.length_append]
    omega
  rw [slice_eq (by omega) hlength, drop_take_append hi hj]

theorem number_eq (h : w ≤ bytes.length) : number w bytes = some (toNat (bytes.take w)) := if_pos h

/-- All of the bytes are read. -/
theorem number_of_length (h : bytes.length = w) : number w bytes = some (toNat bytes) := by
  rw [number_eq (Nat.le_of_eq h.symm), List.take_of_length_le (Nat.le_of_eq h)]

theorem exists_index (h : i < bytes.length) : ∃ byte, index bytes i = some byte :=
  ⟨_, List.getElem?_eq_getElem h⟩

end

/-! ## Masks -/

/-- The bytes under a mask. -/
def xor (bytes mask : List UInt8) : List UInt8 := List.zipWith (· ^^^ ·) bytes mask

/-- The number of masked bytes. -/
theorem toNat_xor {bytes mask : List UInt8} (h : bytes.length = mask.length) :
    toNat (xor bytes mask) = toNat bytes ^^^ toNat mask := by
  induction bytes using List.reverseRecOn generalizing mask with
  | nil =>
    obtain rfl := List.length_eq_zero_iff.mp h.symm
    rfl
  | append_singleton bytes byte ih =>
    cases mask using List.reverseRecOn with
    | nil =>
      rw [List.length_append] at h
      cases h
    | append_singleton mask m _ =>
      rw [List.length_append, List.length_append, List.length_singleton, List.length_singleton] at h
      have hlength : bytes.length = mask.length := Nat.succ.inj h
      have hsplit : xor (bytes ++ [byte]) (mask ++ [m]) = xor bytes mask ++ [byte ^^^ m] :=
        List.zipWith_append hlength
      have hbyte := byte.toNat_lt
      have hm := m.toNat_lt
      have hdiv := Nat.xor_div_two_pow (a := toNat bytes * 256 + byte.toNat)
        (b := toNat mask * 256 + m.toNat) (n := 8)
      have hmod := Nat.xor_mod_two_pow (a := toNat bytes * 256 + byte.toNat)
        (b := toNat mask * 256 + m.toNat) (n := 8)
      rw [show (toNat bytes * 256 + byte.toNat) / 2 ^ 8 = toNat bytes by omega,
        show (toNat mask * 256 + m.toNat) / 2 ^ 8 = toNat mask by omega] at hdiv
      rw [show (toNat bytes * 256 + byte.toNat) % 2 ^ 8 = byte.toNat by omega,
        show (toNat mask * 256 + m.toNat) % 2 ^ 8 = m.toNat by omega] at hmod
      rw [hsplit, toNat_concat, ih hlength, toNat_concat, toNat_concat, UInt8.toNat_xor]
      omega

end Bytes
