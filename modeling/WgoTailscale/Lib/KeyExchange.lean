import WgoTailscale.Lib.Digits

/-!
# Primitives of an authenticated key exchange

A key agreement in which the two parties compute the same secret from each other's public values, an
authenticated cipher with additional data, and the 32-byte strings they work on. What a protocol
rests on is part of the structures: agreement commutes and succeeds on public values, and what was
sealed can be opened.
-/

/-- A key agreement with private values `κ`, public values `π` and secrets `σ`. -/
structure KeyAgreement (κ π σ : Type) where
  publicOf : κ → π
  agree : κ → π → Except String σ
  agree_comm : ∀ a b, agree a (publicOf b) = agree b (publicOf a)
  agree_ok : ∀ a b, ∃ shared, agree a (publicOf b) = .ok shared

/-- An authenticated cipher with keys `κ` and nonces `ν`. -/
structure Aead (κ ν : Type) (overhead : Nat) where
  sealText : (key : κ) → (nonce : ν) → (plain additional : List UInt8) → List UInt8
  openText : (key : κ) → (nonce : ν) → (ciphertext additional : List UInt8) → Option (List UInt8)
  length_sealText : ∀ key nonce plain additional,
    (sealText key nonce plain additional).length = plain.length + overhead
  open_seal : ∀ key nonce plain additional,
    openText key nonce (sealText key nonce plain additional) additional = some plain

/-- The bytes of a 32-byte string, the first one most significant. -/
def bytes32 (v : BitVec 256) : List UInt8 :=
  (List.range 32).map fun i => UInt8.ofNat (v.toNat / 256 ^ (32 - 1 - i) % 256)

/-- The 32-byte string with the given bytes. -/
def ofBytes32 (bytes : List UInt8) : BitVec 256 :=
  BitVec.ofNat 256 (WgoTailscale.Digits.value 256 (bytes.map UInt8.toNat))

@[simp] theorem length_bytes32 (v : BitVec 256) : (bytes32 v).length = 32 := by
  rw [bytes32, List.length_map, List.length_range]

@[simp] theorem ofBytes32_bytes32 (v : BitVec 256) : ofBytes32 (bytes32 v) = v := by
  have hbyte : UInt8.toNat ∘ (fun i => UInt8.ofNat (v.toNat / 256 ^ (32 - 1 - i) % 256)) =
      fun i => v.toNat / 256 ^ (32 - 1 - i) % 256 := by
    funext i
    simp [UInt8.toNat_ofNat']
  rw [ofBytes32, bytes32, List.map_map, hbyte, WgoTailscale.Digits.value_positions]
  apply BitVec.eq_of_toNat_eq
  rw [BitVec.toNat_ofNat]
  have := v.isLt
  omega
