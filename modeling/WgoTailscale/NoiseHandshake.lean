import WgoTailscale.ControlProto
import WgoTailscale.Lib.KeyExchange
import WgoTailscale.Noise

/-!
# The Noise handshake (`internal/controlproto/noise.go`, `noise_test.go`)

`clientDeferred` opens a control connection with the IK handshake: it sends an ephemeral key and,
sealed, its machine key, and its continuation reads the server's answer and derives the keys of the
transport. The server is the responder of the tests, `acceptTestHandshake`. Both keep a transcript
hash and a chaining key in a `SymmetricState` and seal with ciphers that can be used once; what must
not happen, the use of a finished state or of a used cipher, is a panic.

The curve, the hash functions and the cipher are a `NoiseSuite`. The two parties agree on everything
(`noise_handshake_agreement`): after each token of the handshake they have the same symmetric state.
-/

namespace WgoTailscale

open List

/-! ## Primitives -/

/-- What the handshake computes with: `curve25519`, `blake2s.Sum256`, the bytes that
`hkdf.New(newBlake2s, secret, salt, nil)` reads, and `chacha20poly1305`. -/
structure NoiseSuite where
  curve : KeyAgreement PrivateKey MachinePublic (BitVec 256)
  blake2s : List UInt8 → BitVec 256
  hkdf : (secret salt : List UInt8) → Nat → UInt8
  cipher : Aead (BitVec 256) NoiseNonce aeadOverhead

/-- The laws can be met, by the product of the keys and a cipher that appends a constant tag. -/
instance : Inhabited NoiseSuite where
  default :=
    { curve :=
        { publicOf := fun k => ⟨k.raw⟩
          agree := fun k p => .ok (k.raw * p.raw)
          agree_comm := fun a b => by rw [BitVec.mul_comm]
          agree_ok := fun a b => ⟨_, rfl⟩ }
      blake2s := ofBytes32
      hkdf := fun secret salt i => (secret ++ salt).getD (i % 32) 0
      cipher :=
        { sealText := fun _ _ plain _ => plain ++ List.replicate aeadOverhead 0
          openText := fun _ _ ciphertext _ =>
            some (ciphertext.take (ciphertext.length - aeadOverhead))
          length_sealText := fun _ _ plain _ => by simp
          open_seal := fun _ _ plain _ => by simp } }

/-- The key of 32 bytes that a reader of `hkdf` delivers from an offset on. -/
def readKey (r : Nat → UInt8) (offset : Nat) : BitVec 256 :=
  ofBytes32 ((List.range 32).map fun i => r (offset + i))

def MachinePublic.bytes (k : MachinePublic) : List UInt8 := bytes32 k.raw

/-- The copy of the bytes into a key. -/
def MachinePublic.ofBytes (bytes : List UInt8) : MachinePublic := ⟨ofBytes32 bytes⟩

@[simp] theorem MachinePublic.length_bytes (k : MachinePublic) : k.bytes.length = 32 :=
  length_bytes32 k.raw

@[simp] theorem MachinePublic.ofBytes_bytes (k : MachinePublic) : ofBytes k.bytes = k :=
  congrArg MachinePublic.mk (ofBytes32_bytes32 k.raw)

/-- The errors of the handshake. -/
inductive HandshakeError where
  | random (err : String)
  | x25519 (err : String)
  | wrapped (context : String) (err : HandshakeError)
  | plaintextLength
  | openFailed
  | deadline (err : String)
  | stream (err : StreamError)
  | server (message : List UInt8)
  | response (kind : UInt8) (length : Nat)
  | initialMessage
  deriving DecidableEq

/-- How the handshake ends without a connection. -/
inductive HandshakeStop where
  | panicked (text : String)
  | failed (err : HandshakeError)
  deriving DecidableEq

/-- `fmt.Errorf` with a context and `%w`. -/
def wrapError {α : Type} (context : String) : Except HandshakeStop α → Except HandshakeStop α
  | .error (.failed err) => .error (.failed (.wrapped context err))
  | r => r

/-! ## The symmetric state -/

def noiseProtocolName : String := "Noise_IK_25519_ChaChaPoly_BLAKE2s"

def noiseVersionPrefix : String := "Tailscale Control Protocol v"

/-- The bytes of a text. -/
def textBytes (text : String) : List UInt8 := text.toUTF8.toList

/-- `symmetricState`. -/
structure SymmetricState where
  finished : Bool := false
  ck : BitVec 256
  h : BitVec 256

/-- `singleUseAEAD`; the cipher is its key. -/
structure SingleUseAEAD where
  cipher : Option (BitVec 256)

section
variable (S : NoiseSuite)

namespace SingleUseAEAD

/-- `singleUseAEAD.Seal`. -/
def sealText (a : SingleUseAEAD) (plaintext additionalData : List UInt8) :
    Except HandshakeStop (SingleUseAEAD × List UInt8) :=
  match a.cipher with
  | none => .error (.panicked "controlproto: Noise handshake AEAD reused")
  | some key => .ok ({ cipher := none }, S.cipher.sealText key {} plaintext additionalData)

/-- `singleUseAEAD.Open`. -/
def openText (a : SingleUseAEAD) (ciphertext additionalData : List UInt8) :
    Except HandshakeStop (SingleUseAEAD × List UInt8) :=
  match a.cipher with
  | none => .error (.panicked "controlproto: Noise handshake AEAD reused")
  | some key =>
    match S.cipher.openText key {} ciphertext additionalData with
    | none => .error (.failed .openFailed)
    | some plaintext => .ok ({ cipher := none }, plaintext)

end SingleUseAEAD

namespace SymmetricState

/-- `symmetricState.initialize`. -/
def initialized : SymmetricState :=
  let h := S.blake2s (textBytes noiseProtocolName)
  { ck := h, h }

/-- `symmetricState.check`. -/
def check (s : SymmetricState) : Except HandshakeStop Unit :=
  if s.finished then
    .error (.panicked "controlproto: use of finished Noise handshake state")
  else .ok ()

/-- `symmetricState.mixHash`. -/
def mixHash (s : SymmetricState) (data : List UInt8) : Except HandshakeStop SymmetricState := do
  s.check
  return { s with h := S.blake2s (bytes32 s.h ++ data) }

/-- `symmetricState.mixDH`. -/
def mixDH (s : SymmetricState) (privateKey : PrivateKey) (publicKey : MachinePublic) :
    Except HandshakeStop (SymmetricState × SingleUseAEAD) := do
  s.check
  match S.curve.agree privateKey publicKey with
  | .error err => .error (.failed (.x25519 err))
  | .ok keyData =>
    let r := S.hkdf (bytes32 keyData) (bytes32 s.ck)
    return ({ s with ck := readKey r 0 }, { cipher := some (readKey r 32) })

/-- `symmetricState.encryptAndHash` into a destination of the given size. -/
def encryptAndHash (s : SymmetricState) (aead : SingleUseAEAD) (size : Nat)
    (plaintext : List UInt8) :
    Except HandshakeStop (SymmetricState × SingleUseAEAD × List UInt8) := do
  if size ≠ plaintext.length + aeadOverhead then
    throw (.panicked "controlproto: wrong Noise handshake destination length")
  let (aead, out) ← aead.sealText S plaintext (bytes32 s.h)
  let s ← s.mixHash S out
  return (s, aead, out)

/-- `symmetricState.decryptAndHash` into a destination of the given size. -/
def decryptAndHash (s : SymmetricState) (aead : SingleUseAEAD) (size : Nat)
    (ciphertext : List UInt8) :
    Except HandshakeStop (SymmetricState × SingleUseAEAD × List UInt8) := do
  if ciphertext.length ≠ size + aeadOverhead then throw (.failed .plaintextLength)
  let (aead, plaintext) ← aead.openText S ciphertext (bytes32 s.h)
  let s ← s.mixHash S ciphertext
  return (s, aead, plaintext)

/-- `symmetricState.split`: the finished state and the two keys. -/
def split (s : SymmetricState) : SymmetricState × BitVec 256 × BitVec 256 :=
  let r := S.hkdf [] (bytes32 s.ck)
  ({ s with finished := true }, readKey r 0, readKey r 32)

end SymmetricState

/-! ## The client -/

/-- `protocolPrologue`. -/
def protocolPrologue (version : UInt16) : List UInt8 :=
  textBytes noiseVersionPrefix ++ textBytes (String.ofList (Nat.toDigits 10 version.toNat))

/-- The ciphers of the two directions of a `NoiseConn`, by their keys. -/
structure NoiseCiphers where
  tx : BitVec 256
  rx : BitVec 256

/-- The variables that the continuation of `clientDeferred` captures. -/
structure NoiseContinuation where
  state : SymmetricState
  ephemeral : PrivateKey
  machineKey : PrivateKey

/-- `NewPrivateKey`, given what it returns. -/
def newPrivateKey (key : Except String PrivateKey) : Except HandshakeStop PrivateKey :=
  key.mapError fun err => .failed (.random err)

/-- `clientDeferred`: the initial message and the continuation. -/
def clientDeferred (machineKey : PrivateKey) (controlKey : MachinePublic) (version : UInt16)
    (newKey : Except String PrivateKey) :
    Except HandshakeStop (List UInt8 × NoiseContinuation) := do
  let state ← (SymmetricState.initialized S).mixHash S (protocolPrologue version)
  let state ← state.mixHash S controlKey.bytes
  let header := putUint16 version.toNat ++ 1 :: putUint16 96
  let ephemeral ← newPrivateKey newKey
  let ephemeralPublic := S.curve.publicOf ephemeral
  let state ← state.mixHash S ephemeralPublic.bytes
  let (state, aead) ← wrapError "noise es: " (state.mixDH S ephemeral controlKey)
  let machinePublic := S.curve.publicOf machineKey
  let (state, _, sealedKey) ← state.encryptAndHash S aead 48 machinePublic.bytes
  let (state, aead) ← wrapError "noise ss: " (state.mixDH S machineKey controlKey)
  let (state, _, tag) ← state.encryptAndHash S aead 16 []
  return (header ++ ephemeralPublic.bytes ++ sealedKey ++ tag, { state, ephemeral, machineKey })

/-- The outcome of `io.ReadFull`, with what is left to be delivered. -/
def readStream (n : Nat) (incoming : List Incoming) :
    Except HandshakeStop (List UInt8 × List Incoming) :=
  match readFull n incoming with
  | (.ok bytes, rest) => .ok (bytes, rest)
  | (.error err, _) => .error (.failed (.stream err))

/-- What is in a buffer of `n` bytes after an `io.ReadFull` whose error is ignored. -/
def readBuffer (n : Nat) (incoming : List Incoming) : List UInt8 :=
  let read := (streamBytes (incoming.takeWhile fun
    | .data _ => true
    | .fail _ => false)).take n
  read ++ List.replicate (n - read.length) 0

/-- The continuation of `clientDeferred`, given what `SetDeadline` returns if it is called and what
the connection delivers: the ciphers, and what is left to be delivered. -/
def NoiseContinuation.complete (k : NoiseContinuation) (setDeadline : Except String Unit)
    (incoming : List Incoming) : Except HandshakeStop (NoiseCiphers × List Incoming) := do
  setDeadline.mapError fun err => .failed (.deadline err)
  let (header, incoming) ← wrapError "read Noise response header: " (readStream 3 incoming)
  let length := getUint16 header.tail
  if header.headD 0 = 3 then throw (.failed (.server (readBuffer length incoming)))
  if header.headD 0 ≠ 2 ∨ length ≠ 48 then throw (.failed (.response (header.headD 0) length))
  let (payload, incoming) ← readStream length incoming
  let serverEphemeral := MachinePublic.ofBytes (payload.take 32)
  let state ← k.state.mixHash S serverEphemeral.bytes
  let (state, _) ← wrapError "noise ee: " (state.mixDH S k.ephemeral serverEphemeral)
  let (state, aead) ← wrapError "noise se: " (state.mixDH S k.machineKey serverEphemeral)
  let (state, _, _) ← wrapError "authenticate Noise response: "
    (state.decryptAndHash S aead 0 (payload.drop 32))
  let (_, tx, rx) := state.split S
  return ({ tx, rx }, incoming)

/-! ## The server -/

/-- What the responder ends with: its ciphers, the response, and the machine key it recovered. -/
structure AcceptedHandshake where
  conn : NoiseCiphers
  response : List UInt8
  machinePublic : MachinePublic

/-- `acceptTestHandshake`. -/
def acceptTestHandshake (serverStatic : PrivateKey) (initial : List UInt8) (version : UInt16)
    (newKey : Except String PrivateKey) : Except HandshakeStop AcceptedHandshake := do
  if initial.length ≠ 101 ∨ getUint16 initial ≠ version.toNat then
    throw (.failed .initialMessage)
  let state ← (SymmetricState.initialized S).mixHash S (protocolPrologue version)
  let serverPublic := S.curve.publicOf serverStatic
  let state ← state.mixHash S serverPublic.bytes
  let clientEphemeral := MachinePublic.ofBytes ((initial.drop 5).take 32)
  let state ← state.mixHash S clientEphemeral.bytes
  let (state, aead) ← state.mixDH S serverStatic clientEphemeral
  let (state, _, machinePublic) ← state.decryptAndHash S aead 32 ((initial.drop 37).take 48)
  let machinePublic := MachinePublic.ofBytes machinePublic
  let (state, aead) ← state.mixDH S serverStatic machinePublic
  let (state, _, _) ← state.decryptAndHash S aead 0 ((initial.drop 85).take 16)
  let serverEphemeral ← newPrivateKey newKey
  let serverEphemeralPublic := S.curve.publicOf serverEphemeral
  let state ← state.mixHash S serverEphemeralPublic.bytes
  let (state, _) ← state.mixDH S serverEphemeral clientEphemeral
  let (state, aead) ← state.mixDH S serverEphemeral machinePublic
  let (state, _, tag) ← state.encryptAndHash S aead 16 []
  let (_, clientTX, clientRX) := state.split S
  let payload := serverEphemeralPublic.bytes ++ tag
  return { conn := { tx := clientRX, rx := clientTX }
           response := 2 :: putUint16 payload.length ++ payload
           machinePublic }

/-! ## Agreement -/

variable {S} {s : SymmetricState}

namespace SymmetricState

/-- A state that is not finished takes up data, and is not finished afterwards. -/
theorem mixHash_ok (hs : s.finished = false) (data : List UInt8) :
    ∃ s', s.mixHash S data = .ok s' ∧ s'.finished = false := by
  refine ⟨{ s with h := S.blake2s (bytes32 s.h ++ data) }, ?_, hs⟩
  rw [mixHash, check, hs]
  rfl

/-- It takes up a shared secret, which both parties compute, and gives them the same cipher. -/
theorem mixDH_ok (hs : s.finished = false) (a b : PrivateKey) :
    ∃ s' key, s.mixDH S a (S.curve.publicOf b) = .ok (s', ⟨some key⟩) ∧
      s.mixDH S b (S.curve.publicOf a) = .ok (s', ⟨some key⟩) ∧ s'.finished = false := by
  obtain ⟨shared, hshared⟩ := S.curve.agree_ok a b
  have hshared' := (S.curve.agree_comm a b).symm.trans hshared
  let r := S.hkdf (bytes32 shared) (bytes32 s.ck)
  refine ⟨{ s with ck := readKey r 0 }, readKey r 32, ?_, ?_, hs⟩
  · rw [mixDH, check, hs, hshared]
    rfl
  · rw [mixDH, check, hs, hshared']
    rfl

/-- What one party seals with a fresh cipher, the other one opens with it, and both have the same
state afterwards. -/
theorem encryptAndHash_ok (hs : s.finished = false) (key : BitVec 256) (size : Nat)
    (plaintext : List UInt8) (hsize : plaintext.length + aeadOverhead = size) :
    ∃ s' out, s.encryptAndHash S ⟨some key⟩ size plaintext = .ok (s', ⟨none⟩, out) ∧
      s.decryptAndHash S ⟨some key⟩ plaintext.length out = .ok (s', ⟨none⟩, plaintext) ∧
      out.length = size ∧ s'.finished = false := by
  have hlength := S.cipher.length_sealText key {} plaintext (bytes32 s.h)
  obtain ⟨s', hmix, hs'⟩ := mixHash_ok (S := S) hs
    (S.cipher.sealText key {} plaintext (bytes32 s.h))
  refine ⟨s', _, ?_, ?_, hlength.trans hsize, hs'⟩
  · simp only [encryptAndHash, ← hsize, ne_eq, not_true_eq_false, if_false, SingleUseAEAD.sealText,
      bind, Except.bind, pure, Except.pure, hmix]
  · simp only [decryptAndHash, hlength, ne_eq, not_true_eq_false, if_false, SingleUseAEAD.openText,
      S.cipher.open_seal, bind, Except.bind, pure, Except.pure, hmix]

end SymmetricState

/-- The fields of the initial message. -/
theorem initial_fields {version : UInt16} {ephemeralPublic : MachinePublic}
    {sealedKey tag : List UInt8} (hsealed : sealedKey.length = 48) (htag : tag.length = 16) :
    let initial := putUint16 version.toNat ++ 1 :: putUint16 96 ++ ephemeralPublic.bytes ++
      sealedKey ++ tag
    initial.length = 101 ∧ getUint16 initial = version.toNat ∧
      (initial.drop 5).take 32 = ephemeralPublic.bytes ∧ (initial.drop 37).take 48 = sealedKey ∧
      (initial.drop 85).take 16 = tag := by
  have hheader : (putUint16 version.toNat ++ 1 :: putUint16 96).length = 5 := rfl
  have hkey := ephemeralPublic.length_bytes
  refine ⟨?_, ?_, ?_, ?_, ?_⟩
  · simp only [length_append, hheader, hkey, hsealed, htag]
  · rw [append_assoc, append_assoc, append_assoc, getUint16_putUint16]
    exact version.toNat_lt
  · rw [append_assoc, append_assoc, ← hheader, drop_left, ← hkey, take_left]
  · rw [append_assoc, drop_left' (by rw [length_append, hheader, hkey]), ← hsealed,
      take_left]
  · rw [drop_left' (by simp only [length_append, hheader, hkey, hsealed]), ← htag,
      take_length]

/-- The states that both parties go through, token by token, with the keys of the ciphers and what
is sealed with them on the way: the initial message is `e, es, s, ss` and the response is
`e, ee, se`. -/
structure NoiseRun (S : NoiseSuite)
    (machineKey serverStatic clientEphemeral serverEphemeral : PrivateKey) (version : UInt16) where
  (prologue static e es s ss auth e' ee se done : SymmetricState)
  (esKey ssKey eeKey seKey : BitVec 256)
  (sealedKey tag proof : List UInt8)
  prologue_eq : (SymmetricState.initialized S).mixHash S (protocolPrologue version) = .ok prologue
  static_eq : prologue.mixHash S (S.curve.publicOf serverStatic).bytes = .ok static
  e_eq : static.mixHash S (S.curve.publicOf clientEphemeral).bytes = .ok e
  es_client : e.mixDH S clientEphemeral (S.curve.publicOf serverStatic) = .ok (es, ⟨some esKey⟩)
  es_server : e.mixDH S serverStatic (S.curve.publicOf clientEphemeral) = .ok (es, ⟨some esKey⟩)
  s_client : es.encryptAndHash S ⟨some esKey⟩ 48 (S.curve.publicOf machineKey).bytes =
    .ok (s, ⟨none⟩, sealedKey)
  s_server : es.decryptAndHash S ⟨some esKey⟩ 32 sealedKey =
    .ok (s, ⟨none⟩, (S.curve.publicOf machineKey).bytes)
  length_sealedKey : sealedKey.length = 48
  ss_client : s.mixDH S machineKey (S.curve.publicOf serverStatic) = .ok (ss, ⟨some ssKey⟩)
  ss_server : s.mixDH S serverStatic (S.curve.publicOf machineKey) = .ok (ss, ⟨some ssKey⟩)
  auth_client : ss.encryptAndHash S ⟨some ssKey⟩ 16 [] = .ok (auth, ⟨none⟩, tag)
  auth_server : ss.decryptAndHash S ⟨some ssKey⟩ 0 tag = .ok (auth, ⟨none⟩, [])
  length_tag : tag.length = 16
  e'_eq : auth.mixHash S (S.curve.publicOf serverEphemeral).bytes = .ok e'
  ee_client : e'.mixDH S clientEphemeral (S.curve.publicOf serverEphemeral) =
    .ok (ee, ⟨some eeKey⟩)
  ee_server : e'.mixDH S serverEphemeral (S.curve.publicOf clientEphemeral) =
    .ok (ee, ⟨some eeKey⟩)
  se_client : ee.mixDH S machineKey (S.curve.publicOf serverEphemeral) = .ok (se, ⟨some seKey⟩)
  se_server : ee.mixDH S serverEphemeral (S.curve.publicOf machineKey) = .ok (se, ⟨some seKey⟩)
  done_server : se.encryptAndHash S ⟨some seKey⟩ 16 [] = .ok (done, ⟨none⟩, proof)
  done_client : se.decryptAndHash S ⟨some seKey⟩ 0 proof = .ok (done, ⟨none⟩, [])
  length_proof : proof.length = 16

variable {machineKey serverStatic clientEphemeral serverEphemeral : PrivateKey} {version : UInt16}

/-- No token fails, and none meets a finished state or a used cipher. -/
theorem exists_noiseRun (S : NoiseSuite)
    (machineKey serverStatic clientEphemeral serverEphemeral : PrivateKey) (version : UInt16) :
    Nonempty (NoiseRun S machineKey serverStatic clientEphemeral serverEphemeral version) := by
  have hkey : (S.curve.publicOf machineKey).bytes.length = 32 := MachinePublic.length_bytes _
  obtain ⟨prologue, hprologue, f₁⟩ := SymmetricState.mixHash_ok (S := S) (s := .initialized S) rfl
    (protocolPrologue version)
  obtain ⟨static, hstatic, f₂⟩ := SymmetricState.mixHash_ok (S := S) f₁
    (S.curve.publicOf serverStatic).bytes
  obtain ⟨e, he, f₃⟩ := SymmetricState.mixHash_ok (S := S) f₂
    (S.curve.publicOf clientEphemeral).bytes
  obtain ⟨es, esKey, hes, hes', f₄⟩ := SymmetricState.mixDH_ok (S := S) f₃ clientEphemeral
    serverStatic
  obtain ⟨s, sealedKey, hs, hs', hsealed, f₅⟩ := SymmetricState.encryptAndHash_ok (S := S) f₄ esKey
    48 (S.curve.publicOf machineKey).bytes (by rw [hkey]; rfl)
  obtain ⟨ss, ssKey, hss, hss', f₆⟩ := SymmetricState.mixDH_ok (S := S) f₅ machineKey serverStatic
  obtain ⟨auth, tag, hauth, hauth', htag, f₇⟩ := SymmetricState.encryptAndHash_ok (S := S) f₆ ssKey
    16 [] rfl
  obtain ⟨e', he', f₈⟩ := SymmetricState.mixHash_ok (S := S) f₇
    (S.curve.publicOf serverEphemeral).bytes
  obtain ⟨ee, eeKey, hee, hee', f₉⟩ := SymmetricState.mixDH_ok (S := S) f₈ clientEphemeral
    serverEphemeral
  obtain ⟨se, seKey, hse, hse', f₁₀⟩ := SymmetricState.mixDH_ok (S := S) f₉ machineKey
    serverEphemeral
  obtain ⟨done, proof, hdone, hdone', hproof, -⟩ := SymmetricState.encryptAndHash_ok (S := S) f₁₀
    seKey 16 [] rfl
  rw [hkey] at hs'
  exact ⟨⟨prologue, static, e, es, s, ss, auth, e', ee, se, done, esKey, ssKey, eeKey, seKey,
    sealedKey, tag, proof, hprologue, hstatic, he, hes, hes', hs, hs', hsealed, hss, hss', hauth,
    hauth', htag, he', hee, hee', hse, hse', hdone, hdone', hproof⟩⟩

namespace NoiseRun

variable (r : NoiseRun S machineKey serverStatic clientEphemeral serverEphemeral version)
include r

/-- The initial message. -/
def initial : List UInt8 :=
  putUint16 version.toNat ++ 1 :: putUint16 96 ++ (S.curve.publicOf clientEphemeral).bytes ++
    r.sealedKey ++ r.tag

/-- What follows the header of the response. -/
def payload : List UInt8 := (S.curve.publicOf serverEphemeral).bytes ++ r.proof

theorem length_payload : r.payload.length = 48 := by
  rw [payload, length_append, MachinePublic.length_bytes, r.length_proof]

/-- The client gets as far as the initial message. -/
theorem client : clientDeferred S machineKey (S.curve.publicOf serverStatic) version
    (.ok clientEphemeral) = .ok (r.initial, ⟨r.auth, clientEphemeral, machineKey⟩) := by
  simp only [clientDeferred, newPrivateKey, Except.mapError, wrapError, r.prologue_eq, r.static_eq,
    r.e_eq, r.es_client, r.s_client, r.ss_client, r.auth_client, bind, Except.bind, pure,
    Except.pure]
  rfl

/-- The server accepts it. -/
theorem server : acceptTestHandshake S serverStatic r.initial version (.ok serverEphemeral) =
    .ok { conn := { tx := (r.done.split S).2.2, rx := (r.done.split S).2.1 }
          response := 2 :: putUint16 48 ++ r.payload
          machinePublic := S.curve.publicOf machineKey } := by
  obtain ⟨hlength, hversion, hfirst, hsecond, hthird⟩ :
      r.initial.length = 101 ∧ getUint16 r.initial = version.toNat ∧
        (r.initial.drop 5).take 32 = (S.curve.publicOf clientEphemeral).bytes ∧
        (r.initial.drop 37).take 48 = r.sealedKey ∧ (r.initial.drop 85).take 16 = r.tag :=
    initial_fields r.length_sealedKey r.length_tag
  have hpayload := r.length_payload
  rw [payload] at hpayload ⊢
  simp only [acceptTestHandshake, hlength, hversion, hfirst, hsecond, hthird, ne_eq,
    not_true_eq_false, or_self, if_false, MachinePublic.ofBytes_bytes, newPrivateKey,
    Except.mapError, r.prologue_eq, r.static_eq, r.e_eq, r.es_server, r.s_server, r.ss_server,
    r.auth_server, r.e'_eq, r.ee_server, r.se_server, r.done_server, hpayload, bind, Except.bind,
    pure, Except.pure]

/-- The client completes the handshake with the response. -/
theorem complete {incoming : List Incoming} {more : List UInt8} (hunbroken : Unbroken incoming)
    (hbytes : streamBytes incoming = 2 :: putUint16 48 ++ r.payload ++ more) :
    ∃ rest, NoiseContinuation.complete S ⟨r.auth, clientEphemeral, machineKey⟩ (.ok ()) incoming =
        .ok (⟨(r.done.split S).2.1, (r.done.split S).2.2⟩, rest) ∧ streamBytes rest = more := by
  rw [append_assoc] at hbytes
  obtain ⟨incoming', hheader, hunbroken', hbytes'⟩ := readFull_unbroken hunbroken hbytes
  obtain ⟨rest, hpayload, -, hmore⟩ := readFull_unbroken hunbroken' hbytes'
  refine ⟨rest, ?_, hmore⟩
  rw [r.length_payload] at hpayload
  have hkey : r.payload.take 32 = (S.curve.publicOf serverEphemeral).bytes := by
    rw [payload, ← (S.curve.publicOf serverEphemeral).length_bytes, take_left]
  have hproof : r.payload.drop 32 = r.proof := by
    rw [payload, ← (S.curve.publicOf serverEphemeral).length_bytes, drop_left]
  have hheader : readStream 3 incoming = .ok ([2, 0, 48], incoming') := by
    unfold readStream
    rw [show (3 : Nat) = (2 :: putUint16 48).length from rfl, hheader]
    rfl
  have hpayload : readStream 48 incoming' = .ok (r.payload, rest) := by
    unfold readStream
    rw [hpayload]
  have hlength : getUint16 [0, 48] = 48 := rfl
  simp only [NoiseContinuation.complete, Except.mapError, wrapError, hheader, hlength, List.headD,
    tail_cons, hpayload, hkey, hproof, MachinePublic.ofBytes_bytes, r.e'_eq, r.ee_client,
    r.se_client, r.done_client, bind, Except.bind, pure, Except.pure]
  rfl

end NoiseRun

end

/-- The handshake of a client and a server, for all their keys: the client's initial message is
accepted by the server, which recovers the client's machine key, and however the server's response
is cut into segments on the way, the client completes the handshake; neither panics. The client
sends under the key that the server receives under, and receives under the one that the server
sends under. -/
theorem noise_handshake_agreement (S : NoiseSuite)
    (machineKey serverStatic clientEphemeral serverEphemeral : PrivateKey) (version : UInt16) :
    ∃ initial continuation accepted,
      clientDeferred S machineKey (S.curve.publicOf serverStatic) version (.ok clientEphemeral) =
        .ok (initial, continuation) ∧
      acceptTestHandshake S serverStatic initial version (.ok serverEphemeral) = .ok accepted ∧
      accepted.machinePublic = S.curve.publicOf machineKey ∧
      ∀ incoming more, Unbroken incoming → streamBytes incoming = accepted.response ++ more →
        ∃ conn rest, continuation.complete S (.ok ()) incoming = .ok (conn, rest) ∧
          streamBytes rest = more ∧ conn.tx = accepted.conn.rx ∧ conn.rx = accepted.conn.tx := by
  obtain ⟨r⟩ := exists_noiseRun S machineKey serverStatic clientEphemeral serverEphemeral version
  refine ⟨_, _, _, r.client, r.server, rfl, fun incoming more hunbroken hbytes => ?_⟩
  obtain ⟨rest, hcomplete, hmore⟩ := r.complete hunbroken hbytes
  exact ⟨_, rest, hcomplete, hmore, rfl, rfl⟩

end WgoTailscale
