import WgoTailscale.Lib.ByteStream
import WgoTailscale.Lib.IdealAead
import WgoTailscale.Lib.Transition

/-!
# The Noise transport (`internal/controlproto/noise.go`)

After the handshake each end of a control connection seals what it writes, in records of bounded
size, under a key of its own and a nonce that counts its records; the other end opens them under a
nonce that counts the records it received. `noiseSystem` is both ends with a network between them
that delivers to either whatever it likes. `Write` is modelled round by round, since reads of the other
end may happen between two of its records; it holds the lock of its direction throughout. `Read` is
one step: nothing that it touches is shared, and of its rounds only the last one opens a record with
a text in it. What happened is kept in a history, of which the seals are what can be opened.
-/

namespace WgoTailscale

/-! ## Nonces and directions -/

/-- `chacha20poly1305.Overhead`. -/
def aeadOverhead : Nat := 16

def noiseHeaderLen : Nat := 3

def noiseMaxMessageSize : Nat := 4096

def noiseMaxCiphertext : Nat := noiseMaxMessageSize - noiseHeaderLen

def noiseMaxPlaintext : Nat := noiseMaxCiphertext - aeadOverhead

/-- `noiseInvalidNonce`, the largest `uint64`. -/
def noiseInvalidNonce : UInt64 := 0xffffffffffffffff

/-- `noiseNonce`: the first four of its twelve bytes, and the counter in the others. -/
structure NoiseNonce where
  head : UInt32 := 0
  counter : UInt64 := 0
  deriving DecidableEq

/-- `noiseNonce.valid`. -/
def NoiseNonce.valid (n : NoiseNonce) : Bool := n.head = 0 ∧ n.counter ≠ noiseInvalidNonce

/-- `noiseNonce.increment`, which panics on an invalid nonce. -/
def NoiseNonce.increment (n : NoiseNonce) : Option NoiseNonce :=
  if n.valid then some { n with counter := n.counter + 1 } else none

/-- The two ends of a connection. The key that an end seals with is named after it. -/
inductive Side where
  | client
  | server
  deriving DecidableEq, Repr

def Side.other : Side → Side
  | .client => .server
  | .server => .client

/-- A text that was sealed. -/
abbrev SealedRecord := Sealed Side NoiseNonce

/-- `noiseDirection`; the cipher is its key. -/
structure NoiseDirection where
  cipher : Option Side
  nonce : NoiseNonce := {}
  err : Option String := none
  plain : List UInt8 := []

/-- The variables of a `Write` in progress: what is left of its argument, and how much was
written. -/
structure WriteCall where
  src : List UInt8
  written : Nat := 0

/-- `NoiseConn`. `incoming` is what its underlying connection delivers; `writing` is the `Write` in
progress. -/
structure NoiseConn where
  rx : NoiseDirection
  tx : NoiseDirection
  incoming : List Incoming := []
  writing : Option WriteCall := none

/-! ## Records -/

/-- `binary.BigEndian.PutUint16`. -/
def putUint16 (n : Nat) : List UInt8 := [UInt8.ofNat (n / 256), UInt8.ofNat n]

/-- `binary.BigEndian.Uint16`. -/
def getUint16 : List UInt8 → Nat
  | high :: low :: _ => high.toNat * 256 + low.toNat
  | _ => 0

theorem getUint16_putUint16 {n : Nat} (hn : n < 2 ^ 16) (more : List UInt8) :
    getUint16 (putUint16 n ++ more) = n := by
  simp only [putUint16, getUint16, List.cons_append, UInt8.toNat_ofNat']
  omega

/-- A record of a sealed chunk. -/
def noiseFrame (chunk ciphertext : List UInt8) : List UInt8 :=
  4 :: putUint16 (chunk.length + aeadOverhead) ++ ciphertext

/-! ## Reading -/

/-- The errors of `Read`. -/
inductive NoiseError where
  | closed
  | stream (err : StreamError)
  | recordType (kind : UInt8)
  | recordLength (length : Nat)
  | authentication
  deriving DecidableEq

/-- How `Read` ends without bytes. -/
inductive NoiseStop where
  | failed (err : NoiseError)
  | panicked
  deriving DecidableEq

/-- The loop of `NoiseConn.Read`, once the given texts were sealed: the direction, what is left to
be delivered, and why the call ends if it ends here. -/
def fillPlain (log : List SealedRecord) (key : Side) (rx : NoiseDirection)
    (incoming : List Incoming) : NoiseDirection × List Incoming × Option NoiseStop :=
  if rx.plain ≠ [] then (rx, incoming, none)
  else match _hheader : readFull noiseHeaderLen incoming with
    | (.error err, rest) => (rx, rest, some (.failed (.stream err)))
    | (.ok header, rest) =>
      if header.headD 0 ≠ 4 then (rx, rest, some (.failed (.recordType (header.headD 0))))
      else if getUint16 header.tail > noiseMaxCiphertext ∨ getUint16 header.tail < aeadOverhead then
        (rx, rest, some (.failed (.recordLength (getUint16 header.tail))))
      else match _hbody : readFull (getUint16 header.tail) rest with
        | (.error err, rest') => (rx, rest', some (.failed (.stream err)))
        | (.ok ciphertext, rest') =>
          -- `Open` comes before the increment and has no effect
          match rx.nonce.increment with
          | none => (rx, rest', some .panicked)
          | some nonce =>
            match openSealed log key rx.nonce ciphertext with
            | none => ({ rx with nonce, cipher := none }, rest', some (.failed .authentication))
            | some plain => fillPlain log key { rx with nonce, plain } rest'
termination_by (streamBytes incoming).length
decreasing_by
  obtain ⟨hlength, hbytes⟩ := readFull_ok _hheader
  obtain ⟨-, hbytes'⟩ := readFull_ok _hbody
  rw [hbytes, hbytes', List.length_append, List.length_append, hlength, noiseHeaderLen]
  omega

/-- What `Read` gives back. -/
inductive ReadOutcome where
  | returned (bytes : List UInt8)
  | stopped (stop : NoiseStop)

/-- The bytes given back. -/
def ReadOutcome.bytes : ReadOutcome → List UInt8
  | .returned bytes => bytes
  | .stopped _ => []

/-- `NoiseConn.Read` into a destination of the given size. -/
def NoiseConn.read (log : List SealedRecord) (c : NoiseConn) (size : Nat) :
    ReadOutcome × NoiseConn :=
  match c.rx.cipher with
  | none => (.stopped (.failed .closed), c)
  | some key =>
    match fillPlain log key c.rx c.incoming with
    | (rx, incoming, some stop) => (.stopped stop, { c with rx, incoming })
    | (rx, incoming, none) =>
      (.returned (rx.plain.take size),
        { c with rx := { rx with plain := rx.plain.drop size }, incoming })

/-! ## The two ends -/

/-- `net.ErrClosed`. -/
def errNetClosed : String := "use of closed network connection"

/-- What happens at the ends: a `Write` was called and passed its checks, it returned, a chunk was
sealed, a record was handed to the underlying connection, `Close` took the sending cipher away, a
call panicked, a `Read` returned bytes or failed. -/
inductive NoiseEvent where
  | wrote (side : Side) (src : List UInt8)
  | writeReturned (side : Side) (written : Nat) (err : Option String)
  | sealedText (r : SealedRecord)
  | handedOver (side : Side) (nonce : NoiseNonce) (chunk frame : List UInt8) (ok : Bool)
  | closed (side : Side)
  | writePanicked (side : Side)
  | readPanicked (side : Side)
  | returned (side : Side) (bytes : List UInt8)
  | readFailed (side : Side) (err : NoiseError)

/-- What a `Read` at an end makes happen. -/
def ReadOutcome.event (side : Side) : ReadOutcome → NoiseEvent
  | .returned bytes => .returned side bytes
  | .stopped (.failed err) => .readFailed side err
  | .stopped .panicked => .readPanicked side

namespace NoiseEvent

variable (w : Side)

/-- The text that was sealed. -/
def record : NoiseEvent → Option SealedRecord
  | .sealedText r => some r
  | _ => none

/-- What was given to `Write` at an end. -/
def src : NoiseEvent → List UInt8
  | .wrote side src => if side = w then src else []
  | _ => []

/-- What `Read` returned at an end. -/
def output : NoiseEvent → List UInt8
  | .returned side bytes => if side = w then bytes else []
  | _ => []

/-- The chunk of an end whose record the underlying connection took. -/
def accepted : NoiseEvent → List UInt8
  | .handedOver side _ chunk _ true => if side = w then chunk else []
  | _ => []

/-- The bytes of that record. -/
def wire : NoiseEvent → List UInt8
  | .handedOver side _ _ frame true => if side = w then frame else []
  | _ => []

end NoiseEvent

/-- Both ends, and what happened so far. -/
structure Noise where
  ends : Side → NoiseConn
  history : List NoiseEvent := []

namespace Noise

variable (s : Noise) (w : Side)

/-- What was sealed. -/
def log : List SealedRecord := s.history.filterMap NoiseEvent.record

/-- What was given to `Write` at an end. -/
def writtenBy : List UInt8 := s.history.flatMap (NoiseEvent.src w)

/-- What `Read` returned at an end. -/
def returnedTo : List UInt8 := s.history.flatMap (NoiseEvent.output w)

/-- The chunks of an end whose records the underlying connection took. -/
def acceptedFrom : List UInt8 := s.history.flatMap (NoiseEvent.accepted w)

/-- The bytes of those records. -/
def wireFrom : List UInt8 := s.history.flatMap (NoiseEvent.wire w)

/-- One end changed, and something happened. -/
def after (side : Side) (c : NoiseConn) (events : List NoiseEvent) : Noise where
  ends := Function.update s.ends side c
  history := s.history ++ events

end Noise

/-- A step: `Write` is called; it makes a round, and `err` is the error of the underlying write;
`Read` is called; the network delivers; `Close` locks the receiving direction; it locks the sending
one. -/
inductive NoiseAct where
  | write (side : Side) (src : List UInt8)
  | writeRound (side : Side) (err : Option String)
  | read (side : Side) (size : Nat)
  | deliver (side : Side) (more : List Incoming)
  | closeRx (side : Side)
  | closeTx (side : Side)

/-- One round of the loop of `NoiseConn.Write`. -/
def Noise.writeRound (A : Sealing Side NoiseNonce aeadOverhead) (s : Noise) (side : Side)
    (err : Option String) (call : WriteCall) : Option Noise :=
  let c := s.ends side
  if call.src = [] then
    some (s.after side { c with writing := none } [.writeReturned side call.written none])
  else match c.tx.cipher with
    | none => none
    | some key =>
      let chunk := call.src.take noiseMaxPlaintext
      let ciphertext := A.sealText key c.tx.nonce chunk
      let sealedText := .sealedText ⟨key, c.tx.nonce, chunk, ciphertext⟩
      match c.tx.nonce.increment with
      | none => some (s.after side { c with writing := none } [sealedText, .writePanicked side])
      | some nonce =>
        match err with
        | some err =>
          some (s.after side { c with tx := { c.tx with nonce, err := some err, cipher := none }
                                      writing := none }
            [sealedText, .handedOver side c.tx.nonce chunk (noiseFrame chunk ciphertext) false,
              .writeReturned side call.written (some err)])
        | none =>
          some (s.after side { c with tx := { c.tx with nonce }
                                      writing := some ⟨call.src.drop chunk.length,
                                        call.written + chunk.length⟩ }
            [sealedText, .handedOver side c.tx.nonce chunk (noiseFrame chunk ciphertext) true])

/-- One step. A call that has to wait for a lock has no step. -/
def Noise.step (A : Sealing Side NoiseNonce aeadOverhead) (s : Noise) : NoiseAct → Option Noise
  | .write side src =>
    let c := s.ends side
    if c.writing.isSome then none
    else if c.tx.err.isSome then some (s.after side c [.writeReturned side 0 c.tx.err])
    else if c.tx.cipher.isNone then
      some (s.after side c [.writeReturned side 0 (some errNetClosed)])
    else some (s.after side { c with writing := some { src } } [.wrote side src])
  | .writeRound side err => (s.ends side).writing.bind fun call => s.writeRound A side err call
  | .read side size =>
    let (outcome, c) := (s.ends side).read s.log size
    some (s.after side c [outcome.event side])
  | .deliver side more =>
    let c := s.ends side
    some (s.after side { c with incoming := c.incoming ++ more } [])
  | .closeRx side =>
    let c := s.ends side
    some (s.after side { c with rx := { c.rx with cipher := none } } [])
  | .closeTx side =>
    let c := s.ends side
    if c.writing.isSome then none
    else some (s.after side { c with tx := { c.tx with cipher := none } } [.closed side])

/-- Both ends, given how texts are sealed. -/
def noiseSystem (A : Sealing Side NoiseNonce aeadOverhead) : System Noise NoiseAct := ⟨Noise.step A⟩

/-- After the handshake. -/
def noiseStart : Noise where
  ends side := { rx := { cipher := some side.other }, tx := { cipher := some side } }

end WgoTailscale
