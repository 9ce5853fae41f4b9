import WgoTailscale.Disco

/-!
# Inbound packets (`readUDP` in `bind.go`)

What becomes of a datagram: it is taken as STUN or DISCO, or handed to the device through the queue
`inbound`. It is taken as STUN by the four bytes after the first four, which are an index in
WireGuard's messages. WireGuard's datagrams reach the queue exactly if these are not the cookie of
STUN (`wireGuard_queued_iff`).
-/

namespace WgoTailscale

/-- `inboundPacket`. -/
structure InboundPacket where
  data : List UInt8
  ep : LogicalEndpoint

/-- The capacity of `inbound`. -/
def inboundCapacity : Nat := 256

/-- What becomes of a packet: it is consumed as STUN or DISCO, it is given up as the bind is not the
one it was received for, or the peer is unknown, it is queued, or it is dropped. -/
inductive PacketFate where
  | consumed
  | givenUp
  | queued
  | dropped
  deriving DecidableEq

/-- What reading a packet leaves. -/
structure InboundRead where
  fate : PacketFate
  bind : Bind
  inbound : List InboundPacket

/-- The `select` at the end of `readUDP` and of `handleDERPPacket`. `done` says if the context has
ended; if it has and the queue has room, Go chooses. -/
def offerInbound (b : Bind) (inbound : List InboundPacket) (packet : InboundPacket)
    (done choice : Bool) : InboundRead :=
  if inbound.length < inboundCapacity ∧ (done = false ∨ choice) then
    ⟨.queued, b, inbound ++ [packet]⟩
  else if done then ⟨.givenUp, b, inbound⟩
  else ⟨.dropped, b, inbound⟩

namespace Bind

/-- One round of the loop of `readUDP`. -/
def readDatagram (b : Bind) (box : DiscoBox) (inbound : List InboundPacket) (generation : Nat)
    (packet : List UInt8) (source : AddrPort) (received now : Time) (done choice : Bool) :
    Option InboundRead := do
  let source := unmapAddrPort source
  let stun ← b.handleSTUN packet received now
  if stun.consumed then return ⟨.consumed, stun.bind, inbound⟩
  let disco ← if b.cfg.disableDiscovery then
      pure ({ consumed := false, bind := stun.bind } : DiscoHandled)
    else stun.bind.handleDiscoPacket box packet source ⟨0⟩ false received now
  if disco.consumed then return ⟨.consumed, disco.bind, inbound⟩
  match disco.bind.readUDP generation source with
  | none => return ⟨.givenUp, disco.bind, inbound⟩
  | some ep => return offerInbound disco.bind inbound ⟨packet, ep⟩ done choice

end Bind

/-- The datagram begins as a message of WireGuard: a type, and three zero bytes. -/
def IsWireGuard (packet : List UInt8) : Prop :=
  ∃ kind rest, packet = kind :: 0 :: 0 :: 0 :: rest ∧ 1 ≤ kind ∧ kind ≤ 4

/-- The packet was queued, or dropped as the queue was full. -/
def InboundRead.Handed (r : InboundRead) (inbound : List InboundPacket) (packet : List UInt8) :
    Prop :=
  (r.fate = .queued ∧ ∃ ep, r.inbound = inbound ++ [⟨packet, ep⟩]) ∨
    (r.fate = .dropped ∧ inboundCapacity ≤ inbound.length ∧ r.inbound = inbound)

/-- A WireGuard message is not recognised as DISCO. -/
theorem IsWireGuard.not_isDisco {packet : List UInt8} (h : IsWireGuard packet) :
    ¬ IsDisco packet := by
  obtain ⟨kind, rest, rfl, -, -⟩ := h
  rintro ⟨-, hmagic⟩
  simp only [discoMagic, List.length_cons, List.length_nil, List.take_succ_cons] at hmagic
  -- the second byte of the magic is not zero
  have hsecond := List.cons_eq_cons.mp (List.cons_eq_cons.mp hmagic).2
  exact absurd hsecond.1 (by decide)

theorem handed_offerInbound (b : Bind) (inbound : List InboundPacket) (packet : List UInt8)
    (ep : LogicalEndpoint) (choice : Bool) :
    (offerInbound b inbound ⟨packet, ep⟩ false choice).Handed inbound packet := by
  unfold offerInbound
  by_cases hroom : inbound.length < inboundCapacity
  · rw [if_pos ⟨hroom, .inl rfl⟩]
    exact .inl ⟨rfl, ep, rfl⟩
  · rw [if_neg fun h => hroom h.1]
    exact .inr ⟨rfl, Nat.le_of_not_lt hroom, rfl⟩

section
variable {b : Bind} {packet : List UInt8} (box : DiscoBox) (inbound : List InboundPacket)
  (received now : Time) (choice : Bool)

/-- A packet that is not recognised as DISCO is left alone. -/
theorem handleDiscoPacket_of_not (hdisco : ¬ IsDisco packet) (source : AddrPort)
    (derpSource : NodePublic) (viaDERP : Bool) :
    ∃ r, b.handleDiscoPacket box packet source derpSource viaDERP received now = some r ∧
      r.consumed = false ∧ r.bind = b := by
  obtain ⟨r, hr, hconsumed, hcases⟩ := handleDiscoPacket_cases b source viaDERP received now box
    derpSource packet
  have hnot : r.consumed = false := by
    rw [Bool.eq_false_iff]
    exact fun h => hdisco (hconsumed.mp h).2
  rcases hcases with ⟨hbind, -⟩ | ⟨_, _, -, -, -, hacts⟩
  · exact ⟨r, hr, hnot, hbind⟩
  · rw [hacts.consumed] at hnot
    cases hnot

/-- A datagram with the cookie is consumed. -/
theorem readDatagram_of_isSTUN (hstun : IsSTUN packet) (generation : Nat) (source : AddrPort)
    (done : Bool) :
    ∃ r, b.readDatagram box inbound generation packet source received now done choice = some r ∧
      r.fate = .consumed ∧ r.inbound = inbound := by
  have hconsumed : ∃ r, b.handleSTUN packet received now = some r ∧ r.consumed = true := by
    rcases handleSTUN_cases b packet received now with
      ⟨hr, -⟩ | ⟨probe, mapped, -, -, -, hmapped, hr⟩
    · exact ⟨_, hr, decide_eq_true hstun⟩
    · exact ⟨_, hr, (creditSTUN_spec _ probe received now hmapped).1⟩
  obtain ⟨stun, hhandled, hconsumed⟩ := hconsumed
  unfold Bind.readDatagram
  simp only [hhandled, Option.bind_eq_bind, Option.bind_some, if_pos hconsumed]
  exact ⟨_, rfl, rfl, rfl⟩

/-- A datagram that is neither STUN nor DISCO is handed on by an open bind. -/
theorem readDatagram_of_not (hstun : ¬ IsSTUN packet) (hdisco : ¬ IsDisco packet)
    (hopen : b.isOpen = true) (source : AddrPort) :
    ∃ r, b.readDatagram box inbound b.generation packet source received now false choice = some r ∧
      r.Handed inbound packet := by
  have hhandled : b.handleSTUN packet received now = some { consumed := false, bind := b } := by
    rw [handleSTUN_eq, if_pos hstun]
  obtain ⟨disco, hr, hnot, hbind⟩ := handleDiscoPacket_of_not (b := b) box received now hdisco
    (unmapAddrPort source) ⟨0⟩ false
  have hep : ∃ ep, b.readUDP b.generation (unmapAddrPort source) = some ep := by
    unfold Bind.readUDP
    rw [if_neg (by simp [hopen])]
    split
    · exact ⟨_, rfl⟩
    · exact ⟨_, rfl⟩
  obtain ⟨ep, hep⟩ := hep
  unfold Bind.readDatagram
  by_cases hdisabled : b.cfg.disableDiscovery
  · simp only [hhandled, Option.bind_eq_bind, Option.bind_some, Bool.false_eq_true, if_false,
      if_pos hdisabled, Option.pure_def, hep]
    exact ⟨_, rfl, handed_offerInbound b inbound packet ep choice⟩
  · simp only [hhandled, Option.bind_eq_bind, Option.bind_some, Bool.false_eq_true, if_false,
      if_neg hdisabled, hr, hnot, hbind, hep]
    exact ⟨_, rfl, handed_offerInbound b inbound packet ep choice⟩

/-- A WireGuard message that an open bind reads from its connection is handed on exactly if the four
bytes of the index after the type are not the cookie of STUN, or the message is too short for it. -/
theorem wireGuard_queued_iff (hopen : b.isOpen = true) (hpacket : IsWireGuard packet)
    (source : AddrPort) :
    ∃ r, b.readDatagram box inbound b.generation packet source received now false choice = some r ∧
      (r.Handed inbound packet ↔
        packet.length < 20 ∨ (packet.take 8).drop 4 ≠ [0x21, 0x12, 0xa4, 0x42]) := by
  have hcookie : IsSTUN packet ↔
      ¬ (packet.length < 20 ∨ (packet.take 8).drop 4 ≠ [0x21, 0x12, 0xa4, 0x42]) := by
    rw [isSTUN_iff, not_or, not_not, Nat.not_lt]
    rfl
  by_cases hstun : IsSTUN packet
  · obtain ⟨r, hr, hfate, -⟩ := readDatagram_of_isSTUN (b := b) box inbound received now choice
      hstun b.generation source false
    refine ⟨r, hr, iff_of_false ?_ (hcookie.mp hstun)⟩
    rintro (⟨hqueued, -⟩ | ⟨hdropped, -⟩)
    · rw [hfate] at hqueued
      cases hqueued
    · rw [hfate] at hdropped
      cases hdropped
  · obtain ⟨r, hr, hhanded⟩ := readDatagram_of_not box inbound received now choice hstun
      hpacket.not_isDisco hopen source
    exact ⟨r, hr, iff_of_true hhanded (not_not.mp fun h => hstun (hcookie.mpr h))⟩

/-- A bind that `Open` has opened, without peers. -/
def openedBind : Bind := { newBind ⟨true, false⟩ with isOpen := true, generation := 1 }

/-- A transport message of WireGuard with an empty packet: the type, the index of the receiver, a
counter and the tag. -/
def keepaliveMessage (index : List UInt8) : List UInt8 :=
  [4, 0, 0, 0] ++ index ++ List.replicate 24 0

/-- The bind takes a keepalive for the receiver 1. -/
theorem wireGuard_queued_keepalive :
    ∃ r, openedBind.readDatagram ⟨⟨0⟩, fun _ _ => 0, []⟩ [] 1 (keepaliveMessage [1, 0, 0, 0])
        ⟨.v4 0x0a000001#32, 41641⟩ 5 5 false false = some r ∧
      r.Handed [] (keepaliveMessage [1, 0, 0, 0]) := by
  obtain ⟨r, hr, hiff⟩ := wireGuard_queued_iff (b := openedBind) ⟨⟨0⟩, fun _ _ => 0, []⟩ [] 5 5
    false rfl ⟨4, _, rfl, by decide, by decide⟩ ⟨.v4 0x0a000001#32, 41641⟩
  exact ⟨r, hr, hiff.mpr (.inr (by decide))⟩

/-- The bind consumes a keepalive for the receiver whose index has the bytes of the cookie. -/
theorem wireGuard_taken_for_stun :
    ∃ r, openedBind.readDatagram ⟨⟨0⟩, fun _ _ => 0, []⟩ [] 1
        (keepaliveMessage [0x21, 0x12, 0xa4, 0x42]) ⟨.v4 0x0a000001#32, 41641⟩ 5 5 false false =
          some r ∧
      openedBind.isOpen = true ∧ IsWireGuard (keepaliveMessage [0x21, 0x12, 0xa4, 0x42]) ∧
      r.fate = .consumed ∧ r.inbound = [] := by
  have hstun : IsSTUN (keepaliveMessage [0x21, 0x12, 0xa4, 0x42]) := by decide
  obtain ⟨r, hr, hfate, hinbound⟩ := readDatagram_of_isSTUN (b := openedBind)
    ⟨⟨0⟩, fun _ _ => 0, []⟩ [] 5 5 false hstun 1 ⟨.v4 0x0a000001#32, 41641⟩ false
  exact ⟨r, hr, rfl, ⟨4, _, rfl, by decide, by decide⟩, hfate, hinbound⟩

end

end WgoTailscale
