import WgoTailscale.Paths
import WgoTailscale.BindNetwork
import WgoTailscale.Lib.Attempts

/-!
# Sending packets (`Send`, `sendUDP` in `bind.go`)

`Send` with every hand-off of a packet that it attempts, to the connection or to a relay. Which of
them fail is arbitrary. A packet is handed off along the plan for its peer until one hand-off
succeeds (`sendNode_known`), so that it is delivered once or not at all (`send_delivers_once`).
-/

namespace WgoTailscale

open List

/-! ## `Send` -/

/-- A packet is handed to the connection or to a relay. -/
inductive HandOff where
  | udp (addr : AddrPort) (packet : List UInt8)
  | derp (region : Int) (node : NodePublic) (packet : List UInt8)
  deriving DecidableEq

/-- The errors of `Send`. -/
inductive SendError where
  | wrongEndpointType
  | closed
  | message (text : String)
  /-- The error of a hand-off. -/
  | handOff (text : String)
  | join (errs : List SendError)

/-- What `Send` has done so far: the hand-offs that it attempted, with their errors, and the paths
that it emitted. -/
structure Sending where
  attempts : List (HandOff × Option String) := []
  emitted : List PathUpdate := []

/-- `emitPath`. -/
def Sending.emit (s : Sending) (update : PathUpdate) : Sending :=
  { s with emitted := s.emitted ++ [update] }

/-- `batchSize`. -/
def batchSize : Nat := 1

/-- An endpoint of another kind, or the one of the bind with the given identity. -/
inductive BatchEndpoint where
  | other
  | logical (bind : Nat) (endpoint : LogicalEndpoint)

/-- How `Send` ended, and the bind afterwards. -/
structure SendResult where
  err : Option SendError
  sending : Sending
  bind : Bind

/-- The direct path, if it is not too old. -/
def PeerState.freshDirect (peer : PeerState) (now : Time) : Option AddrPort :=
  if peer.direct.isValid ∧ ¬ 120 * second < now - peer.directAt then some peer.direct else none

section
variable (fails : Nat → Option String)

/-- One hand-off; `fails` has the error of each attempt by its number. -/
def handOff (h : HandOff) (s : Sending) : Option SendError × Sending :=
  let err := fails s.attempts.length
  (err.map .handOff, { s with attempts := s.attempts ++ [(h, err)] })

/-- The loop over the packets of a batch, which ends with the first error. -/
def handOffEach (hand : List UInt8 → HandOff) :
    List (List UInt8) → Sending → Option SendError × Sending
  | [], s => (none, s)
  | packet :: bufs, s =>
    match handOff fails (hand packet) s with
    | (none, s) => handOffEach hand bufs s
    | (some err, s) => (some err, s)

namespace Bind

/-- `sendUDP`. -/
def sendUDP (b : Bind) (bufs : List (List UInt8)) (addr : AddrPort) (s : Sending) :
    Option SendError × Sending :=
  if ¬ b.isOpen ∨ b.conn.isNone then (some .closed, s) else handOffEach fails (.udp addr) bufs s

variable (b : Bind) (bufs : List (List UInt8)) (node : NodePublic) (peer : PeerState) (now : Time)

/-- `Send` to a WireGuard-only peer, when there is no direct path or it failed. -/
def sendWireGuardOnly (s : Sending) : Option SendError × Sending :=
  match peer.candidates with
  | [] => (some (.message "tailnet: WireGuard-only peer has no direct endpoint"), s)
  | addr :: _ =>
    match b.sendUDP fails bufs addr s with
    | (none, s) => (none, s.emit ⟨node, "direct", addr, 0, now⟩)
    | (some err, s) => (some err, s)

/-- A relay may be used for the peer. -/
def mayRelay : Bool := b.cfg.disableDERP = false ∧ peer.config.homeDERP ≠ 0

/-- `Send` to the first candidate, after the relay failed with `derpErr` or was not used. -/
def sendCandidate (derpErr : Option SendError) (s : Sending) : Option SendError × Sending :=
  match peer.candidates with
  | [] => (some (derpErr.getD (.message "tailnet: no usable direct or DERP path")), s)
  | addr :: _ =>
    match b.sendUDP fails bufs addr s with
    | (none, s) => (none, s.emit ⟨node, "direct", addr, 0, now⟩)
    | (some err, s) => (some (.join (derpErr.toList ++ [err])), s)

/-- `Send` to another peer, when there is no direct path or it failed. -/
def sendRelayed (s : Sending) : Option SendError × Sending :=
  if b.mayRelay peer then
    match handOffEach fails (.derp peer.config.homeDERP node) bufs s with
    | (none, s) => (none, s.emit ⟨node, "derp", .zero, 0, now⟩)
    | (some derpErr, s) => b.sendCandidate fails bufs node peer now (some derpErr) s
  else b.sendCandidate fails bufs node peer now none s

/-- `Send` without its direct path. -/
def sendIndirect (s : Sending) : Option SendError × Sending :=
  if peer.config.wireGuardOnly then b.sendWireGuardOnly fails bufs node peer now s
  else b.sendRelayed fails bufs node peer now s

/-- `Send` to a peer of an open bind. -/
def sendKnown : Option SendError × Sending :=
  match peer.freshDirect now with
  | none => b.sendIndirect fails bufs node peer now {}
  | some direct =>
    match b.sendUDP fails bufs direct {} with
    | (none, s) => (none, s)
    | (some _, s) => b.sendIndirect fails bufs node peer now s

/-- `Send` to the peer of an endpoint. -/
def sendNode : SendResult :=
  match b.peers.get node with
  | none => ⟨some (.message "tailnet: unknown peer"), {}, b⟩
  | some peer =>
    if ¬ b.isOpen then ⟨some .closed, {}, b⟩
    else
      let shouldProbe : Bool := b.cfg.disableDiscovery = false ∧
        (peer.lastProbe = 0 ∨ 5 * second ≤ now - peer.lastProbe)
      let b := if shouldProbe then (b.probePeer node now).1 else b
      let (err, sending) := b.sendKnown fails bufs node peer now
      ⟨err, sending, b⟩

/-- `Send`, of the bind with the identity `self`. -/
def sendBatch (self : Nat) (endpoint : BatchEndpoint) : SendResult :=
  match endpoint with
  | .other => ⟨some .wrongEndpointType, {}, b⟩
  | .logical owner ep =>
    if owner ≠ self then ⟨some .wrongEndpointType, {}, b⟩
    else if batchSize < bufs.length then
      ⟨some (.message
        s!"tailnet: send batch {bufs.length} exceeds {batchSize}"), {}, b⟩
    else match ep with
    | .node key => b.sendNode fails bufs key now
    | .direct addr =>
      if addr.isValid then
        let (err, sending) := b.sendUDP fails bufs addr {}
        ⟨err, sending, b⟩
      else b.sendNode fails bufs ⟨0⟩ now

end Bind

end

/-! ## Plans -/

namespace Bind

variable (b : Bind) (peer : PeerState) (node : NodePublic) (now : Time) (packet : List UInt8)

/-- The hand-off to an address, which a bind without a connection does not attempt. -/
def udpPlan (addr : AddrPort) : List HandOff :=
  if b.isOpen ∧ b.conn.isSome then [.udp addr packet] else []

/-- The hand-off to a relay. -/
def relayPlan : List HandOff :=
  if b.mayRelay peer then [.derp peer.config.homeDERP node packet] else []

/-- The hand-off to the first candidate. -/
def candidatePlan : List HandOff := peer.candidates.head?.toList.flatMap (b.udpPlan packet)

/-- The hand-offs that `Send` may attempt, in order: to the direct path if it is fresh, over the
relay of the home region unless the peer is WireGuard-only, and to the first candidate. -/
def sendPlan : List HandOff :=
  (peer.freshDirect now).toList.flatMap (b.udpPlan packet) ++
    ((if peer.config.wireGuardOnly then [] else b.relayPlan peer node packet) ++
      b.candidatePlan peer packet)

end Bind

/-- The update names the path of the hand-off. -/
def NamesPath (update : PathUpdate) (node : NodePublic) : HandOff → Prop
  | .udp addr _ => update.nodeKey = node ∧ update.kind = "direct" ∧ update.direct = addr
  | .derp _ key _ => update.nodeKey = node ∧ update.kind = "derp" ∧ key = node

section
variable (fails : Nat → Option String) (node : NodePublic)

/-- A part of `Send` hands off along a plan: it goes on where the attempts stand, it succeeds
exactly if the plan does, and what it emits names a hand-off that succeeded. -/
structure Follows (f : Sending → Option SendError × Sending) (plan : List HandOff) : Prop where
  attempts : ∀ s, (f s).2.attempts = s.attempts ++ tryInOrder fails s.attempts.length plan
  err : ∀ s, (f s).1 = none ↔ SucceededLast (tryInOrder fails s.attempts.length plan)
  emitted : ∀ s update, update ∈ (f s).2.emitted → update ∈ s.emitted ∨
    ∃ h, (h, none) ∈ (f s).2.attempts ∧ NamesPath update node h

variable {fails node}

/-- Giving up. -/
theorem follows_error (err : SendError) : Follows fails node (fun s => (some err, s)) [] where
  attempts _ := (append_nil _).symm
  err _ := iff_of_false (Option.some_ne_none err) AllFailed.nil.not_succeededLast
  emitted _ _ h := .inl h

/-- One hand-off. -/
theorem follows_handOff (hand : List UInt8 → HandOff) (packet : List UInt8) :
    Follows fails node (handOffEach fails hand [packet]) [hand packet] := by
  have heq (s : Sending) : handOffEach fails hand [packet] s =
      ((fails s.attempts.length).map .handOff,
        { s with attempts := s.attempts ++ [(hand packet, fails s.attempts.length)] }) := by
    unfold handOffEach handOff
    cases fails s.attempts.length <;> rfl
  refine ⟨fun s => ?_, fun s => ?_, fun s update h => ?_⟩
  · rw [heq, tryInOrder]
    cases fails s.attempts.length <;> rfl
  · rw [heq, tryInOrder]
    cases fails s.attempts.length with
    | none => exact iff_of_true rfl ⟨[], hand packet, rfl, .nil⟩
    | some err =>
      exact iff_of_false (Option.some_ne_none _) (AllFailed.cons .nil).not_succeededLast
  · rw [heq] at h
    exact .inl h

/-- What succeeded is of the plan. -/
theorem exists_mem_of_succeededLast {n : Nat} {plan : List HandOff}
    (h : SucceededLast (tryInOrder fails n plan)) :
    ∃ a ∈ plan, (a, none) ∈ tryInOrder fails n plan := by
  obtain ⟨failed, a, heq, -⟩ := h
  have hmem : (a, none) ∈ tryInOrder fails n plan := by
    rw [heq]
    exact mem_append_right failed mem_cons_self
  have hplan := (map_fst_tryInOrder fails n plan).subset (mem_map_of_mem hmem)
  exact ⟨a, hplan, hmem⟩

/-- One part after another has failed. `done` is what is still to do after a success. -/
theorem Follows.orElse {f : Sending → Option SendError × Sending}
    {g : SendError → Sending → Option SendError × Sending} {plan plan' : List HandOff}
    (hf : Follows fails node f plan) (hg : ∀ err, Follows fails node (g err) plan')
    (done : Sending → Sending) (hattempts : ∀ s, (done s).attempts = s.attempts)
    (hemitted : ∀ s, ∀ update ∈ (done s).emitted, update ∈ s.emitted ∨
      ∀ h ∈ plan, NamesPath update node h) :
    Follows fails node (fun s => match f s with
      | (none, s) => (none, done s)
      | (some err, s) => g err s) (plan ++ plan') := by
  have hcases (s : Sending) :
      (∃ s', f s = (none, s') ∧ SucceededLast (tryInOrder fails s.attempts.length plan) ∧
        s'.attempts = s.attempts ++ tryInOrder fails s.attempts.length plan) ∨
      ∃ err s', f s = (some err, s') ∧ AllFailed (tryInOrder fails s.attempts.length plan) ∧
        s'.attempts = s.attempts ++ tryInOrder fails s.attempts.length plan := by
    have herr := hf.err s
    have hfirst := hf.attempts s
    cases hfs : f s with
    | mk err s' =>
      rw [hfs] at herr hfirst
      cases err with
      | none => exact .inl ⟨s', rfl, herr.mp rfl, hfirst⟩
      | some err =>
        refine .inr ⟨err, s', rfl, ?_, hfirst⟩
        rcases tryInOrder_cases fails s.attempts.length plan with hsucceeded | ⟨hfailed, -⟩
        · exact absurd (herr.mpr hsucceeded) (Option.some_ne_none err)
        · exact hfailed
  refine ⟨fun s => ?_, fun s => ?_, fun s update hupdate => ?_⟩
  · rcases hcases s with ⟨s', heq, hsucceeded, hfirst⟩ | ⟨err, s', heq, hfailed, hfirst⟩
    · simp only [heq, hattempts, tryInOrder_append_of_succeededLast hsucceeded]
      exact hfirst
    · simp only [heq, (hg err).attempts, tryInOrder_append_of_allFailed hfailed, hfirst,
        length_append, append_assoc]
  · rcases hcases s with ⟨s', heq, hsucceeded, -⟩ | ⟨err, s', heq, hfailed, hfirst⟩
    · simp only [heq, tryInOrder_append_of_succeededLast hsucceeded]
      exact iff_of_true trivial hsucceeded
    · simp only [heq, (hg err).err, tryInOrder_append_of_allFailed hfailed, hfirst,
        length_append]
      exact (succeededLast_append_iff hfailed
        ((tryInOrder_cases fails _ plan').imp_right And.left)).symm
  · have hbefore := hf.emitted s
    rcases hcases s with ⟨s', heq, hsucceeded, hfirst⟩ | ⟨err, s', heq, hfailed, hfirst⟩
    · rw [heq] at hbefore
      simp only [heq] at hupdate ⊢
      rw [hattempts]
      rcases hemitted s' update hupdate with hold | hreports
      · exact hbefore update hold
      · obtain ⟨h, hmem, htried⟩ := exists_mem_of_succeededLast hsucceeded
        refine .inr ⟨h, ?_, hreports h hmem⟩
        rw [hfirst]
        exact mem_append_right _ htried
    · rw [heq] at hbefore
      simp only [heq] at hupdate ⊢
      rcases (hg err).emitted s' update hupdate with hold | hlater
      · rcases hbefore update hold with hold | ⟨h, hmem, hreports⟩
        · exact .inl hold
        · refine .inr ⟨h, ?_, hreports⟩
          rw [(hg err).attempts]
          exact mem_append_left _ hmem
      · exact .inr hlater

variable (fails node) (b : Bind) (peer : PeerState) (now : Time) (packet : List UInt8)

theorem follows_sendUDP (addr : AddrPort) :
    Follows fails node (b.sendUDP fails [packet] addr) (b.udpPlan packet addr) := by
  unfold Bind.sendUDP Bind.udpPlan
  have hiff : ¬ b.isOpen = true ∨ b.conn.isNone = true ↔
      ¬ (b.isOpen = true ∧ b.conn.isSome = true) := by
    cases b.conn <;> simp
  by_cases hconn : b.isOpen = true ∧ b.conn.isSome = true
  · simp only [if_neg (hiff.not.mpr (not_not.mpr hconn)), if_pos hconn]
    exact follows_handOff _ packet
  · simp only [if_pos (hiff.mpr hconn), if_neg hconn]
    exact follows_error _

/-- The end of `Send` at a candidate; the plan that a success follows has one address. -/
theorem follows_candidate (addr : AddrPort) (error : SendError → SendError) :
    Follows fails node (fun s => match b.sendUDP fails [packet] addr s with
      | (none, s) => (none, s.emit ⟨node, "direct", addr, 0, now⟩)
      | (some err, s) => (some (error err), s)) (b.udpPlan packet addr) := by
  have hemitted (s : Sending) (update : PathUpdate)
      (hupdate : update ∈ (s.emit ⟨node, "direct", addr, 0, now⟩).emitted) :
      update ∈ s.emitted ∨ ∀ h ∈ b.udpPlan packet addr, NamesPath update node h := by
    rcases mem_append.mp hupdate with hold | hnew
    · exact .inl hold
    · refine .inr fun h hh => ?_
      obtain rfl := mem_singleton.mp hnew
      unfold Bind.udpPlan at hh
      split at hh
      · obtain rfl := mem_singleton.mp hh
        exact ⟨rfl, rfl, rfl⟩
      · cases hh
  rw [← append_nil (b.udpPlan packet addr)]
  exact (follows_sendUDP fails node b packet addr).orElse (fun err => follows_error (error err))
    (Sending.emit · ⟨node, "direct", addr, 0, now⟩) (fun s => rfl) hemitted

theorem follows_sendWireGuardOnly :
    Follows fails node (b.sendWireGuardOnly fails [packet] node peer now)
      (b.candidatePlan peer packet) := by
  unfold Bind.sendWireGuardOnly Bind.candidatePlan
  cases peer.candidates with
  | nil => exact follows_error _
  | cons addr rest =>
    rw [List.head?_cons, Option.toList_some, flatMap_singleton]
    exact follows_candidate fails node b now packet addr id

theorem follows_sendCandidate (derpErr : Option SendError) :
    Follows fails node (b.sendCandidate fails [packet] node peer now derpErr)
      (b.candidatePlan peer packet) := by
  unfold Bind.sendCandidate Bind.candidatePlan
  cases peer.candidates with
  | nil => exact follows_error _
  | cons addr rest =>
    rw [List.head?_cons, Option.toList_some, flatMap_singleton]
    exact follows_candidate fails node b now packet addr fun err => .join (derpErr.toList ++ [err])

theorem follows_sendRelayed :
    Follows fails node (b.sendRelayed fails [packet] node peer now)
      (b.relayPlan peer node packet ++ b.candidatePlan peer packet) := by
  unfold Bind.sendRelayed Bind.relayPlan
  by_cases hrelay : b.mayRelay peer
  · simp only [if_pos hrelay]
    refine (follows_handOff (.derp peer.config.homeDERP node) packet).orElse
      (fun err => follows_sendCandidate fails node b peer now packet (some err))
      (Sending.emit · ⟨node, "derp", .zero, 0, now⟩) (fun s => rfl) fun s update hupdate => ?_
    rcases mem_append.mp hupdate with hold | hnew
    · exact .inl hold
    · refine .inr fun h hh => ?_
      obtain rfl := mem_singleton.mp hnew
      obtain rfl := mem_singleton.mp hh
      exact ⟨rfl, rfl, rfl⟩
  · simp only [if_neg hrelay]
    exact follows_sendCandidate fails node b peer now packet none

theorem follows_sendIndirect :
    Follows fails node (b.sendIndirect fails [packet] node peer now)
      ((if peer.config.wireGuardOnly then [] else b.relayPlan peer node packet) ++
        b.candidatePlan peer packet) := by
  unfold Bind.sendIndirect
  by_cases honly : peer.config.wireGuardOnly
  · simp only [if_pos honly]
    exact follows_sendWireGuardOnly fails node b peer now packet
  · simp only [if_neg honly]
    exact follows_sendRelayed fails node b peer now packet

/-- `Send` to a known peer follows the plan. -/
theorem follows_sendKnown :
    ∃ f, Follows fails node f (b.sendPlan peer node now packet) ∧
      b.sendKnown fails [packet] node peer now = f {} := by
  have hindirect : Follows fails node (b.sendIndirect fails [packet] node peer now) _ :=
    follows_sendIndirect fails node b peer now packet
  unfold Bind.sendKnown Bind.sendPlan
  cases peer.freshDirect now with
  | none => exact ⟨_, hindirect, rfl⟩
  | some direct =>
    rw [Option.toList_some, flatMap_singleton]
    exact ⟨_, (follows_sendUDP fails node b packet direct).orElse (fun _ => hindirect) id
      (fun s => rfl) fun s update h => .inl h, rfl⟩

/-- Probing a peer keeps what `Send` reads of the bind. -/
theorem probePeer_same (key : NodePublic) : (b.probePeer key now).1.isOpen = b.isOpen ∧
    (b.probePeer key now).1.conn = b.conn ∧ (b.probePeer key now).1.cfg = b.cfg := by
  unfold Bind.probePeer
  repeat' split
  all_goals exact ⟨rfl, rfl, rfl⟩

theorem sendPlan_probePeer (key : NodePublic) :
    (b.probePeer key now).1.sendPlan peer node now packet = b.sendPlan peer node now packet := by
  have hsame := probePeer_same b now key
  unfold Bind.sendPlan Bind.candidatePlan Bind.relayPlan Bind.mayRelay
  have hudp : (b.probePeer key now).1.udpPlan packet = b.udpPlan packet := by
    funext addr
    unfold Bind.udpPlan
    rw [hsame.1, hsame.2.1]
  rw [hudp, hsame.2.2]

/-- `Send` to a known peer of an open bind hands the packet off along the plan. -/
theorem sendNode_known (hopen : b.isOpen = true) (hpeer : b.peers.get node = some peer) :
    (b.sendNode fails [packet] node now).sending.attempts =
        tryInOrder fails 0 (b.sendPlan peer node now packet) ∧
      ((b.sendNode fails [packet] node now).err = none ↔
        SucceededLast (b.sendNode fails [packet] node now).sending.attempts) ∧
      ∀ update ∈ (b.sendNode fails [packet] node now).sending.emitted,
        ∃ h, (h, none) ∈ (b.sendNode fails [packet] node now).sending.attempts ∧
          NamesPath update node h := by
  have hknown {b' : Bind} (hplan : b'.sendPlan peer node now packet =
      b.sendPlan peer node now packet) :
      (b'.sendKnown fails [packet] node peer now).2.attempts =
          tryInOrder fails 0 (b.sendPlan peer node now packet) ∧
        ((b'.sendKnown fails [packet] node peer now).1 = none ↔
          SucceededLast (b'.sendKnown fails [packet] node peer now).2.attempts) ∧
        ∀ update ∈ (b'.sendKnown fails [packet] node peer now).2.emitted,
          ∃ h, (h, none) ∈ (b'.sendKnown fails [packet] node peer now).2.attempts ∧
            NamesPath update node h := by
    obtain ⟨f, hf, heq⟩ := follows_sendKnown fails node b' peer now packet
    have hattempts := hf.attempts {}
    rw [hplan] at hattempts
    rw [heq]
    refine ⟨hattempts, ?_, fun update hupdate => (hf.emitted {} update hupdate).resolve_left nofun⟩
    rw [hattempts, hf.err, hplan]
    exact Iff.rfl
  unfold Bind.sendNode
  rw [hpeer]
  dsimp only
  rw [if_neg (not_not.mpr hopen)]
  split
  · exact hknown (sendPlan_probePeer node b peer now packet node)
  · exact hknown rfl

/-- Otherwise nothing is attempted. -/
theorem sendNode_unknown (h : b.isOpen = false ∨ node ∉ b.peers) :
    (b.sendNode fails [packet] node now).sending = {} ∧
      (b.sendNode fails [packet] node now).err ≠ none := by
  unfold Bind.sendNode
  cases hpeer : b.peers.get node with
  | none => exact ⟨rfl, Option.some_ne_none _⟩
  | some peer =>
    have hclosed : b.isOpen = false := h.resolve_right fun hn => hn (FinMap.mem_of_get hpeer)
    dsimp only
    rw [if_pos (by simp [hclosed])]
    exact ⟨rfl, Option.some_ne_none _⟩

end

/-- The address of an endpoint that is one. -/
def LogicalEndpoint.explicit : LogicalEndpoint → Option AddrPort
  | .direct addr => if addr.isValid then some addr else none
  | .node _ => none

/-- `Send` of one packet, by the kind of its endpoint. -/
theorem sendBatch_cases (b : Bind) (self : Nat) (endpoint : BatchEndpoint) (packet : List UInt8)
    (now : Time) (fails : Nat → Option String) :
    ((∀ ep, endpoint ≠ .logical self ep) ∧
      b.sendBatch fails [packet] now self endpoint = ⟨some .wrongEndpointType, {}, b⟩) ∨
    (∃ ep addr, endpoint = .logical self ep ∧ ep.explicit = some addr ∧
      b.sendBatch fails [packet] now self endpoint =
        ⟨(b.sendUDP fails [packet] addr {}).1, (b.sendUDP fails [packet] addr {}).2, b⟩) ∨
    ∃ ep, endpoint = .logical self ep ∧ ep.explicit = none ∧
      b.sendBatch fails [packet] now self endpoint = b.sendNode fails [packet] ep.nodeKey now := by
  unfold Bind.sendBatch
  cases endpoint with
  | other => exact .inl ⟨nofun, rfl⟩
  | logical owner ep =>
    dsimp only
    by_cases howner : owner = self
    · subst howner
      rw [if_neg (not_not.mpr rfl),
        if_neg (show ¬ batchSize < [packet].length from Nat.lt_irrefl 1)]
      cases ep with
      | node key => exact .inr (.inr ⟨_, rfl, rfl, rfl⟩)
      | direct addr =>
        by_cases hvalid : addr.isValid
        · exact .inr (.inl ⟨_, addr, rfl, if_pos hvalid, if_pos hvalid⟩)
        · exact .inr (.inr ⟨_, rfl, if_neg hvalid, if_neg hvalid⟩)
    · rw [if_pos howner]
      refine .inl ⟨?_, rfl⟩
      rintro ep' ⟨⟩
      exact howner rfl

/-- What `Send` of one packet does. It returns nil exactly if one hand-off succeeded, the last that
was attempted. For an explicit address only the hand-off to it is attempted, for a node the plan is
followed in order until a hand-off succeeds. Nothing is attempted on a closed bind, for an unknown
peer or for an endpoint of another bind. A path that is emitted is one by which the hand-off
succeeded. -/
structure SentOnce (b : Bind) (self : Nat) (endpoint : BatchEndpoint) (packet : List UInt8)
    (now : Time) (fails : Nat → Option String) (r : SendResult) : Prop where
  nil_iff : r.err = none ↔ SucceededLast r.sending.attempts
  explicit : ∀ ep addr, endpoint = .logical self ep → ep.explicit = some addr →
    r.sending.attempts.map Prod.fst = b.udpPlan packet addr
  node : ∀ ep peer, endpoint = .logical self ep → ep.explicit = none → b.isOpen = true →
    b.peers.get ep.nodeKey = some peer →
    r.sending.attempts = tryInOrder fails 0 (b.sendPlan peer ep.nodeKey now packet)
  nothing : (b.isOpen = false ∨
    (∃ ep, endpoint = .logical self ep ∧ ep.explicit = none ∧ ep.nodeKey ∉ b.peers) ∨
    ∀ ep, endpoint ≠ .logical self ep) → r.sending.attempts = []
  emitted : ∀ update ∈ r.sending.emitted, ∃ ep h, endpoint = .logical self ep ∧
    (h, none) ∈ r.sending.attempts ∧ NamesPath update ep.nodeKey h

/-- Nothing was attempted. -/
theorem sentOnce_nothing {b : Bind} {self : Nat} {endpoint : BatchEndpoint} {packet : List UInt8}
    {now : Time} {fails : Nat → Option String} {r : SendResult} (herr : r.err ≠ none)
    (hsending : r.sending = {}) (hexplicit : ∀ ep addr, endpoint = .logical self ep →
      ep.explicit ≠ some addr)
    (hnode : ∀ ep, endpoint = .logical self ep → b.isOpen = false ∨ ep.nodeKey ∉ b.peers) :
    SentOnce b self endpoint packet now fails r where
  nil_iff := by
    rw [hsending]
    exact iff_of_false herr AllFailed.nil.not_succeededLast
  explicit ep addr hep haddr := absurd haddr (hexplicit ep addr hep)
  node ep peer hep _ hopen hpeer := by
    rcases hnode ep hep with hclosed | hunknown
    · rw [hclosed] at hopen
      cases hopen
    · exact absurd (FinMap.mem_of_get hpeer) hunknown
  nothing _ := by rw [hsending]
  emitted update hupdate := by
    rw [hsending] at hupdate
    cases hupdate

/-- Whatever endpoint `Send` gets and whichever hand-offs fail, a packet is delivered once, along
the plan, or not at all. -/
theorem send_delivers_once (b : Bind) (self : Nat) (endpoint : BatchEndpoint) (packet : List UInt8)
    (now : Time) (fails : Nat → Option String) :
    SentOnce b self endpoint packet now fails (b.sendBatch fails [packet] now self endpoint) := by
  rcases sendBatch_cases b self endpoint packet now fails with
    ⟨hother, heq⟩ | ⟨ep, addr, rfl, haddr, heq⟩ | ⟨ep, rfl, haddr, heq⟩
  · rw [heq]
    exact sentOnce_nothing (Option.some_ne_none _) rfl (fun ep _ hep => absurd hep (hother ep))
      fun ep hep => absurd hep (hother ep)
  · rw [heq]
    have hfollows := follows_sendUDP fails ep.nodeKey b packet addr
    have hattempts := hfollows.attempts {}
    refine ⟨?_, ?_, ?_, ?_, fun update hupdate => ?_⟩
    · rw [hattempts, hfollows.err]
      exact Iff.rfl
    · rintro ep' addr' ⟨⟩ haddr'
      cases haddr.symm.trans haddr'
      rw [hattempts]
      unfold Bind.udpPlan
      split
      · change (tryInOrder fails 0 _).map Prod.fst = _
        rw [tryInOrder]
        cases fails 0 <;> rfl
      · rfl
    · rintro ep' peer ⟨⟩ hnone
      rw [haddr] at hnone
      cases hnone
    · rintro (hclosed | ⟨ep', ⟨⟩, hnone, -⟩ | hother)
      · rw [hattempts, Bind.udpPlan, if_neg (by simp [hclosed])]
        rfl
      · rw [haddr] at hnone
        cases hnone
      · exact absurd rfl (hother ep)
    · obtain ⟨h, hmem, hreports⟩ := (hfollows.emitted {} update hupdate).resolve_left
        not_mem_nil
      exact ⟨ep, h, rfl, hmem, hreports⟩
  · rw [heq]
    by_cases hknown : b.isOpen = true ∧ ep.nodeKey ∈ b.peers
    · obtain ⟨peer, hpeer⟩ := FinMap.mem_iff.mp hknown.2
      obtain ⟨hattempts, herr, hemitted⟩ :=
        sendNode_known fails ep.nodeKey b peer now packet hknown.1 hpeer
      refine ⟨herr, ?_, ?_, ?_, fun update hupdate => ?_⟩
      · rintro ep' addr' ⟨⟩ haddr'
        rw [haddr] at haddr'
        cases haddr'
      · rintro ep' peer' ⟨⟩ - - hpeer'
        cases hpeer.symm.trans hpeer'
        exact hattempts
      · rintro (hclosed | ⟨ep', ⟨⟩, -, hunknown⟩ | hother)
        · rw [hknown.1] at hclosed
          cases hclosed
        · exact absurd hknown.2 hunknown
        · exact absurd rfl (hother ep)
      · obtain ⟨h, hmem, hreports⟩ := hemitted update hupdate
        exact ⟨ep, h, rfl, hmem, hreports⟩
    · have hnot : b.isOpen = false ∨ ep.nodeKey ∉ b.peers := by
        rw [not_and_or, Bool.not_eq_true] at hknown
        exact hknown
      obtain ⟨hsending, herr⟩ := sendNode_unknown fails ep.nodeKey b now packet hnot
      refine sentOnce_nothing herr hsending ?_ ?_
      · rintro ep' addr' ⟨⟩ haddr'
        rw [haddr] at haddr'
        cases haddr'
      · rintro ep' ⟨⟩
        exact hnot

end WgoTailscale
