import WgoTailscale.Disco
import WgoTailscale.BindDisco

/-!
# Who a DISCO packet can act for

A packet changes a peer only if its box was sealed under the key shared with the peer, and only over
the channel its message belongs to, and a pong takes its transaction (`disco_acts_authenticated`).
-/

namespace WgoTailscale

open FinMap

/-! ## Which peers it touches -/

section
variable (node : NodePublic) (b : Bind)

theorem peerStep_erasePending (tx : TxID) :
    PeerStep node b { b with pending := b.pending.erase tx } := by
  refine ⟨⟨rfl, fun _ => rfl⟩, fun _ _ => rfl, fun tx' ping h => ?_, rfl, rfl⟩
  rw [get_erase] at h
  split at h
  · cases h
  · exact h

/-- Taking a pong: nothing if its transaction is unknown; otherwise the transaction is over, and it
is the peer's if the peers are different. -/
theorem takePong_cases (tx : TxID) (source : AddrPort) (received now : Time) :
    (b.pending.get tx = none ∧
      b.takePong node tx source received now = { consumed := true, bind := b }) ∨
    ∃ ping, b.pending.get tx = some ping ∧
      (b.takePong node tx source received now).bind.pending.get tx = none ∧
      PeerStep node b (b.takePong node tx source received now).bind ∧
      (ping.node = node ∧ (b.takePong node tx source received now).answered = some tx ∨
        ping.node ≠ node ∧ (b.takePong node tx source received now).bind.peers = b.peers ∧
          (b.takePong node tx source received now).answered = none) := by
  unfold Bind.takePong
  cases hget : b.pending.get tx with
  | none => exact .inl ⟨rfl, rfl⟩
  | some ping =>
    dsimp only
    have herase := peerStep_erasePending node b tx
    split
    · next hnode =>
      have hset := peerStep_setDirect node { b with pending := b.pending.erase tx } source
        (received - ping.sent) now
      refine .inr ⟨ping, rfl, ?_, herase.trans hset, .inl ⟨hnode, rfl⟩⟩
      cases hafter : (Bind.setDirect { b with pending := b.pending.erase tx } node source
          (received - ping.sent) now).1.pending.get tx with
      | none => exact hafter
      | some ping' =>
        have hold := hset.pending tx ping' hafter
        rw [get_erase_self] at hold
        cases hold
    · next hnode =>
      exact .inr ⟨ping, rfl, get_erase_self _ _, herase, .inr ⟨hnode, rfl, rfl⟩⟩

end

section
variable {b : Bind} {node : NodePublic} {cleartext : List UInt8} {source : AddrPort}
  {viaDERP : Bool} {received now : Time} {r : DiscoHandled}

/-- A text touches only the peer of its node. -/
theorem DiscoActs.peerStep (h : DiscoActs b node cleartext source viaDERP received now r) :
    PeerStep node b r.bind := by
  cases h with
  | ignored => exact .refl node b
  | ping => exact peerStep_setDirect node b source 0 now
  | pong =>
    rcases takePong_cases node b (.ofBytes (discoTx cleartext)) source received now with
      ⟨-, heq⟩ | ⟨_, -, -, honly, -⟩
    · rw [heq]
      exact .refl node b
    · exact honly
  | callMe =>
    unfold Bind.takeCallMe
    split
    · exact .refl node b
    · dsimp only
      split
      · exact (peerStep_addLearned node b _ received).trans (peerStep_probePeer node _ now)
      · exact peerStep_addLearned node b _ received

/-- A transaction that is answered was outstanding for the node, and no longer is. -/
theorem DiscoActs.answered {tx : TxID}
    (h : DiscoActs b node cleartext source viaDERP received now r) (htx : r.answered = some tx) :
    tx ∈ b.pending ∧ tx ∉ r.bind.pending := by
  cases h with
  | ignored | ping => cases htx
  | pong =>
    rcases takePong_cases node b (.ofBytes (discoTx cleartext)) source received now with
      ⟨-, heq⟩ | ⟨ping, hget, hover, -, ⟨-, hanswered⟩ | ⟨-, -, hanswered⟩⟩
    · rw [heq] at htx
      cases htx
    · cases hanswered.symm.trans htx
      exact ⟨mem_of_get hget, not_mem_iff.mpr hover⟩
    · rw [hanswered] at htx
      cases htx
  | callMe =>
    unfold Bind.takeCallMe at htx
    split at htx
    · cases htx
    · dsimp only at htx
      split at htx <;> cases htx

end

/-- A text that may change the peer of its node, by the kind of its message: a ping over UDP that
does not name another node, a pong over UDP that answers an outstanding ping to the node, which is
over then, or a CallMeMaybe message over DERP. -/
def DiscoAllowed (b : Bind) (node : NodePublic) (cleartext : List UInt8) (viaDERP : Bool)
    (r : DiscoHandled) : Prop :=
  (cleartext[0]? = some discoPing ∧ viaDERP = false ∧
    (46 ≤ cleartext.length → NodePublic.ofBytes ((cleartext.take 46).drop 14) = node)) ∨
  (cleartext[0]? = some discoPong ∧ viaDERP = false ∧
    ∃ tx ping, tx = TxID.ofBytes (discoTx cleartext) ∧ b.pending.get tx = some ping ∧
      ping.node = node ∧ r.answered = some tx ∧ tx ∉ r.bind.pending) ∨
  (cleartext[0]? = some discoCallMe ∧ viaDERP = true)

theorem DiscoActs.allowed {b : Bind} {node : NodePublic} {cleartext : List UInt8}
    {source : AddrPort} {viaDERP : Bool} {received now : Time} {r : DiscoHandled}
    (h : DiscoActs b node cleartext source viaDERP received now r) :
    r.bind.peers = b.peers ∨
      cleartext[1]? = some discoVersion ∧ DiscoAllowed b node cleartext viaDERP r := by
  cases h with
  | ignored => exact .inl rfl
  | ping hkind hversion hudp _ hclaimed => exact .inr ⟨hversion, .inl ⟨hkind, hudp, hclaimed⟩⟩
  | pong hkind hversion hudp _ =>
    rcases takePong_cases node b (.ofBytes (discoTx cleartext)) source received now with
      ⟨-, heq⟩ | ⟨ping, hget, hover, -, ⟨hnode, hanswered⟩ | ⟨-, hsame, -⟩⟩
    · rw [heq]
      exact .inl rfl
    · exact .inr ⟨hversion, .inr (.inl ⟨hkind, hudp, _, ping, rfl, hget, hnode, hanswered,
        not_mem_iff.mpr hover⟩)⟩
    · exact .inl hsame
  | callMe hkind hversion hderp => exact .inr ⟨hversion, .inr (.inr ⟨hkind, hderp⟩)⟩

/-! ## Transactions over a run -/

/-- A packet arrives, or the bind does something else. -/
inductive DiscoEvent where
  | packet (box : DiscoBox) (packet : List UInt8) (source : AddrPort) (derpSource : NodePublic)
      (viaDERP : Bool) (received now : Time)
  | op (op : BindOp)

/-- The event records a ping with the transaction. -/
def DiscoEvent.records (tx : TxID) : DiscoEvent → Bool
  | .op (.recordPing tx' _) => tx' = tx
  | _ => false

/-- How often a pong with the transaction is taken for a peer in a run. -/
def Bind.answers (tx : TxID) : Bind → List DiscoEvent → Nat
  | _, [] => 0
  | b, .packet box packet source derpSource viaDERP received now :: events =>
    match b.handleDiscoPacket box packet source derpSource viaDERP received now with
    | none => 0
    | some r => (if r.answered = some tx then 1 else 0) + r.bind.answers tx events
  | b, .op op :: events => (b.exec op).elim 0 fun b' => b'.answers tx events

/-- Nothing but the record of a ping makes a transaction outstanding. -/
theorem pending_exec {b b' : Bind} {op : BindOp} {tx : TxID} (h : b.exec op = some b')
    (hmem : tx ∈ b'.pending) : tx ∈ b.pending ∨ (DiscoEvent.op op).records tx = true := by
  have honly {node : NodePublic} (hb' : PeerStep node b b') : tx ∈ b.pending := by
    obtain ⟨ping, hget⟩ := mem_iff.mp hmem
    exact mem_of_get (hb'.pending tx ping hget)
  cases op with
  | updatePeer config =>
    cases h
    refine .inl ?_
    rcases updatePeer_cases b config with ⟨-, -, -, heq⟩ | ⟨_, -, -, heq⟩
    · rwa [heq] at hmem
    · rw [heq] at hmem
      unfold Bind.replacePeer at hmem
      dsimp only at hmem
      repeat' split at hmem
      all_goals exact hmem
  | removePeer key =>
    cases h
    obtain ⟨ping, hget⟩ := mem_iff.mp hmem
    refine .inl (mem_of_get (v := ping) ?_)
    unfold Bind.removePeer at hget
    rw [get_filter] at hget
    have hold := (Option.filter_eq_some_iff.mp hget).1
    cases hpeer : b.peers.get key <;> rw [hpeer] at hold <;> exact hold
  | setDirect node addr latency now =>
    cases h
    exact .inl (honly (peerStep_setDirect node b addr latency now))
  | addLearnedCandidates node fresh now =>
    cases h
    exact .inl (honly (peerStep_addLearned node b fresh now))
  | pruneLearnedCandidates node now =>
    cases h
    exact .inl (honly (peerStep_prune node b now))
  | openBind listen now order interfaces =>
    rw [Bind.exec] at h
    split at h
    · cases h
      rcases openBind_cases b listen now order interfaces with
        ⟨-, closed, heq⟩ | ⟨-, -, conn, localEndpoints, heq⟩
      · rw [heq] at hmem
        exact .inl hmem
      · rw [heq] at hmem
        obtain ⟨ping, hget⟩ := mem_iff.mp hmem
        cases (reopen_keeps (b.installed conn) now order).2.2.2 tx ping hget
    · cases h
  | closeBind =>
    cases h
    unfold Bind.closeBind at hmem
    split at hmem <;> exact .inl hmem
  | probePeer node now =>
    cases h
    exact .inl (honly (peerStep_probePeer node b now))
  | recordPing tx' ping =>
    cases h
    rcases mem_insert.mp hmem with rfl | hold
    · exact .inr (decide_eq_true rfl)
    · exact .inl hold

/-- A transaction is answered at most as often as it was recorded. -/
theorem answers_le (tx : TxID) (b : Bind) (events : List DiscoEvent) :
    b.answers tx events ≤
      events.countP (DiscoEvent.records tx) + if tx ∈ b.pending then 1 else 0 := by
  induction events generalizing b with
  | nil => exact Nat.zero_le _
  | cons event events ih =>
    cases event with
    | packet box packet source derpSource viaDERP received now =>
      rw [List.countP_cons_of_neg (by simp [DiscoEvent.records]), Bind.answers]
      obtain ⟨r, hr, -, hcases⟩ := handleDiscoPacket_cases b source viaDERP received now box
        derpSource packet
      rw [hr]
      have hrest := ih r.bind
      dsimp only
      rcases hcases with ⟨hbind, -, hanswered⟩ | ⟨node, cleartext, -, -, -, hacts⟩
      · rw [hbind] at hrest ⊢
        rw [hanswered, if_neg (Option.some_ne_none tx).symm]
        omega
      · by_cases htx : r.answered = some tx
        · obtain ⟨hbefore, hafter⟩ := hacts.answered htx
          rw [if_neg hafter] at hrest
          rw [if_pos htx, if_pos hbefore]
          omega
        · have hshrinks : tx ∈ r.bind.pending → tx ∈ b.pending := by
            intro hmem
            obtain ⟨ping, hget⟩ := mem_iff.mp hmem
            exact mem_of_get (hacts.peerStep.pending tx ping hget)
          rw [if_neg htx]
          split at hrest
          · next hmem =>
            rw [if_pos (hshrinks hmem)]
            omega
          · omega
    | op op =>
      rw [Bind.answers]
      cases hexec : b.exec op with
      | none => exact Nat.zero_le _
      | some b' =>
        have hrest := ih b'
        rw [List.countP_cons, Option.elim_some]
        by_cases hmem : tx ∈ b'.pending
        · rw [if_pos hmem] at hrest
          rcases pending_exec hexec hmem with hold | hrecords
          · rw [if_pos hold]
            omega
          · rw [if_pos hrecords]
            omega
        · rw [if_neg hmem] at hrest
          omega

theorem byDisco_of_discoNode {b : Bind} {sender : DiscoPublic} {derpSource : Option NodePublic}
    {node : NodePublic} (h : b.discoNode sender derpSource = some node) :
    b.byDisco.get sender = some node ∧ node ∈ b.peers ∧
      ∀ source, derpSource = some source → source = node := by
  unfold Bind.discoNode at h
  split at h
  · cases h
  · next found hget =>
    split at h
    · cases h
    · next hok =>
      cases h
      obtain ⟨hmem, hsource⟩ := not_or.mp hok
      refine ⟨hget, not_not.mp hmem, ?_⟩
      rintro source rfl
      simpa using hsource

/-- Whatever packet arrives, over UDP or over a relay, `handleDisco` comes to an end without a
panic, and the peers stay as they are unless discovery is enabled, the sender's key is registered
for a node, the box is one that was sealed under the key shared with the sender, with version 0, and
over a relay its source is the node. Then only the peer of the node changes, and only by a message
on its own channel. In every run a transaction is answered at most as often as it was recorded. -/
theorem disco_acts_authenticated :
    (∀ (b : Bind) (box : DiscoBox) (packet : List UInt8) (source : AddrPort)
      (derpSource : NodePublic) (viaDERP : Bool) (received now : Time),
      ∃ r, b.handleDiscoPacket box packet source derpSource viaDERP received now = some r ∧
        (r.bind.peers = b.peers ∨ ∃ node cleartext, b.cfg.disableDiscovery = false ∧
          b.byDisco.get (discoSender packet) = some node ∧
          box.openDisco (box.shared (discoSender packet)) (packet.drop discoHeaderLen) =
            some cleartext ∧
          box.SealedFor (discoSender packet) cleartext ∧ cleartext[1]? = some discoVersion ∧
          (viaDERP = true → derpSource = node) ∧
          (∀ k, k ≠ node → r.bind.peers.get k = b.peers.get k) ∧
          DiscoAllowed b node cleartext viaDERP r)) ∧
    ∀ (b : Bind) (events : List DiscoEvent) (tx : TxID), b.answers tx events ≤
      events.countP (DiscoEvent.records tx) + if tx ∈ b.pending then 1 else 0 := by
  refine ⟨fun b box packet source derpSource viaDERP received now => ?_,
    fun b events tx => answers_le tx b events⟩
  obtain ⟨r, hr, -, hcases⟩ := handleDiscoPacket_cases b source viaDERP received now box
    derpSource packet
  refine ⟨r, hr, ?_⟩
  rcases hcases with ⟨hbind, -⟩ | ⟨node, cleartext, hdisabled, hnode, hopen, hacts⟩
  · exact .inl (by rw [hbind])
  · rcases hacts.allowed with hsame | ⟨hversion, hallowed⟩
    · exact .inl hsame
    · obtain ⟨hdisco, -, hsource⟩ := byDisco_of_discoNode hnode
      refine .inr ⟨node, cleartext, hdisabled, hdisco, hopen,
        DiscoBox.sealedFor_of_openDisco hopen, hversion, fun hderp => ?_, hacts.peerStep.peers,
        hallowed⟩
      exact hsource derpSource (if_pos hderp)

end WgoTailscale
