import WgoTailscale.Bind

/-!
# The bind's index by discovery key

`byDisco` maps a discovery key to the node that carries it, and `handleDisco` ignores a message
whose sender has no entry. The index is sound in every run. It is complete exactly in the runs whose
updates and removals never take out a key that another peer carries (`discoComplete_run_iff`), which
the code does not check: a node-key change leaves two peers with one discovery key for a while, and
removing the old one loses the entry of the new one.
-/

namespace WgoTailscale

open Index FinMap

/-! ## What the operations do to a peer -/

section
variable (b : Bind) (state : PeerState) (config : PeerConfig)

/-- The peer that `replacePeer` stores. -/
def replacedPeer : PeerState :=
  let kept := { state with config, candidates := config.endpoints, learned := ∅, lastProbe := 0 }
  if state.direct.isValid ∧ state.config.discoKey ≠ config.discoKey then
    { kept with direct := .zero, latency := 0, directAt := 0 }
  else kept

theorem replacePeer_peers :
    (b.replacePeer state config).peers =
      b.peers.insert config.nodeKey (replacedPeer state config) := by
  unfold Bind.replacePeer replacedPeer
  dsimp only
  split
  · rfl
  · split <;> rfl

theorem replacePeer_byDisco :
    (b.replacePeer state config).byDisco =
      let byDisco := if state.config.discoKey.isZero then b.byDisco
        else b.byDisco.erase state.config.discoKey
      if config.discoKey.isZero then byDisco
      else byDisco.insert config.discoKey config.nodeKey := by
  unfold Bind.replacePeer
  dsimp only
  split
  · rfl
  · split <;> rfl

theorem get_byDisco_replacePeer (d : DiscoPublic) :
    (b.replacePeer state config).byDisco.get d =
      if config.discoKey = d ∧ d.isZero = false then some config.nodeKey
      else if state.config.discoKey = d ∧ d.isZero = false then none
      else b.byDisco.get d := by
  have hold : (if state.config.discoKey.isZero then b.byDisco
        else b.byDisco.erase state.config.discoKey).get d =
      if state.config.discoKey = d ∧ d.isZero = false then none else b.byDisco.get d := by
    split
    · next h0 =>
      rw [if_neg]
      rintro ⟨rfl, hd⟩
      rw [h0] at hd
      cases hd
    · next h0 =>
      rw [get_erase]
      refine if_congr ⟨?_, fun h => h.1.symm⟩ rfl rfl
      rintro rfl
      exact ⟨rfl, by simpa using h0⟩
  rw [replacePeer_byDisco]
  dsimp only
  split
  · next h0 =>
    rw [hold, if_neg (c := config.discoKey = d ∧ d.isZero = false)]
    rintro ⟨rfl, hd⟩
    rw [h0] at hd
    cases hd
  · next h0 =>
    rw [get_insert, hold]
    refine if_congr ⟨?_, fun h => h.1.symm⟩ rfl rfl
    rintro rfl
    exact ⟨rfl, by simpa using h0⟩

end

/-! ## The index by discovery key -/

/-- The discovery key a peer is to be found under. -/
def discoRef (state : PeerState) (d : DiscoPublic) : Prop :=
  state.config.discoKey = d ∧ d.isZero = false

/-- Every entry of `byDisco` names a peer with that discovery key. -/
def DiscoSound (b : Bind) : Prop := Sound discoRef b.peers b.byDisco

/-- Every peer with a non-zero discovery key has an entry under it, and the entry names a peer with
that discovery key. -/
def DiscoComplete (b : Bind) : Prop :=
  ∀ k state, b.peers.get k = some state → state.config.discoKey.isZero = false →
    ∃ k' state', b.byDisco.get state.config.discoKey = some k' ∧ b.peers.get k' = some state' ∧
      state'.config.discoKey = state.config.discoKey

theorem discoComplete_iff {b : Bind} (hs : DiscoSound b) :
    DiscoComplete b ↔ Complete discoRef b.peers b.byDisco := by
  constructor
  · rintro h k state d hk ⟨rfl, hd⟩
    obtain ⟨k', -, hk', -⟩ := h k state hk hd
    exact mem_of_get hk'
  · intro h k state hk hd
    obtain ⟨k', state', hk', hstate', hr⟩ := h.exists_owner hs hk ⟨rfl, hd⟩
    exact ⟨k', state', hk', hstate', hr.1⟩

/-- The operation leaves the discovery keys and their index alone. -/
structure SameDisco (b b' : Bind) : Prop where
  byDisco : b'.byDisco = b.byDisco
  config : ∀ k, (b'.peers.get k).map (·.config) = (b.peers.get k).map (·.config)

theorem SameDisco.refl (b : Bind) : SameDisco b b := ⟨rfl, fun _ => rfl⟩

theorem SameDisco.trans {b b' b'' : Bind} (h : SameDisco b b') (h' : SameDisco b' b'') :
    SameDisco b b'' :=
  ⟨h'.byDisco.trans h.byDisco, fun k => (h'.config k).trans (h.config k)⟩

theorem SameDisco.symm {b b' : Bind} (h : SameDisco b b') : SameDisco b' b :=
  ⟨h.byDisco.symm, fun k => (h.config k).symm⟩

/-- Storing a peer back with its configuration. -/
theorem config_insert {peers : FinMap NodePublic PeerState} {node : NodePublic}
    {state state' : PeerState} (h : peers.get node = some state)
    (hc : state'.config = state.config) (k : NodePublic) :
    ((peers.insert node state').get k).map (·.config) = (peers.get k).map (·.config) := by
  rw [get_insert]
  split
  · next hk => rw [hk, h, Option.map_some, Option.map_some, hc]
  · rfl

/-- A peer has a counterpart with the same configuration. -/
theorem SameDisco.exists_peer {b b' : Bind} (h : SameDisco b b') {k : NodePublic}
    {state : PeerState} (hk : b.peers.get k = some state) :
    ∃ state', b'.peers.get k = some state' ∧ state'.config = state.config := by
  have := h.config k
  rw [hk, Option.map_some, Option.map_eq_some_iff] at this
  exact this

theorem SameDisco.sound {b b' : Bind} (h : SameDisco b b') (hs : DiscoSound b) :
    DiscoSound b' := by
  intro d k hd
  rw [h.byDisco] at hd
  obtain ⟨state, hk, hr⟩ := hs d k hd
  obtain ⟨state', hk', hc⟩ := h.exists_peer hk
  exact ⟨state', hk', by rw [discoRef, hc]; exact hr⟩

theorem SameDisco.complete {b b' : Bind} (h : SameDisco b b') (hb : DiscoComplete b) :
    DiscoComplete b' := by
  intro k state hk hd
  obtain ⟨state₀, hk₀, hc⟩ := h.symm.exists_peer hk
  obtain ⟨k', state', hd', hk', hkey⟩ := hb k state₀ hk₀ (by rw [hc]; exact hd)
  obtain ⟨state'', hk'', hc'⟩ := h.exists_peer hk'
  rw [hc] at hd' hkey
  exact ⟨k', state'', by rw [h.byDisco, hd'], hk'', by rw [hc', hkey]⟩

/-! ## What the operations leave alone -/

/-- What a bind has apart from its peers. -/
def Bind.network (b : Bind) :
    BindConfig × List EndpointCandidate × FinMap AddrPort EndpointCandidate × Option DERPMap × Int :=
  (b.cfg, b.localEndpoints, b.stun, b.derpMap, b.selfDERP)

/-- Of the peers only the given one may be different, and no ping is new; the configurations and what
is not of peers are the same. -/
structure PeerStep (node : NodePublic) (b b' : Bind) : Prop extends SameDisco b b' where
  peers : ∀ k, k ≠ node → b'.peers.get k = b.peers.get k
  pending : ∀ tx ping, b'.pending.get tx = some ping → b.pending.get tx = some ping
  network : b'.network = b.network
  isOpen : b'.isOpen = b.isOpen

section
variable {node : NodePublic} {b b' b'' : Bind}

theorem PeerStep.refl (node : NodePublic) (b : Bind) : PeerStep node b b :=
  ⟨.refl b, fun _ _ => rfl, fun _ _ h => h, rfl, rfl⟩

theorem PeerStep.trans (h : PeerStep node b b') (h' : PeerStep node b' b'') : PeerStep node b b'' :=
  ⟨h.toSameDisco.trans h'.toSameDisco, fun k hk => (h'.peers k hk).trans (h.peers k hk),
    fun tx ping hget => h.pending tx ping (h'.pending tx ping hget), h'.network.trans h.network,
    h'.isOpen.trans h.isOpen⟩

/-- Storing the peer back with its configuration. -/
theorem peerStep_insert {state state' : PeerState} {byAddr : FinMap AddrPort NodePublic}
    {pending : FinMap TxID PendingPing} (hget : b.peers.get node = some state)
    (hconfig : state'.config = state.config)
    (hpending : ∀ tx ping, pending.get tx = some ping → b.pending.get tx = some ping) :
    PeerStep node b { b with peers := b.peers.insert node state', byAddr, pending } :=
  ⟨⟨rfl, config_insert hget hconfig⟩, fun _ hk => get_insert_ne _ _ hk, hpending, rfl, rfl⟩

variable (b node)

theorem peerStep_setDirect (addr : AddrPort) (latency : Duration) (now : Time) :
    PeerStep node b (b.setDirect node addr latency now).1 := by
  unfold Bind.setDirect
  dsimp only
  split
  · exact .refl node b
  · split
    · exact .refl node b
    · next state hget => exact peerStep_insert hget rfl fun _ _ h => h

theorem peerStep_prune (now : Time) : PeerStep node b (b.pruneLearnedCandidates node now).1 := by
  unfold Bind.pruneLearnedCandidates
  split
  · exact .refl node b
  · next state hget =>
    split
    · exact peerStep_insert hget rfl fun _ _ h => h
    · exact .refl node b

/-- The loop of `addLearnedCandidatesLocked` keeps the peer's configuration. -/
theorem config_learn {node : NodePublic} {now : Time} (fresh : List AddrPort)
    (acc : PeerState × FinMap AddrPort NodePublic × Bool) :
    (fresh.foldl (Bind.learnOne node now) acc).1.config = acc.1.config := by
  induction fresh generalizing acc with
  | nil => rfl
  | cons a fresh ih =>
    rw [List.foldl_cons, ih]
    unfold Bind.learnOne
    dsimp only
    split
    · rfl
    · split
      · rfl
      · split <;> rfl

theorem peerStep_addLearned (fresh : List AddrPort) (now : Time) :
    PeerStep node b (b.addLearnedCandidates node fresh now).1 := by
  refine (peerStep_prune node b now).trans ?_
  unfold Bind.addLearnedCandidates
  dsimp only
  split
  · exact .refl node _
  · next state hget =>
    refine peerStep_insert hget ?_ fun _ _ h => h
    split
    · exact config_learn fresh _
    · exact config_learn fresh _

theorem peerStep_probePeer (now : Time) : PeerStep node b (b.probePeer node now).1 := by
  unfold Bind.probePeer
  split
  · exact .refl node b
  · split
    · exact .refl node b
    · next state hget =>
      split
      · exact .refl node b
      · refine peerStep_insert hget rfl fun tx ping h => ?_
        rw [get_filter] at h
        exact (Option.filter_eq_some_iff.mp h).1

theorem peerStep_reopenPeer (now : Time) : PeerStep node b (b.reopenPeer now node) := by
  refine (peerStep_prune node b now).trans ?_
  unfold Bind.reopenPeer
  dsimp only
  split
  · exact .refl node _
  · next state hget => exact peerStep_insert hget rfl fun _ _ h => h

/-- The loop of `Open`. -/
theorem reopen_keeps (now : Time) (order : List NodePublic) :
    SameDisco b (order.foldl (Bind.reopenPeer now) b) ∧
      (order.foldl (Bind.reopenPeer now) b).network = b.network ∧
      (order.foldl (Bind.reopenPeer now) b).isOpen = b.isOpen ∧
      ∀ tx ping, (order.foldl (Bind.reopenPeer now) b).pending.get tx = some ping →
        b.pending.get tx = some ping := by
  induction order generalizing b with
  | nil => exact ⟨.refl b, rfl, rfl, fun _ _ h => h⟩
  | cons key order ih =>
    have h := peerStep_reopenPeer key b now
    obtain ⟨hdisco, hnetwork, hopen, hpending⟩ := ih (b.reopenPeer now key)
    exact ⟨h.toSameDisco.trans hdisco, hnetwork.trans h.network, hopen.trans h.isOpen,
      fun tx ping hget => h.pending tx ping (hpending tx ping hget)⟩

/-- `Open` installs a connection, or goes on without one, and visits the peers. -/
def Bind.installs (b : Bind) (listen : Bind.Listen) : Bool :=
  !b.isOpen && match listen with
    | .failed => !b.cfg.disableDERP
    | .noAddress => false
    | .ok _ => true

/-- The bind with which `Open` begins its loop. -/
def Bind.installed (b : Bind) (conn : Option AddrPort) : Bind :=
  { b with
    closed := false, generation := b.generation + 1, conn, isOpen := true
    localPort := (conn.getD .zero).port
    stun := ∅, stunAt := ∅, stunPending := ∅, pending := ∅, byAddr := ∅ }

/-- `Open` visits the peers of a closed bind, or changes at most its being closed. -/
theorem openBind_cases (listen : Bind.Listen) (now : Time) (order : List NodePublic)
    (interfaces : List String) :
    (b.installs listen = false ∧
      ∃ closed, b.openBind listen now order interfaces = { b with closed }) ∨
    b.installs listen = true ∧ b.isOpen = false ∧ ∃ conn localEndpoints,
      b.openBind listen now order interfaces =
        { order.foldl (Bind.reopenPeer now) (b.installed conn) with localEndpoints } := by
  by_cases hopen : b.isOpen = true
  · exact .inl ⟨by simp [Bind.installs, hopen], b.closed, if_pos hopen⟩
  have hclosed := Bool.eq_false_iff.mpr hopen
  unfold Bind.openBind
  rw [if_neg hopen]
  cases listen with
  | failed =>
    by_cases hdisable : b.cfg.disableDERP = true
    · exact .inl ⟨by simp [Bind.installs, hdisable], false, if_pos hdisable⟩
    · exact .inr ⟨by simp [Bind.installs, hclosed, hdisable], hclosed, none, [], if_neg hdisable⟩
  | noAddress => exact .inl ⟨by simp [Bind.installs], false, rfl⟩
  | ok actual => exact .inr ⟨by simp [Bind.installs, hclosed], hclosed, some actual, _, rfl⟩

theorem sameDisco_openBind (listen : Bind.Listen) (now : Time) (order : List NodePublic)
    (interfaces : List String) : SameDisco b (b.openBind listen now order interfaces) := by
  rcases openBind_cases b listen now order interfaces with
    ⟨-, closed, heq⟩ | ⟨-, -, conn, localEndpoints, heq⟩
  · rw [heq]
    exact ⟨rfl, fun _ => rfl⟩
  · obtain ⟨hloop, -⟩ := reopen_keeps (b.installed conn) now order
    rw [heq]
    exact ⟨hloop.byDisco, hloop.config⟩

theorem sameDisco_closeBind : SameDisco b b.closeBind := by
  unfold Bind.closeBind
  split <;> exact ⟨rfl, fun _ => rfl⟩

end

/-- Another peer carries the discovery key too. -/
def DiscoShared (b : Bind) (k : NodePublic) (d : DiscoPublic) : Prop :=
  ∃ k' state', k' ≠ k ∧ b.peers.get k' = some state' ∧ state'.config.discoKey = d

section
variable {b : Bind} {state : PeerState} {config : PeerConfig}
  (hstate : ∀ s, b.peers.get config.nodeKey = some s → s = state) (hs : DiscoSound b)
include hstate hs

theorem discoSound_replacePeer : DiscoSound (b.replacePeer state config) := by
  have hconfig : (replacedPeer state config).config = config := by
    unfold replacedPeer
    split <;> rfl
  refine Sound.update (k := config.nodeKey) hs (fun k' hk' => ?_) fun d k' hd => ?_
  · rw [replacePeer_peers, get_insert_ne _ _ hk']
  · rw [get_byDisco_replacePeer] at hd
    split at hd
    · next hnew =>
      cases hd
      refine .inr ⟨rfl, replacedPeer state config, ?_, ?_⟩
      · rw [replacePeer_peers, get_insert_self]
      · rw [discoRef, hconfig]
        exact hnew
    · split at hd
      · cases hd
      · next hold =>
        refine .inl ⟨?_, hd⟩
        rintro rfl
        obtain ⟨s, hk, hr⟩ := hs d _ hd
        obtain rfl := hstate s hk
        exact hold hr

/-- Replacing a peer keeps the index complete exactly when no other peer is left with the old
discovery key. -/
theorem discoComplete_replacePeer (hb : DiscoComplete b) :
    DiscoComplete (b.replacePeer state config) ↔
      (state.config.discoKey.isZero = false → state.config.discoKey ≠ config.discoKey →
        ¬ DiscoShared b config.nodeKey state.config.discoKey) := by
  have hconfig : (replacedPeer state config).config = config := by
    unfold replacedPeer
    split <;> rfl
  constructor
  · rintro h hzero hne ⟨k', state', hk', hpeer, hkey⟩
    have hpeer' : (b.replacePeer state config).peers.get k' = some state' := by
      rw [replacePeer_peers, get_insert_ne _ _ hk', hpeer]
    obtain ⟨_, _, hd, -⟩ := h k' state' hpeer' (by rw [hkey]; exact hzero)
    rw [get_byDisco_replacePeer, hkey, if_neg (fun h => hne h.1.symm), if_pos ⟨rfl, hzero⟩] at hd
    cases hd
  · intro hok
    rw [discoComplete_iff (discoSound_replacePeer hstate hs)]
    rw [discoComplete_iff hs] at hb
    refine hb.update (k := config.nodeKey) (fun k' hk' => ?_) (fun s d hk hr => ?_) ?_
    · rw [replacePeer_peers, get_insert_ne _ _ hk']
    · rw [replacePeer_peers, get_insert_self] at hk
      cases hk
      rw [discoRef, hconfig] at hr
      exact mem_of_get (by rw [get_byDisco_replacePeer, if_pos hr])
    · intro k' s d hk' hpeer hr hd
      obtain ⟨owner, howner⟩ := mem_iff.mp hd
      rw [mem_iff]
      rw [get_byDisco_replacePeer]
      split
      · exact ⟨_, rfl⟩
      · next hnew =>
        split
        · next hold =>
          obtain ⟨rfl, hzero⟩ := hold
          exact absurd ⟨k', s, hk', hpeer, hr.1⟩
            (hok hzero fun heq => hnew ⟨heq.symm, hzero⟩)
        · exact ⟨owner, howner⟩

end

theorem removePeer_peers (b : Bind) (k : NodePublic) :
    (b.removePeer k).peers = b.peers.erase k := by
  unfold Bind.removePeer
  split <;> rfl

theorem removePeer_byDisco {b : Bind} {k : NodePublic} {state : PeerState}
    (h : b.peers.get k = some state) :
    (b.removePeer k).byDisco = b.byDisco.erase state.config.discoKey := by
  unfold Bind.removePeer
  rw [h]

theorem sameDisco_removePeer {b : Bind} {k : NodePublic} (h : b.peers.get k = none) :
    SameDisco b (b.removePeer k) := by
  refine ⟨?_, fun k' => ?_⟩
  · unfold Bind.removePeer
    rw [h]
  · rw [removePeer_peers, erase_eq_self (not_mem_iff.mpr h)]

section
variable {b : Bind} {k : NodePublic} {state : PeerState} (hstate : b.peers.get k = some state)
  (hs : DiscoSound b)
include hstate hs

theorem discoSound_removePeer : DiscoSound (b.removePeer k) := by
  refine Sound.update (k := k) hs (fun k' hk' => ?_) fun d k' hd => ?_
  · rw [removePeer_peers, get_erase_ne _ hk']
  · rw [removePeer_byDisco hstate, get_erase] at hd
    split at hd
    · cases hd
    · next hne =>
      refine .inl ⟨?_, hd⟩
      rintro rfl
      obtain ⟨s, hk, hr⟩ := hs d _ hd
      cases hstate.symm.trans hk
      exact hne hr.1.symm

/-- Removing a peer keeps the index complete exactly when no other peer is left with its discovery
key. -/
theorem discoComplete_removePeer (hb : DiscoComplete b) :
    DiscoComplete (b.removePeer k) ↔ (state.config.discoKey.isZero = false →
      ¬ DiscoShared b k state.config.discoKey) := by
  constructor
  · rintro h hzero ⟨k', state', hk', hpeer, hkey⟩
    have hpeer' : (b.removePeer k).peers.get k' = some state' := by
      rw [removePeer_peers, get_erase_ne _ hk', hpeer]
    obtain ⟨_, _, hd, -⟩ := h k' state' hpeer' (by rw [hkey]; exact hzero)
    rw [removePeer_byDisco hstate, hkey, get_erase_self] at hd
    cases hd
  · intro hok
    rw [discoComplete_iff (discoSound_removePeer hstate hs)]
    rw [discoComplete_iff hs] at hb
    refine hb.update (k := k) (fun k' hk' => ?_) (fun s d hk hr => ?_) ?_
    · rw [removePeer_peers, get_erase_ne _ hk']
    · rw [removePeer_peers, get_erase_self] at hk
      cases hk
    · intro k' s d hk' hpeer hr hd
      rw [removePeer_byDisco hstate, mem_erase]
      refine ⟨?_, hd⟩
      rintro rfl
      exact hok hr.2 ⟨k', s, hk', hpeer, hr.1⟩

end

/-- The condition on a step, in the state before it: an update that changes a peer's discovery key,
or a removal, happens only when no other peer carries the old key. -/
def DiscoStepOK (b : Bind) : BindOp → Prop
  | .updatePeer config => ∀ state, b.peers.get config.nodeKey = some state →
      state.config.discoKey.isZero = false → state.config.discoKey ≠ config.discoKey →
      ¬ DiscoShared b config.nodeKey state.config.discoKey
  | .removePeer key => ∀ state, b.peers.get key = some state →
      state.config.discoKey.isZero = false → ¬ DiscoShared b key state.config.discoKey
  | _ => True

/-- Steps that leave the discovery keys alone. -/
theorem exec_sameDisco {b b' : Bind} {op : BindOp} (h : b.exec op = some b')
    (hop : ∀ config, op ≠ .updatePeer config) (hop' : ∀ key, op ≠ .removePeer key) :
    SameDisco b b' := by
  cases op with
  | updatePeer config => exact absurd rfl (hop config)
  | removePeer key => exact absurd rfl (hop' key)
  | setDirect node addr latency now =>
    cases h
    exact (peerStep_setDirect node b addr latency now).toSameDisco
  | addLearnedCandidates node fresh now =>
    cases h
    exact (peerStep_addLearned node b fresh now).toSameDisco
  | pruneLearnedCandidates node now =>
    cases h
    exact (peerStep_prune node b now).toSameDisco
  | openBind listen now order interfaces =>
    rw [Bind.exec] at h
    split at h
    · cases h
      exact sameDisco_openBind b listen now order interfaces
    · cases h
  | closeBind =>
    cases h
    exact sameDisco_closeBind b
  | probePeer node now =>
    cases h
    exact (peerStep_probePeer node b now).toSameDisco
  | recordPing tx ping =>
    cases h
    exact ⟨rfl, fun _ => rfl⟩

/-- `UpdatePeer` replaces the stored peer, or a new one, unless nothing changes. -/
theorem updatePeer_cases (b : Bind) (config : PeerConfig) :
    (∃ state, b.peers.get config.nodeKey = some state ∧ state.config = config.sanitized ∧
      b.updatePeer config = b) ∨
    ∃ state, (∀ s, b.peers.get config.nodeKey = some s →
        s = state ∧ s.config ≠ config.sanitized) ∧
      (b.peers.get config.nodeKey = none → state = .zero) ∧
      b.updatePeer config = b.replacePeer state config.sanitized := by
  unfold Bind.updatePeer
  cases hget : b.peers.get config.nodeKey with
  | none => exact .inr ⟨.zero, nofun, fun _ => rfl, rfl⟩
  | some state =>
    dsimp only
    split
    · next heq => exact .inl ⟨state, rfl, heq, rfl⟩
    · next hne =>
      refine .inr ⟨state, fun s hs => ?_, nofun, rfl⟩
      cases hs
      exact ⟨rfl, hne⟩

theorem exec_discoSound {b b' : Bind} {op : BindOp} (hs : DiscoSound b)
    (h : b.exec op = some b') : DiscoSound b' := by
  cases op with
  | updatePeer config =>
    cases h
    rcases updatePeer_cases b config with ⟨-, -, -, heq⟩ | ⟨state, hstate, -, heq⟩
    · rwa [heq]
    · rw [heq]
      have hold : ∀ s, b.peers.get config.sanitized.nodeKey = some s → s = state :=
        fun s hk => (hstate s hk).1
      exact discoSound_replacePeer hold hs
  | removePeer key =>
    cases h
    cases hget : b.peers.get key with
    | none => exact (sameDisco_removePeer hget).sound hs
    | some state => exact discoSound_removePeer hget hs
  | _ => exact (exec_sameDisco h (by simp) (by simp)).sound hs

/-- From a state with a complete index, a step leads to one exactly when it meets the condition. -/
theorem exec_discoComplete_iff {b b' : Bind} {op : BindOp} (hs : DiscoSound b)
    (hb : DiscoComplete b) (h : b.exec op = some b') : DiscoComplete b' ↔ DiscoStepOK b op := by
  cases op with
  | updatePeer config =>
    cases h
    rcases updatePeer_cases b config with ⟨state, hget, hsame, heq⟩ | ⟨state, hstate, hnone, heq⟩
    · rw [heq]
      refine iff_of_true hb fun s hs' _ hne => absurd ?_ hne
      cases hget.symm.trans hs'
      rw [hsame, PeerConfig.sanitized_discoKey]
    · have hold : ∀ s, b.peers.get config.sanitized.nodeKey = some s → s = state :=
        fun s hk => (hstate s hk).1
      rw [heq, discoComplete_replacePeer hold hs hb]
      constructor
      · intro hok s hs'
        obtain ⟨rfl, -⟩ := hstate s hs'
        exact hok
      · intro hok hzero
        cases hget : b.peers.get config.nodeKey with
        | none =>
          rw [hnone hget] at hzero
          cases hzero
        | some s =>
          obtain ⟨rfl, -⟩ := hstate s hget
          exact hok s hget hzero
  | removePeer key =>
    cases h
    cases hget : b.peers.get key with
    | none =>
      refine iff_of_true ((sameDisco_removePeer hget).complete hb) fun s hs' => ?_
      rw [hget] at hs'
      cases hs'
    | some state =>
      rw [discoComplete_removePeer hget hs hb]
      constructor
      · intro hok s hs'
        cases hget.symm.trans hs'
        exact hok
      · exact fun hok => hok state hget
  | _ => exact iff_of_true ((exec_sameDisco h (by simp) (by simp)).complete hb) trivial

/-- A run of bind operations from a new bind visits only states whose index by discovery key is
complete exactly when none of its steps takes a discovery key from the index that another peer
still carries. -/
theorem discoComplete_run_iff (cfg : BindConfig) (ops : List BindOp) :
    bindSystem.Visits DiscoComplete (newBind cfg) ops ↔
      bindSystem.Meets DiscoStepOK (newBind cfg) ops := by
  refine System.visits_iff_meets (J := DiscoSound) (fun _ _ _ hs h => exec_discoSound hs h)
    (fun _ _ _ hs hb h => exec_discoComplete_iff hs hb h) ?_ ?_ ops
  · intro d k h
    cases h
  · intro k state h
    cases h

/-- Two node keys carry one discovery key and the first is removed: the second is left without an
entry. -/
theorem removePeer_loses_shared_disco :
    ¬ bindSystem.Visits DiscoComplete (newBind ⟨false, false⟩)
      [.updatePeer { nodeKey := ⟨1⟩, discoKey := ⟨7⟩, endpoints := [], homeDERP := 0,
                     wireGuardOnly := false },
       .updatePeer { nodeKey := ⟨2⟩, discoKey := ⟨7⟩, endpoints := [], homeDERP := 0,
                     wireGuardOnly := false },
       .removePeer ⟨1⟩] := by
  intro h
  have hlast := ((h.2 _ rfl).2 _ rfl).2 _ rfl
  obtain ⟨k', -, hentry, -⟩ := hlast ⟨2⟩ _ rfl rfl
  cases hentry

end WgoTailscale
