import WgoTailscale.BindDisco

/-!
# The bind's index by address

`byAddr` attributes a datagram to the peer that has its source among its candidates or as its direct
path. The index is sound in every run of the bind's operations, and each operation keeps it complete
exactly if it gives up no address another peer has and drops no direct path which is at the same time
a new endpoint (`exec_index`), so the complete runs are known (`addrComplete_run_iff`). With the
soundness of `byDisco` this says which peer a packet is attributed to (`bind_indexes_sound`).
-/

namespace WgoTailscale

open Index FinMap

/-! ## Soundness and completeness -/

/-- The addresses a peer is to be found under: its candidates and a valid direct path. -/
def addrRef (state : PeerState) (a : AddrPort) : Prop :=
  a ∈ state.candidates ∨ (state.direct = a ∧ a.isValid = true)

instance (state : PeerState) (a : AddrPort) : Decidable (addrRef state a) :=
  inferInstanceAs (Decidable (_ ∨ _))

/-- The candidates are the configured and the learned addresses, which are disjoint, and learned
addresses are valid. -/
structure PeerWF (state : PeerState) : Prop where
  mem_candidates : ∀ a, a ∈ state.candidates ↔ a ∈ state.config.endpoints ∨ a ∈ state.learned
  learned : ∀ a ∈ state.learned, a.isValid = true ∧ a ∉ state.config.endpoints

/-- Every entry of `byAddr` names a peer with that address, and every peer is well formed. -/
structure AddrSound (b : Bind) : Prop where
  sound : Sound addrRef b.peers b.byAddr
  wf : ∀ k state, b.peers.get k = some state → PeerWF state

/-- Every candidate and every valid direct path of a peer has an entry in `byAddr`, and the entry
names a peer. -/
def AddrComplete (b : Bind) : Prop :=
  ∀ k state a, b.peers.get k = some state →
    a ∈ state.candidates ∨ (state.direct.isValid = true ∧ a = state.direct) →
    ∃ k', b.byAddr.get a = some k' ∧ k' ∈ b.peers

variable {b : Bind} {state : PeerState} {a : AddrPort} {now : Time} {done : List NodePublic}

theorem addrComplete_iff (hs : AddrSound b) :
    AddrComplete b ↔ Complete addrRef b.peers b.byAddr := by
  constructor
  · intro h k state a hk hr
    have hr : a ∈ state.candidates ∨ (state.direct.isValid = true ∧ a = state.direct) := by
      rcases hr with hr | ⟨rfl, hv⟩
      · exact .inl hr
      · exact .inr ⟨hv, rfl⟩
    obtain ⟨k', hk', -⟩ := h k state a hk hr
    exact mem_of_get hk'
  · intro h k state a hk hr
    have hr : addrRef state a := by
      rcases hr with hr | ⟨hv, rfl⟩
      · exact .inl hr
      · exact .inr ⟨rfl, hv⟩
    obtain ⟨k', state', hk', hstate', -⟩ := h.exists_owner hs.sound hk hr
    exact ⟨k', hk', mem_of_get hstate'⟩

/-- Another peer has the address too. -/
def AddrNeeded (b : Bind) (k : NodePublic) (a : AddrPort) : Prop :=
  ∃ k' state', k' ≠ k ∧ b.peers.get k' = some state' ∧ addrRef state' a

/-- A learned address of the peer is out of date. -/
def Expired (state : PeerState) (now : Time) (a : AddrPort) : Prop :=
  (state.learned.get a).any (Bind.expiredAt now) = true

/-- `setDirect` takes the address. -/
def TakesDirect (addr : AddrPort) : Prop :=
  addr.isValid = true ∧ ¬ addr.addr.isUnspecified = true ∧ ¬ addr.addr.isMulticast = true ∧
    ¬ addr.port = 0

/-- The peer has the address among its learned ones. -/
def Bind.HasLearned (b : Bind) (k : NodePublic) (a : AddrPort) : Prop :=
  ∃ state, b.peers.get k = some state ∧ a ∈ state.learned

/-- The condition on a step, in the state before it. No step gives up an address that another peer
still has: `UpdatePeer` and `RemovePeer` an address of the peer whose entry names it, `setDirect` the
path that it replaces, pruning an expired learned address, unless it is learned again at once. And
no `UpdatePeer` that changes a peer's discovery key lists the peer's valid direct path among the new
endpoints. -/
def AddrStepOK (b : Bind) : BindOp → Prop
  | .updatePeer config => ∀ state, b.peers.get config.nodeKey = some state →
      state.config ≠ config.sanitized →
      (state.direct.isValid = true → state.config.discoKey ≠ config.discoKey →
        state.direct ∉ config.sanitized.endpoints) ∧
      ∀ a, b.byAddr.get a = some config.nodeKey → AddrNeeded b config.nodeKey a →
        a ∈ config.sanitized.endpoints ∨ (state.direct = a ∧ a.isValid = true ∧
          state.config.discoKey = config.discoKey)
  | .removePeer key => ∀ a, b.byAddr.get a = some key → ¬ AddrNeeded b key a
  | .setDirect node addr _ _ => TakesDirect (unmapAddrPort addr) →
      ∀ state, b.peers.get node = some state →
      state.direct.isValid = true → state.direct ≠ unmapAddrPort addr →
      state.direct ∉ state.candidates → b.byAddr.get state.direct = some node →
      ¬ AddrNeeded b node state.direct
  | .addLearnedCandidates node fresh now =>
    ∀ state, b.peers.get node = some state → ∀ a, Expired state now a → state.direct ≠ a →
      b.byAddr.get a = some node → ¬ (b.addLearnedCandidates node fresh now).1.HasLearned node a →
      ¬ AddrNeeded b node a
  | .pruneLearnedCandidates node now =>
    ∀ state, b.peers.get node = some state → ∀ a, Expired state now a → state.direct ≠ a →
      b.byAddr.get a = some node → ¬ AddrNeeded b node a
  | _ => True

theorem rebuild_wf (h : ∀ a ∈ state.learned, a.isValid = true ∧ a ∉ state.config.endpoints) :
    PeerWF (rebuildPeerCandidates state) :=
  ⟨fun a => by simp [rebuildPeerCandidates], h⟩

/-! ## Operations that store a peer back -/

section
variable {b' : Bind} {node : NodePublic} {state' : PeerState}

/-- An operation that stores the peer of `node` keeps the index sound if the entries it leaves
were there before or name `node` and an address the peer has now, and it gives up the addresses
`node` no longer has. -/
theorem addrSound_store (hs : AddrSound b) (hstate : ∀ s, b.peers.get node = some s → s = state)
    (hpeers : b'.peers = b.peers.insert node state') (hwf : PeerWF state')
    (hindex : ∀ a, (b'.byAddr.get a = some node ∧ addrRef state' a) ∨
      (b'.byAddr.get a = b.byAddr.get a ∧
        (b.byAddr.get a = some node → addrRef state a → addrRef state' a)) ∨
      b'.byAddr.get a = none) : AddrSound b' := by
  refine ⟨Sound.update (k := node) hs.sound (fun k' hk' => ?_) fun a k' ha => ?_, ?_⟩
  · rw [hpeers, get_insert_ne _ _ hk']
  · have hself : b'.peers.get node = some state' := by rw [hpeers, get_insert_self]
    rcases hindex a with ⟨hnode, hr⟩ | ⟨hsame, hkeep⟩ | hnone
    · cases hnode.symm.trans ha
      exact .inr ⟨rfl, state', hself, hr⟩
    · rw [hsame] at ha
      rcases eq_or_ne k' node with rfl | hne
      · obtain ⟨s, hk, hr⟩ := hs.sound a _ ha
        obtain rfl := hstate s hk
        exact .inr ⟨rfl, state', hself, hkeep ha hr⟩
      · exact .inl ⟨hne, ha⟩
    · rw [hnone] at ha
      cases ha
  · intro k s hk
    rw [hpeers, get_insert] at hk
    split at hk
    · cases hk
      exact hwf
    · exact hs.wf k s hk

/-- Such an operation keeps the index complete if the addresses the peer has now have entries, and
the entries it deletes are of addresses no other peer has. -/
theorem addrComplete_store (hs : AddrSound b) (hs' : AddrSound b') (hb : AddrComplete b)
    (hpeers : b'.peers = b.peers.insert node state')
    (hself : ∀ a, addrRef state' a → a ∈ b'.byAddr)
    (hother : ∀ a, a ∈ b.byAddr → a ∉ b'.byAddr → ¬ AddrNeeded b node a) : AddrComplete b' := by
  rw [addrComplete_iff hs']
  rw [addrComplete_iff hs] at hb
  refine hb.update (k := node) (fun k' hk' => ?_) (fun s a hk hr => ?_) ?_
  · rw [hpeers, get_insert_ne _ _ hk']
  · rw [hpeers, get_insert_self] at hk
    cases hk
    exact hself a hr
  · intro k' s a hk' hpeer hr ha
    by_contra hnot
    exact hother a ha hnot ⟨k', s, hk', hpeer, hr⟩

/-- Both, for an operation that stores a peer the bind has and gives up the addresses of `G`. -/
theorem index_store {G : AddrPort → Prop} (hs : AddrSound b) (hget : b.peers.get node = some state)
    (hpeers : b'.peers = b.peers.insert node state') (hwf : PeerWF state')
    (hindex : ∀ a, (b'.byAddr.get a = some node ∧ addrRef state' a) ∨
      (b'.byAddr.get a = b.byAddr.get a ∧ (addrRef state' a → addrRef state a) ∧
        (b.byAddr.get a = some node → addrRef state a → addrRef state' a)) ∨
      (b'.byAddr.get a = none ∧ ¬ addrRef state' a ∧ G a))
    (hgone : ∀ a, G a → b'.byAddr.get a = none) :
    AddrSound b' ∧ (AddrComplete b → (AddrComplete b' ↔ ∀ a, G a → ¬ AddrNeeded b node a)) := by
  have hs' : AddrSound b' := by
    refine addrSound_store hs (fun s hk => Option.some.inj (hk.symm.trans hget)) hpeers hwf
      fun a => ?_
    exact (hindex a).imp_right (Or.imp (fun h => ⟨h.1, h.2.2⟩) And.left)
  refine ⟨hs', fun hb => ⟨fun hb' a hG hneeded => ?_, fun hok =>
    addrComplete_store hs hs' hb hpeers (fun a hr => ?_) fun a ha hnot => ?_⟩⟩
  · -- the other peer is still there, and its entry is not
    obtain ⟨k', s, hk', hpeer, hr⟩ := hneeded
    have hpeer' : b'.peers.get k' = some s := by rw [hpeers, get_insert_ne _ _ hk', hpeer]
    exact not_mem_iff.mpr (hgone a hG) ((addrComplete_iff hs').mp hb' k' s a hpeer' hr)
  · rcases hindex a with ⟨hnode, -⟩ | ⟨hsame, hold, -⟩ | ⟨-, hgone, -⟩
    · exact mem_of_get hnode
    · exact (mem_congr hsame).mpr ((addrComplete_iff hs).mp hb node state a hget (hold hr))
    · exact absurd hr hgone
  · rcases hindex a with ⟨hnode, -⟩ | ⟨hsame, -⟩ | ⟨-, -, hG⟩
    · exact absurd (mem_of_get hnode) hnot
    · exact absurd ((mem_congr hsame).mpr ha) hnot
    · exact hok a hG

end

/-! ## UpdatePeer -/

section
variable {config : PeerConfig}

theorem replacedPeer_wf : PeerWF (replacedPeer state config) := by
  unfold replacedPeer
  split <;> exact ⟨fun a => by simp, fun a ha => absurd ha (not_mem_empty a)⟩

theorem addrRef_replacedPeer :
    addrRef (replacedPeer state config) a ↔ a ∈ config.endpoints ∨
      (state.direct = a ∧ a.isValid = true ∧ state.config.discoKey = config.discoKey) := by
  unfold replacedPeer addrRef
  split
  · next h =>
    refine or_congr_right ⟨?_, fun hk => absurd hk.2.2 h.2⟩
    rintro ⟨rfl, hv⟩
    cases hv
  · next h =>
    refine or_congr_right ⟨?_, fun hk => ⟨hk.1, hk.2.1⟩⟩
    rintro ⟨rfl, hv⟩
    exact ⟨rfl, hv, not_not.mp fun hne => h ⟨hv, hne⟩⟩

/-- The entry of an address after a peer is replaced: new endpoints and a kept direct path name the
peer, the other addresses it had are given up, and a direct path that is dropped is given up even if
it is a new endpoint. -/
theorem get_byAddr_replacePeer (a : AddrPort) :
    (b.replacePeer state config).byAddr.get a =
      if state.direct = a ∧ a.isValid = true ∧ state.config.discoKey = config.discoKey then
        some config.nodeKey
      else if a ∈ config.endpoints then
        if state.direct = a ∧ a.isValid = true then none else some config.nodeKey
      else if (a ∈ state.candidates ∨ (state.direct = a ∧ a.isValid = true)) ∧
          b.byAddr.get a = some config.nodeKey then none
      else b.byAddr.get a := by
  have hclaim : (claim (release b.byAddr config.nodeKey state.candidates) config.nodeKey
      config.endpoints).get a =
      if a ∈ config.endpoints then some config.nodeKey
      else if a ∈ state.candidates ∧ b.byAddr.get a = some config.nodeKey then none
      else b.byAddr.get a := by
    rw [get_claim, get_release]
  unfold Bind.replacePeer
  dsimp only
  split
  · next h =>
    rw [get_releaseOne, hclaim]
    rcases eq_or_ne state.direct a with rfl | hne
    · simp only [h.1, h.2, and_self, and_false, if_false, true_and, if_true]
      by_cases hmem : state.direct ∈ config.endpoints
      · simp [hmem]
      · by_cases howner : b.byAddr.get state.direct = some config.nodeKey
        · by_cases hc : state.direct ∈ state.candidates <;> simp [hmem, howner, hc]
        · simp [hmem, howner]
    · simp [hne, hne.symm]
  · next h =>
    split
    · next hv =>
      rw [get_insert, hclaim]
      have hsame : state.config.discoKey = config.discoKey := not_not.mp fun hne => h ⟨hv, hne⟩
      rcases eq_or_ne state.direct a with rfl | hne
      · simp [hv, hsame]
      · simp [hne, hne.symm]
    · next hv =>
      have hnot : ¬ (state.direct = a ∧ a.isValid = true) := by
        rintro ⟨rfl, ha⟩
        exact hv ha
      have hnot' : ¬ (state.direct = a ∧ a.isValid = true ∧
          state.config.discoKey = config.discoKey) := fun hk => hnot ⟨hk.1, hk.2.1⟩
      simp only [hclaim, hnot, hnot', if_false, or_false]

variable (hstate : ∀ s, b.peers.get config.nodeKey = some s → s = state) (hs : AddrSound b)
include hstate hs

theorem addrSound_replacePeer : AddrSound (b.replacePeer state config) := by
  refine addrSound_store hs hstate (replacePeer_peers b state config) replacedPeer_wf fun a => ?_
  rw [get_byAddr_replacePeer]
  split
  · next hkept => exact .inl ⟨rfl, addrRef_replacedPeer.mpr (.inr hkept)⟩
  · split
    · next hnew =>
      split
      · exact .inr (.inr rfl)
      · exact .inl ⟨rfl, addrRef_replacedPeer.mpr (.inl hnew)⟩
    · split
      · exact .inr (.inr rfl)
      · next hgone => exact .inr (.inl ⟨rfl, fun howner hr => absurd ⟨hr, howner⟩ hgone⟩)

/-- Replacing a peer keeps the index complete exactly when a direct path that is dropped is not a
new endpoint, and no address the peer gives up is one another peer has. -/
theorem addrComplete_replacePeer (hb : AddrComplete b) :
    AddrComplete (b.replacePeer state config) ↔
      (state.direct.isValid = true → state.config.discoKey ≠ config.discoKey →
        state.direct ∉ config.endpoints) ∧
      ∀ a, b.byAddr.get a = some config.nodeKey → AddrNeeded b config.nodeKey a →
        addrRef (replacedPeer state config) a := by
  have hpeer' {k' : NodePublic} (hk' : k' ≠ config.nodeKey) :
      (b.replacePeer state config).peers.get k' = b.peers.get k' := by
    rw [replacePeer_peers, get_insert_ne _ _ hk']
  constructor
  · intro h
    rw [addrComplete_iff (addrSound_replacePeer hstate hs)] at h
    refine ⟨fun hv hne hmem => ?_, fun a howner hneeded => ?_⟩
    · have hself := h config.nodeKey _ state.direct
        (by rw [replacePeer_peers, get_insert_self])
        (addrRef_replacedPeer.mpr (.inl hmem))
      rw [mem_iff, get_byAddr_replacePeer, if_neg fun hk => hne hk.2.2, if_pos hmem,
        if_pos ⟨rfl, hv⟩] at hself
      obtain ⟨_, hself⟩ := hself
      cases hself
    · obtain ⟨k', state', hk', hpeer, hr⟩ := hneeded
      have hmem := h k' state' a (by rw [hpeer' hk', hpeer]) hr
      rw [mem_iff, get_byAddr_replacePeer] at hmem
      refine addrRef_replacedPeer.mpr ?_
      by_contra hgone
      obtain ⟨hend, hkept⟩ := not_or.mp hgone
      obtain ⟨s, hk, href⟩ := hs.sound a _ howner
      obtain rfl := hstate s hk
      rw [if_neg hkept, if_neg hend, if_pos ⟨href, howner⟩] at hmem
      obtain ⟨_, hmem⟩ := hmem
      cases hmem
  · rintro ⟨hdropped, hneeded⟩
    have hclaimed {a : AddrPort} (hr : addrRef (replacedPeer state config) a) :
        a ∈ (b.replacePeer state config).byAddr := by
      rw [mem_iff, get_byAddr_replacePeer]
      rcases addrRef_replacedPeer.mp hr with hmem | hkept
      · split
        · exact ⟨_, rfl⟩
        · next hnot =>
          rw [if_neg]
          · exact ⟨_, rfl⟩
          · rintro ⟨rfl, hv⟩
            exact hdropped hv (fun hsame => hnot ⟨rfl, hv, hsame⟩) hmem
      · rw [if_pos hkept]
        exact ⟨_, rfl⟩
    refine addrComplete_store hs (addrSound_replacePeer hstate hs) hb
      (replacePeer_peers b state config) (fun a hr => hclaimed hr) fun a ha hnot hother => ?_
    obtain ⟨owner, howner⟩ := mem_iff.mp ha
    have hself : ¬ addrRef (replacedPeer state config) a := fun hr => hnot (hclaimed hr)
    have hne : owner ≠ config.nodeKey := by
      rintro rfl
      exact hself (hneeded a howner hother)
    obtain ⟨hend, hkept⟩ := not_or.mp (mt addrRef_replacedPeer.mpr hself)
    rw [not_mem_iff, get_byAddr_replacePeer, if_neg hkept, if_neg hend,
      if_neg fun hgone => hne (Option.some.inj (howner.symm.trans hgone.2)), howner] at hnot
    cases hnot

end

/-! ## RemovePeer -/

section
variable {k : NodePublic}

theorem get_byAddr_removePeer (h : b.peers.get k = some state) (a : AddrPort) :
    (b.removePeer k).byAddr.get a =
      if addrRef state a ∧ b.byAddr.get a = some k then none else b.byAddr.get a := by
  have hrelease := get_release b.byAddr k state.candidates a
  unfold Bind.removePeer addrRef
  rw [h]
  dsimp only
  split
  · next hv =>
    rw [get_releaseOne, hrelease]
    rcases eq_or_ne a state.direct with rfl | hne
    · by_cases howner : b.byAddr.get state.direct = some k
      · by_cases hc : state.direct ∈ state.candidates <;> simp [howner, hc, hv]
      · simp [howner]
    · simp [hne, hne.symm]
  · next hv =>
    have hnot : ¬ (state.direct = a ∧ a.isValid = true) := by
      rintro ⟨rfl, ha⟩
      exact hv ha
    rw [hrelease]
    simp only [hnot, or_false]

theorem removePeer_byAddr_of_none (h : b.peers.get k = none) :
    (b.removePeer k).byAddr = b.byAddr := by
  unfold Bind.removePeer
  rw [h]

theorem addrSound_removePeer (hs : AddrSound b) : AddrSound (b.removePeer k) := by
  refine ⟨Sound.update (k := k) hs.sound (fun k' hk' => ?_) fun a k' ha => ?_, ?_⟩
  · rw [removePeer_peers, get_erase_ne _ hk']
  · refine .inl ?_
    cases hget : b.peers.get k with
    | none =>
      rw [removePeer_byAddr_of_none hget] at ha
      refine ⟨?_, ha⟩
      rintro rfl
      obtain ⟨s, hk, -⟩ := hs.sound a _ ha
      rw [hget] at hk
      cases hk
    | some state =>
      rw [get_byAddr_removePeer hget] at ha
      split at ha
      · cases ha
      · next hgone =>
        refine ⟨?_, ha⟩
        rintro rfl
        obtain ⟨s, hk, hr⟩ := hs.sound a _ ha
        cases hget.symm.trans hk
        exact hgone ⟨hr, ha⟩
  · intro k' s hk
    rw [removePeer_peers, get_erase] at hk
    split at hk
    · cases hk
    · exact hs.wf k' s hk

/-- Removing a peer keeps the index complete exactly if no other peer has an address whose entry
names the removed one. -/
theorem addrComplete_removePeer (hs : AddrSound b) (hb : AddrComplete b) :
    AddrComplete (b.removePeer k) ↔ ∀ a, b.byAddr.get a = some k → ¬ AddrNeeded b k a := by
  rw [addrComplete_iff (addrSound_removePeer hs)]
  rw [addrComplete_iff hs] at hb
  refine ⟨fun h a howner hneeded => ?_, fun hok => ?_⟩
  · obtain ⟨k', s, hk', hpeer, hr⟩ := hneeded
    obtain ⟨state, hget, href⟩ := hs.sound a k howner
    have hmem := h k' s a (by rw [removePeer_peers, get_erase_ne _ hk', hpeer]) hr
    rw [mem_iff, get_byAddr_removePeer hget, if_pos ⟨href, howner⟩] at hmem
    obtain ⟨_, hnone⟩ := hmem
    cases hnone
  refine hb.update (k := k) (fun k' hk' => ?_) (fun s a hk _ => ?_) ?_
  · rw [removePeer_peers, get_erase_ne _ hk']
  · rw [removePeer_peers, get_erase_self] at hk
    cases hk
  · intro k' s a hk' hpeer hr ha
    obtain ⟨owner, howner⟩ := mem_iff.mp ha
    have hne : b.byAddr.get a ≠ some k := fun h => hok a h ⟨k', s, hk', hpeer, hr⟩
    rw [mem_iff]
    cases hget : b.peers.get k with
    | none => exact ⟨owner, by rw [removePeer_byAddr_of_none hget, howner]⟩
    | some state =>
      exact ⟨owner, by rw [get_byAddr_removePeer hget, if_neg fun h => hne h.2, howner]⟩

end

/-! ## setDirect -/

/-- `setDirect` ignores the call, or stores the peer with the new path. -/
theorem setDirect_cases (b : Bind) (node : NodePublic) (addr : AddrPort) (latency : Duration)
    (now : Time) :
    ((b.setDirect node addr latency now).1 = b ∧
      (TakesDirect (unmapAddrPort addr) → b.peers.get node = none)) ∨
    ∃ state, b.peers.get node = some state ∧ TakesDirect (unmapAddrPort addr) ∧
      (b.setDirect node addr latency now).1.peers = b.peers.insert node
        { state with direct := unmapAddrPort addr, latency, directAt := now } ∧
      ∀ a, (b.setDirect node addr latency now).1.byAddr.get a =
        if a = unmapAddrPort addr then some node
        else if state.direct = a ∧ a.isValid = true ∧ a ∉ state.candidates ∧
          b.byAddr.get a = some node then none
        else b.byAddr.get a := by
  unfold Bind.setDirect
  dsimp only
  split
  · next hrefused =>
    refine .inl ⟨rfl, fun htakes => ?_⟩
    obtain ⟨hv, hu, hm, hp⟩ := htakes
    rcases hrefused with h | h | h | h
    · exact absurd hv h
    · exact absurd h hu
    · exact absurd h hm
    · exact absurd h hp
  · next htakes =>
    simp only [not_or, not_not] at htakes
    cases hget : b.peers.get node with
    | none => exact .inl ⟨rfl, fun _ => rfl⟩
    | some state =>
      refine .inr ⟨state, rfl, htakes, rfl, fun a => ?_⟩
      rw [get_insert]
      refine if_ctx_congr Iff.rfl (fun _ => rfl) fun hne => ?_
      split
      · next h =>
        rw [get_releaseOne]
        refine if_congr ⟨?_, ?_⟩ rfl rfl
        · rintro ⟨rfl, howner⟩
          exact ⟨rfl, h.1, h.2.2, howner⟩
        · rintro ⟨rfl, -, -, howner⟩
          exact ⟨rfl, howner⟩
      · next h =>
        rw [if_neg]
        rintro ⟨rfl, hv', hc, -⟩
        exact h ⟨hv', hne, hc⟩

/-- `setDirect` gives up the path that it replaces. -/
theorem index_setDirect (hs : AddrSound b) (node : NodePublic) (addr : AddrPort)
    (latency : Duration) (now : Time) : AddrSound (b.setDirect node addr latency now).1 ∧
      (AddrComplete b → (AddrComplete (b.setDirect node addr latency now).1 ↔
        AddrStepOK b (.setDirect node addr latency now))) := by
  rcases setDirect_cases b node addr latency now with
    ⟨heq, hnone⟩ | ⟨state, hget, htakes, hpeers, hindex⟩
  · rw [heq]
    refine ⟨hs, fun hb => iff_of_true hb fun htakes state hget => ?_⟩
    rw [hnone htakes] at hget
    cases hget
  have hwf := hs.wf node state hget
  refine And.imp_right (fun h hb => (h hb).trans ?_) (index_store
    (G := fun a => a ≠ unmapAddrPort addr ∧ state.direct = a ∧ a.isValid = true ∧
      a ∉ state.candidates ∧ b.byAddr.get a = some node)
    hs hget hpeers ⟨hwf.mem_candidates, hwf.learned⟩ (fun a => ?_) fun a hG => ?_)
  · rw [hindex]
    split
    · next ha => exact .inl ⟨rfl, .inr ⟨ha.symm, ha ▸ htakes.1⟩⟩
    next hne =>
    have hold (hr : addrRef { state with direct := unmapAddrPort addr, latency, directAt := now } a) :
        a ∈ state.candidates := hr.resolve_right fun hd => hne hd.1.symm
    split
    · next hgone => exact .inr (.inr ⟨rfl, fun hr => hgone.2.2.1 (hold hr), hne, hgone⟩)
    · next hkept =>
      refine .inr (.inl ⟨rfl, fun hr => .inl (hold hr), fun howner hr => .inl ?_⟩)
      rcases hr with hc | ⟨hd, ha⟩
      · exact hc
      · exact not_not.mp fun hc => hkept ⟨hd, ha, hc, howner⟩
  · rw [hindex, if_neg hG.1, if_pos hG.2]
  · refine ⟨fun h _ s hs hv hne hc hnode => ?_, ?_⟩
    · cases hget.symm.trans hs
      exact h _ ⟨hne, rfl, hv, hc, hnode⟩
    · rintro hok a ⟨hne, rfl, hv, hc, hnode⟩
      exact hok htakes state hget hv hne hc hnode

/-! ## Learned candidates -/

/-- The peer as pruning leaves it. -/
def prunedPeer (state : PeerState) (now : Time) : PeerState :=
  rebuildPeerCandidates
    { state with learned := state.learned.filter fun _ observed => !Bind.expiredAt now observed }

theorem Expired.mem (h : Expired state now a) : a ∈ state.learned := by
  obtain ⟨t, ht, -⟩ := (Option.any_eq_true _ _).mp h
  exact mem_of_get ht

theorem mem_learned_prunedPeer :
    a ∈ (prunedPeer state now).learned ↔ a ∈ state.learned ∧ ¬ Expired state now a := by
  rw [prunedPeer, rebuildPeerCandidates, mem_filter, mem_iff, Expired]
  cases state.learned.get a <;> simp

theorem prunedPeer_wf (now : Time) (h : PeerWF state) : PeerWF (prunedPeer state now) :=
  rebuild_wf fun a ha => h.learned a (mem_learned_prunedPeer.mp ha).1

/-- What a peer refers to after pruning. -/
theorem addrRef_prunedPeer (h : PeerWF state) :
    addrRef (prunedPeer state now) a ↔ addrRef state a ∧
      (Expired state now a → state.direct = a ∧ a.isValid = true) := by
  have hwf := prunedPeer_wf now h
  have hend : (prunedPeer state now).config.endpoints = state.config.endpoints := rfl
  have hdirect : (prunedPeer state now).direct = state.direct := rfl
  unfold addrRef
  rw [hwf.mem_candidates, mem_learned_prunedPeer, hend, hdirect, h.mem_candidates]
  constructor
  · rintro ((he | ⟨hl, hex⟩) | hd)
    · exact ⟨.inl (.inl he), fun hex => absurd he (h.learned a hex.mem).2⟩
    · exact ⟨.inl (.inr hl), fun h => absurd h hex⟩
    · exact ⟨.inr hd, fun _ => hd⟩
  · rintro ⟨(he | hl) | hd, hex⟩
    · exact .inl (.inl he)
    · by_cases h : Expired state now a
      · exact .inr (hex h)
      · exact .inl (.inr ⟨hl, h⟩)
    · exact .inr hd

/-- Pruning leaves the bind alone, or drops expired addresses of the peer and their entries. -/
theorem prune_cases (b : Bind) (node : NodePublic) (now : Time) :
    ((b.pruneLearnedCandidates node now) = (b, false) ∧
      ∀ state, b.peers.get node = some state → ∀ a, ¬ Expired state now a) ∨
    ∃ state, b.peers.get node = some state ∧
      (b.pruneLearnedCandidates node now).2 = true ∧
      (b.pruneLearnedCandidates node now).1.peers = b.peers.insert node (prunedPeer state now) ∧
      ∀ a, (Expired state now a ∧ b.byAddr.get a = some node ∧ state.direct ≠ a ∧
          (b.pruneLearnedCandidates node now).1.byAddr.get a = none) ∨
        (¬ (Expired state now a ∧ b.byAddr.get a = some node ∧ state.direct ≠ a) ∧
          (b.pruneLearnedCandidates node now).1.byAddr.get a = b.byAddr.get a) := by
  unfold Bind.pruneLearnedCandidates
  cases hget : b.peers.get node with
  | none => exact .inl ⟨rfl, nofun⟩
  | some state =>
    dsimp only
    split
    · refine .inr ⟨state, rfl, rfl, rfl, fun a => ?_⟩
      rw [get_filter]
      unfold Expired
      cases hentry : b.byAddr.get a with
      | none => simp
      | some k =>
        by_cases hk : k = node
        · by_cases hd : state.direct = a
          · simp [hd]
          · cases hex : (state.learned.get a).any (Bind.expiredAt now) <;> simp [hk, hd]
        · simp [hk]
    · next hnone =>
      refine .inl ⟨rfl, fun s hs a hex => hnone ?_⟩
      cases hs
      obtain ⟨t, ht, hexp⟩ := (Option.any_eq_true _ _).mp hex
      exact any_eq_true.mpr ⟨a, t, ht, hexp⟩

/-- Pruning gives up the expired addresses. -/
theorem index_prune (hs : AddrSound b) (node : NodePublic) (now : Time) :
    AddrSound (b.pruneLearnedCandidates node now).1 ∧
      (AddrComplete b → (AddrComplete (b.pruneLearnedCandidates node now).1 ↔
        AddrStepOK b (.pruneLearnedCandidates node now))) := by
  rcases prune_cases b node now with ⟨heq, hnone⟩ | ⟨state, hget, -, hpeers, hindex⟩
  · rw [heq]
    exact ⟨hs, fun hb => iff_of_true hb fun state hget a hex => absurd hex (hnone state hget a)⟩
  have hwf := hs.wf node state hget
  refine And.imp_right (fun h hb => (h hb).trans ?_) (index_store
    (G := fun a => Expired state now a ∧ b.byAddr.get a = some node ∧ state.direct ≠ a)
    hs hget hpeers (prunedPeer_wf now hwf) (fun a => ?_) fun a hG => ?_)
  · rw [addrRef_prunedPeer hwf]
    rcases hindex a with ⟨hex, howner, hd, hnone⟩ | ⟨hkeep, hsame⟩
    · exact .inr (.inr ⟨hnone, fun hr => hd (hr.2 hex).1, hex, howner, hd⟩)
    · refine .inr (.inl ⟨hsame, And.left, fun howner hr => ⟨hr, fun hex => ?_⟩⟩)
      have hd : state.direct = a := not_not.mp fun hd => hkeep ⟨hex, howner, hd⟩
      exact ⟨hd, (hwf.learned a hex.mem).1⟩
  · rcases hindex a with ⟨-, -, -, hnone⟩ | ⟨hkeep, -⟩
    · exact hnone
    · exact absurd hG hkeep
  · refine ⟨fun h s hs a hex hd hnode => ?_, ?_⟩
    · cases hget.symm.trans hs
      exact h a ⟨hex, hnode, hd⟩
    · rintro hok a ⟨hex, hnode, hd⟩
      exact hok state hget a hex hd hnode

/-- What pruning leaves of a peer and of the index, changed or not. -/
theorem prune_store (hs : AddrSound b) {node : NodePublic} (hget : b.peers.get node = some state)
    (now : Time) : ∃ state₁, (b.pruneLearnedCandidates node now).1.peers.get node = some state₁ ∧
      (∀ s, (b.pruneLearnedCandidates node now).1.peers.insert node s = b.peers.insert node s) ∧
      state₁.config = state.config ∧ state₁.direct = state.direct ∧
      (∀ a, addrRef state₁ a ↔ addrRef state a ∧
        (Expired state now a → state.direct = a ∧ a.isValid = true)) ∧
      ∀ a, (Expired state now a ∧ b.byAddr.get a = some node ∧ state.direct ≠ a ∧
          (b.pruneLearnedCandidates node now).1.byAddr.get a = none) ∨
        (¬ (Expired state now a ∧ b.byAddr.get a = some node ∧ state.direct ≠ a) ∧
          (b.pruneLearnedCandidates node now).1.byAddr.get a = b.byAddr.get a) := by
  rcases prune_cases b node now with ⟨heq, hnone⟩ | ⟨s, hs₁, -, hpeers, hindex⟩
  · have hnone := hnone state hget
    rw [heq]
    exact ⟨state, hget, fun _ => rfl, rfl, rfl,
      fun a => ⟨fun hr => ⟨hr, fun hex => absurd hex (hnone a)⟩, And.left⟩,
      fun a => .inr ⟨fun h => hnone a h.1, rfl⟩⟩
  · cases hget.symm.trans hs₁
    refine ⟨prunedPeer state now, by rw [hpeers, get_insert_self], fun s => ?_, rfl, rfl,
      fun a => addrRef_prunedPeer (hs.wf node state hget), hindex⟩
    rw [hpeers, insert_insert]

/-- What the loop of `addLearnedCandidatesLocked` has done: addresses entered in the index are
learned, none is lost, and without the change flag the learned addresses are the same. -/
structure LearnSpec (node : NodePublic) (state : PeerState) (byAddr : FinMap AddrPort NodePublic)
    (changed : Bool) (r : PeerState × FinMap AddrPort NodePublic × Bool) : Prop where
  config : r.1.config = state.config
  candidates : r.1.candidates = state.candidates
  direct : r.1.direct = state.direct
  index : ∀ a, (r.2.1.get a = some node ∧ a ∈ r.1.learned) ∨ r.2.1.get a = byAddr.get a
  old : ∀ a ∈ state.learned, a ∈ r.1.learned
  new : ∀ a ∈ r.1.learned, a ∈ state.learned ∨
    (r.2.1.get a = some node ∧ a.isValid = true ∧ a ∉ state.config.endpoints ∧ r.2.2 = true)
  flag : changed = true → r.2.2 = true

theorem learn_spec (node : NodePublic) (now : Time) (fresh : List AddrPort) (state : PeerState)
    (byAddr : FinMap AddrPort NodePublic) (changed : Bool) :
    LearnSpec node state byAddr changed
      (fresh.foldl (Bind.learnOne node now) (state, byAddr, changed)) := by
  induction fresh using List.reverseRecOn with
  | nil => exact ⟨rfl, rfl, rfl, fun a => .inr rfl, fun a ha => ha, fun a ha => .inl ha, id⟩
  | append_singleton fresh endpoint ih =>
    rw [List.foldl_append, List.foldl_cons, List.foldl_nil]
    generalize fresh.foldl (Bind.learnOne node now) (state, byAddr, changed) = acc at ih ⊢
    obtain ⟨state₁, byAddr₁, changed₁⟩ := acc
    unfold Bind.learnOne
    dsimp only
    split
    · exact ih
    · next hok =>
      obtain ⟨hvalid, hend⟩ := not_or.mp hok
      have hvalid := not_not.mp hvalid
      rw [ih.config] at hend
      have hindex (a : AddrPort) :
          ((byAddr₁.insert (unmapAddrPort endpoint) node).get a = some node ∧
            a ∈ state₁.learned.insert (unmapAddrPort endpoint) now) ∨
          (byAddr₁.insert (unmapAddrPort endpoint) node).get a = byAddr.get a := by
        rw [get_insert]
        split
        · next ha => exact .inl ⟨rfl, mem_insert.mpr (.inl ha)⟩
        · rcases ih.index a with ⟨h1, h2⟩ | h1
          · exact .inl ⟨h1, mem_insert.mpr (.inr h2)⟩
          · exact .inr h1
      -- a fresh address sets the flag
      have hlearn {changed' : Bool} (hflag : changed₁ = true → changed' = true)
          (hfresh : unmapAddrPort endpoint ∈ state₁.learned ∨ changed' = true) :
          LearnSpec node state byAddr changed
            ({ state₁ with learned := state₁.learned.insert (unmapAddrPort endpoint) now },
              byAddr₁.insert (unmapAddrPort endpoint) node, changed') := by
        refine ⟨ih.config, ih.candidates, ih.direct, hindex, fun a ha => ?_, fun a ha => ?_,
          fun h => hflag (ih.flag h)⟩
        · exact mem_insert.mpr (.inr (ih.old a ha))
        · rw [get_insert]
          by_cases hmem : a ∈ state₁.learned
          · refine (ih.new a hmem).imp_right fun ⟨hget, hv, hnew, hset⟩ => ?_
            exact ⟨by rw [hget, ite_self], hv, hnew, hflag hset⟩
          · obtain rfl := (mem_insert.mp ha).resolve_right hmem
            exact .inr ⟨if_pos rfl, hvalid, hend, hfresh.resolve_left hmem⟩
      split
      · next hmem => exact hlearn id (.inl hmem)
      · split
        · exact ih
        · exact hlearn (fun _ => rfl) (.inr rfl)

/-- `addLearnedCandidatesLocked` after its prune, as an operation that stores the peer back. -/
theorem addLearned_cases (b : Bind) (node : NodePublic) (fresh : List AddrPort) (now : Time)
    {b₁ : Bind} (hb₁ : (b.pruneLearnedCandidates node now).1 = b₁)
    (hwf : ∀ state, b₁.peers.get node = some state → PeerWF state) :
    (b₁.peers.get node = none ∧ (b.addLearnedCandidates node fresh now).1 = b₁) ∨
    ∃ state state', b₁.peers.get node = some state ∧ PeerWF state' ∧
      (b.addLearnedCandidates node fresh now).1.peers = b₁.peers.insert node state' ∧
      state'.config = state.config ∧ state'.direct = state.direct ∧
      (∀ a, addrRef state a → addrRef state' a) ∧
      ∀ a, ((b.addLearnedCandidates node fresh now).1.byAddr.get a = some node ∧
          addrRef state' a) ∨
        ((b.addLearnedCandidates node fresh now).1.byAddr.get a = b₁.byAddr.get a ∧
          (addrRef state' a → addrRef state a)) := by
  unfold Bind.addLearnedCandidates
  dsimp only
  rw [hb₁]
  cases hget : b₁.peers.get node with
  | none => exact .inl ⟨rfl, rfl⟩
  | some state =>
    have hwf := hwf state hget
    have hspec := learn_spec node now fresh state b₁.byAddr (b.pruneLearnedCandidates node now).2
    dsimp only
    generalize fresh.foldl (Bind.learnOne node now)
      (state, b₁.byAddr, (b.pruneLearnedCandidates node now).2) = r at hspec ⊢
    have hlearned : ∀ a ∈ r.1.learned, a.isValid = true ∧ a ∉ r.1.config.endpoints := by
      intro a ha
      rw [hspec.config]
      rcases hspec.new a ha with h | ⟨-, h1, h2, -⟩
      · exact hwf.learned a h
      · exact ⟨h1, h2⟩
    have hwf' : PeerWF (if r.2.2 = true then rebuildPeerCandidates r.1 else r.1) := by
      split
      · exact rebuild_wf hlearned
      · next hsame =>
        refine ⟨fun a => ?_, hlearned⟩
        rw [hspec.candidates, hspec.config, hwf.mem_candidates]
        refine or_congr_right ⟨hspec.old a, fun ha => ?_⟩
        rcases hspec.new a ha with h | ⟨-, -, -, h⟩
        · exact h
        · exact absurd h hsame
    have href (a : AddrPort) :
        addrRef (if r.2.2 = true then rebuildPeerCandidates r.1 else r.1) a ↔
          (a ∈ state.config.endpoints ∨ a ∈ r.1.learned) ∨
            (state.direct = a ∧ a.isValid = true) := by
      unfold addrRef
      rw [hwf'.mem_candidates]
      split <;> simp only [rebuildPeerCandidates, hspec.config, hspec.direct]
    have hsame : (if r.2.2 = true then rebuildPeerCandidates r.1 else r.1).config = state.config ∧
        (if r.2.2 = true then rebuildPeerCandidates r.1 else r.1).direct = state.direct := by
      split <;> exact ⟨hspec.config, hspec.direct⟩
    refine .inr ⟨state, _, rfl, hwf', rfl, hsame.1, hsame.2, fun a ha => (href a).mpr ?_,
      fun a => ?_⟩
    · refine ha.imp_left fun hc => ?_
      exact ((hwf.mem_candidates a).mp hc).imp_right (hspec.old a)
    · rcases hspec.index a with ⟨h1, h2⟩ | hsame
      · exact .inl ⟨h1, (href a).mpr (.inl (.inr h2))⟩
      · by_cases hr : addrRef state a
        · exact .inr ⟨hsame, fun _ => hr⟩
        · by_cases hl : a ∈ r.1.learned
          · rcases hspec.new a hl with h | ⟨h1, -⟩
            · exact absurd (.inl ((hwf.mem_candidates a).mpr (.inr h))) hr
            · exact .inl ⟨h1, (href a).mpr (.inl (.inr hl))⟩
          · refine .inr ⟨hsame, fun hr' => ?_⟩
            rcases (href a).mp hr' with (he | h) | hd
            · exact .inl ((hwf.mem_candidates a).mpr (.inl he))
            · exact absurd h hl
            · exact .inr hd

/-- Learning gives up the expired addresses that it does not learn again. -/
theorem index_addLearned (hs : AddrSound b) (node : NodePublic) (fresh : List AddrPort) (now : Time) :
    AddrSound (b.addLearnedCandidates node fresh now).1 ∧
      (AddrComplete b → (AddrComplete (b.addLearnedCandidates node fresh now).1 ↔
        AddrStepOK b (.addLearnedCandidates node fresh now))) := by
  obtain ⟨hs₁, -⟩ := index_prune hs node now
  cases hget : b.peers.get node with
  | none =>
    have hsame : (b.addLearnedCandidates node fresh now).1 = b := by
      simp [Bind.addLearnedCandidates, Bind.pruneLearnedCandidates, hget]
    rw [hsame]
    refine ⟨hs, fun hb => iff_of_true hb fun state hstate => ?_⟩
    rw [hget] at hstate
    cases hstate
  | some state =>
    obtain ⟨state₁, hget₁, hinsert, hconfig₁, hdirect₁, href, hpruned⟩ := prune_store hs hget now
    rcases addLearned_cases b node fresh now rfl (hs₁.wf node) with
      ⟨hnone, -⟩ | ⟨s, state', hs₁', hwf, hpeers, hconfig, hdirect, hgrow, hindex⟩
    · rw [hnone] at hget₁
      cases hget₁
    cases hget₁.symm.trans hs₁'
    rw [hinsert] at hpeers
    have hlearned {a : AddrPort} :
        (b.addLearnedCandidates node fresh now).1.HasLearned node a ↔ a ∈ state'.learned := by
      simp [Bind.HasLearned, hpeers]
    refine And.imp_right (fun h hb => (h hb).trans ?_) (index_store
      (G := fun a => Expired state now a ∧ b.byAddr.get a = some node ∧ state.direct ≠ a ∧
        a ∉ state'.learned)
      hs hget hpeers hwf (fun a => ?_) fun a hG => ?_)
    · refine (hindex a).imp_right fun hkept => ?_
      obtain ⟨hsame, hold⟩ := hkept
      rcases hpruned a with ⟨hex, howner, hd, hnone⟩ | ⟨hkeep, hsame₁⟩
      · have hnot : ¬ addrRef state' a := fun hr => hd (((href a).mp (hold hr)).2 hex).1
        exact .inr ⟨hsame.trans hnone, hnot, hex, howner, hd,
          fun hl => hnot (.inl ((hwf.mem_candidates a).mpr (.inr hl)))⟩
      · refine .inl ⟨hsame.trans hsame₁, fun hr => ((href a).mp (hold hr)).1, fun howner hr => ?_⟩
        refine hgrow a ((href a).mpr ⟨hr, fun hex => ?_⟩)
        have hd : state.direct = a := not_not.mp fun hd => hkeep ⟨hex, howner, hd⟩
        exact ⟨hd, ((hs.wf node state hget).learned a hex.mem).1⟩
    · obtain ⟨hex, howner, hd, hnot⟩ := hG
      rcases hindex a with ⟨-, hr⟩ | ⟨hsame, -⟩
      · -- a learned address is none of the configured endpoints
        rcases hr with hc | ⟨hdirect', -⟩
        · rcases (hwf.mem_candidates a).mp hc with he | hl
          · rw [hconfig, hconfig₁] at he
            exact absurd he ((hs.wf node state hget).learned a hex.mem).2
          · exact absurd hl hnot
        · exact absurd ((hdirect.trans hdirect₁).symm.trans hdirect') hd
      · rcases hpruned a with ⟨-, -, -, hnone⟩ | ⟨hkeep, -⟩
        · exact hsame.trans hnone
        · exact absurd ⟨hex, howner, hd⟩ hkeep
    · refine ⟨fun h s hs a hex hd hnode hnot => ?_, ?_⟩
      · cases hget.symm.trans hs
        exact h a ⟨hex, hnode, hd, mt hlearned.mpr hnot⟩
      · rintro hok a ⟨hex, hnode, hd, hnot⟩
        exact hok state hget a hex hd hnode (mt hlearned.mp hnot)

/-! ## Open -/

/-- `Open`'s loop after the peers of `done`: the entries name exactly their candidates. -/
structure Reopened (b : Bind) (done : List NodePublic) : Prop where
  wf : ∀ k state, b.peers.get k = some state → PeerWF state
  sound : ∀ a k, b.byAddr.get a = some k →
    k ∈ done ∧ ∃ state, b.peers.get k = some state ∧ a ∈ state.candidates
  complete : ∀ k ∈ done, ∀ state, b.peers.get k = some state →
    state.direct = .zero ∧ ∀ a ∈ state.candidates, a ∈ b.byAddr

/-- Pruning a peer whose turn has not come deletes no entry: none names it. -/
theorem reopened_prune (h : Reopened b done) (now : Time) {key : NodePublic} (hkey : key ∉ done) :
    Reopened (b.pruneLearnedCandidates key now).1 done := by
  rcases prune_cases b key now with ⟨heq, -⟩ | ⟨state, hget, -, hpeers, hindex⟩
  · rwa [heq]
  · have hsame (a : AddrPort) :
        (b.pruneLearnedCandidates key now).1.byAddr.get a = b.byAddr.get a := by
      rcases hindex a with ⟨-, howner, -⟩ | ⟨-, hsame⟩
      · exact absurd (h.sound a key howner).1 hkey
      · exact hsame
    have hother {k : NodePublic} (hk : k ∈ done) :
        (b.pruneLearnedCandidates key now).1.peers.get k = b.peers.get k := by
      rw [hpeers, get_insert_ne]
      rintro rfl
      exact hkey hk
    refine ⟨fun k s hk => ?_, fun a k ha => ?_, fun k hk s hs => ?_⟩
    · rw [hpeers, get_insert] at hk
      split at hk
      · cases hk
        exact prunedPeer_wf now (h.wf key state hget)
      · exact h.wf k s hk
    · rw [hsame] at ha
      obtain ⟨hk, hstate⟩ := h.sound a k ha
      exact ⟨hk, by rwa [hother hk]⟩
    · rw [hother hk] at hs
      obtain ⟨hd, hc⟩ := h.complete k hk s hs
      exact ⟨hd, fun a ha => (mem_congr (hsame a)).mpr (hc a ha)⟩

theorem reopened_reopenPeer (h : Reopened b done) (now : Time) {key : NodePublic}
    (hkey : key ∉ done) : Reopened (b.reopenPeer now key) (key :: done) := by
  have h₁ := reopened_prune h now hkey
  unfold Bind.reopenPeer
  dsimp only
  generalize (b.pruneLearnedCandidates key now).1 = b₁ at h₁ ⊢
  cases hget : b₁.peers.get key with
  | none =>
    refine ⟨h₁.wf, fun a k ha => ?_, fun k hk s hs => ?_⟩
    · exact ⟨List.mem_cons_of_mem _ (h₁.sound a k ha).1, (h₁.sound a k ha).2⟩
    · rcases List.mem_cons.mp hk with rfl | hk
      · rw [hget] at hs
        cases hs
      · exact h₁.complete k hk s hs
  | some state =>
    have hwf := h₁.wf key state hget
    refine ⟨fun k s hk => ?_, fun a k ha => ?_, fun k hk s hs => ?_⟩
    · rw [get_insert] at hk
      split at hk
      · cases hk
        exact ⟨hwf.mem_candidates, hwf.learned⟩
      · exact h₁.wf k s hk
    · rw [get_claim] at ha
      split at ha
      · next hmem =>
        cases ha
        exact ⟨List.mem_cons_self, _, get_insert_self _ _ _, hmem⟩
      · obtain ⟨hk, s, hs, hc⟩ := h₁.sound a k ha
        refine ⟨List.mem_cons_of_mem _ hk, s, ?_, hc⟩
        rw [get_insert_ne, hs]
        rintro rfl
        exact hkey hk
    · rcases List.mem_cons.mp hk with rfl | hdone
      · rw [get_insert_self] at hs
        cases hs
        refine ⟨rfl, fun a ha => ?_⟩
        rw [mem_iff, get_claim, if_pos ha]
        exact ⟨_, rfl⟩
      · have hne : k ≠ key := by
          rintro rfl
          exact hkey hdone
        rw [get_insert_ne _ _ hne] at hs
        obtain ⟨hd, hc⟩ := h₁.complete k hdone s hs
        refine ⟨hd, fun a ha => ?_⟩
        rw [mem_iff, get_claim]
        split
        · exact ⟨_, rfl⟩
        · exact mem_iff.mp (hc a ha)

/-- The whole loop, over an order without repetitions. -/
theorem reopened_foldl {order : List NodePublic} (hnodup : order.Nodup)
    (hdisj : ∀ k ∈ order, k ∉ done) (h : Reopened b done) :
    Reopened (order.foldl (Bind.reopenPeer now) b) (order.reverse ++ done) := by
  induction order generalizing b done with
  | nil => exact h
  | cons key order ih =>
    obtain ⟨hkey, hnodup⟩ := List.nodup_cons.mp hnodup
    rw [List.foldl_cons, List.reverse_cons, List.append_assoc]
    refine ih hnodup (fun k hk => ?_) (reopened_reopenPeer h now (hdisj key List.mem_cons_self))
    rw [List.singleton_append, List.mem_cons, not_or]
    refine ⟨?_, hdisj k (List.mem_cons_of_mem _ hk)⟩
    rintro rfl
    exact hkey hk

/-- When every peer has had its turn the index is sound and complete. -/
theorem Reopened.index (h : Reopened b done)
    (hall : ∀ k state, b.peers.get k = some state → k ∈ done) : AddrSound b ∧ AddrComplete b := by
  have hs : AddrSound b := by
    refine ⟨fun a k ha => ?_, h.wf⟩
    obtain ⟨-, state, hk, hc⟩ := h.sound a k ha
    exact ⟨state, hk, .inl hc⟩
  refine ⟨hs, (addrComplete_iff hs).mpr fun k state a hk hr => ?_⟩
  obtain ⟨hd, hc⟩ := h.complete k (hall k state hk) state hk
  rcases hr with hr | ⟨rfl, hv⟩
  · exact hc a hr
  · rw [hd] at hv
    cases hv

/-- `Open` leaves the bind's peers and index alone, or rebuilds the index. -/
theorem openBind_index (hs : AddrSound b) (listen : Bind.Listen) (now : Time)
    {order : List NodePublic} (horder : b.peers.Listing order) (interfaces : List String) :
    AddrSound (b.openBind listen now order interfaces) ∧
      (AddrComplete b → AddrComplete (b.openBind listen now order interfaces)) := by
  rcases openBind_cases b listen now order interfaces with
    ⟨-, closed, heq⟩ | ⟨-, -, conn, localEndpoints, heq⟩
  · rw [heq]
    exact ⟨⟨hs.sound, hs.wf⟩, id⟩
  -- the index is cleared before the loop, and the loop visits every peer once
  have hinit : Reopened (b.installed conn) [] := ⟨hs.wf, nofun, nofun⟩
  have hloop : Reopened (order.foldl (Bind.reopenPeer now) (b.installed conn)) (order.reverse ++ []) :=
    reopened_foldl horder.nodup (fun _ _ => List.not_mem_nil) hinit
  obtain ⟨hsound, hcomplete⟩ := hloop.index fun k state hk => by
    obtain ⟨state₀, hk₀, -⟩ := (reopen_keeps (b.installed conn) now order).1.symm.exists_peer hk
    rw [List.append_nil, List.mem_reverse, horder.mem_iff]
    exact mem_of_get (m := b.peers) hk₀
  rw [heq]
  exact ⟨⟨hsound.sound, hsound.wf⟩, fun _ => hcomplete⟩

/-! ## Runs -/

/-- A new peer is stored without taking an address from anybody. -/
theorem addrComplete_newPeer (hs : AddrSound b) (hb : AddrComplete b) {config : PeerConfig}
    (hnone : b.peers.get config.nodeKey = none) : AddrComplete (b.replacePeer .zero config) := by
  have hstate : ∀ s, b.peers.get config.nodeKey = some s → s = PeerState.zero := by
    intro s hs
    rw [hnone] at hs
    cases hs
  rw [addrComplete_replacePeer hstate hs hb]
  refine ⟨nofun, fun a howner => ?_⟩
  obtain ⟨s, hk, -⟩ := hs.sound a _ howner
  rw [hnone] at hk
  cases hk

theorem addrSound_probePeer (hs : AddrSound b) (node : NodePublic) (now : Time) :
    AddrSound (b.probePeer node now).1 ∧
      (AddrComplete b → AddrComplete (b.probePeer node now).1) := by
  unfold Bind.probePeer
  split
  · exact ⟨hs, id⟩
  · cases hget : b.peers.get node with
    | none => exact ⟨hs, id⟩
    | some state =>
      dsimp only
      split
      · exact ⟨hs, id⟩
      · have hwf := hs.wf node state hget
        exact And.imp_right (fun h hb => (h hb).mpr fun _ hG => hG.elim) (index_store
          (G := fun _ => False) hs hget rfl ⟨hwf.mem_candidates, hwf.learned⟩
          (fun a => .inr (.inl ⟨rfl, id, fun _ => id⟩)) fun _ hG => hG.elim)

/-- Every operation keeps the index sound, and complete exactly if its condition is met. -/
theorem exec_index {b' : Bind} {op : BindOp} (hs : AddrSound b) (h : b.exec op = some b') :
    AddrSound b' ∧ (AddrComplete b → (AddrComplete b' ↔ AddrStepOK b op)) := by
  cases op with
  | updatePeer config =>
    cases h
    rcases updatePeer_cases b config with ⟨s, hget, hsame, heq⟩ | ⟨state, hstate, hnone, heq⟩
    · rw [heq]
      refine ⟨hs, fun hb => iff_of_true hb fun s' hs' hne => ?_⟩
      cases hget.symm.trans hs'
      exact absurd hsame hne
    · rw [heq]
      have hold : ∀ s, b.peers.get config.sanitized.nodeKey = some s → s = state :=
        fun s hk => (hstate s hk).1
      refine ⟨addrSound_replacePeer hold hs, fun hb => ?_⟩
      cases hget : b.peers.get config.nodeKey with
      | none =>
        rw [hnone hget]
        refine iff_of_true (addrComplete_newPeer hs hb hget) fun s hs => ?_
        rw [hget] at hs
        cases hs
      | some s =>
        obtain ⟨rfl, hne⟩ := hstate s hget
        rw [addrComplete_replacePeer hold hs hb]
        refine ⟨fun h s' hs' _ => ?_, fun hok => ?_⟩
        · cases hget.symm.trans hs'
          exact ⟨h.1, fun a ha hn => addrRef_replacedPeer.mp (h.2 a ha hn)⟩
        · obtain ⟨h1, h2⟩ := hok s hget hne
          exact ⟨h1, fun a ha hn => addrRef_replacedPeer.mpr (h2 a ha hn)⟩
  | removePeer key =>
    cases h
    exact ⟨addrSound_removePeer hs, addrComplete_removePeer hs⟩
  | setDirect node addr latency now =>
    cases h
    exact index_setDirect hs node addr latency now
  | addLearnedCandidates node fresh now =>
    cases h
    exact index_addLearned hs node fresh now
  | pruneLearnedCandidates node now =>
    cases h
    exact index_prune hs node now
  | openBind listen now order interfaces =>
    rw [Bind.exec] at h
    split at h
    · next horder =>
      cases h
      obtain ⟨hs', hb'⟩ := openBind_index hs listen now horder interfaces
      exact ⟨hs', fun hb => iff_of_true (hb' hb) trivial⟩
    · cases h
  | closeBind =>
    cases h
    unfold Bind.closeBind
    split <;> exact ⟨⟨hs.sound, hs.wf⟩, fun hb => iff_of_true hb trivial⟩
  | probePeer node now =>
    cases h
    obtain ⟨hs', hb'⟩ := addrSound_probePeer hs node now
    exact ⟨hs', fun hb => iff_of_true (hb' hb) trivial⟩
  | recordPing tx ping =>
    cases h
    exact ⟨⟨hs.sound, hs.wf⟩, fun hb => iff_of_true hb trivial⟩

theorem addrSound_newBind (cfg : BindConfig) : AddrSound (newBind cfg) := by
  refine ⟨fun a k h => ?_, fun k state h => ?_⟩
  · cases h
  · cases h

/-- No packet is taken for one from `k`. -/
structure Unattributed (b : Bind) (k : NodePublic) : Prop where
  datagram : ∀ generation source, b.readUDP generation source ≠ some (.node k)
  relayed : ∀ source, b.handleDERPPacket source ≠ some (.node k)
  disco : ∀ sender derpSource, b.discoNode sender derpSource ≠ some k

/-- Every entry of an index names a peer, which has the address or the discovery key; and what
`RemovePeer` leaves behind attributes nothing to the removed peer. -/
structure IndexSound (b : Bind) : Prop where
  byAddr : ∀ a k, b.byAddr.get a = some k →
    ∃ state, b.peers.get k = some state ∧ (a ∈ state.candidates ∨ a = state.direct)
  byDisco : ∀ d k, b.byDisco.get d = some k →
    ∃ state, b.peers.get k = some state ∧ state.config.discoKey = d
  removed : ∀ k, Unattributed (b.removePeer k) k

/-- A peer the bind does not have is not found by any index. -/
theorem unattributed_of_not_mem {k : NodePublic} (ha : AddrSound b) (hk : k ∉ b.peers) :
    Unattributed b k := by
  constructor
  · intro generation source h
    unfold Bind.readUDP at h
    split at h
    · cases h
    split at h
    · next hentry =>
      cases h
      obtain ⟨state, hstate, -⟩ := ha.sound _ _ hentry
      exact hk (mem_of_get hstate)
    · cases h
  · intro source h
    unfold Bind.handleDERPPacket at h
    split at h
    · cases h
    · next hsource =>
      cases h
      exact hsource (.inr hk)
  · intro sender derpSource h
    unfold Bind.discoNode at h
    split at h
    · cases h
    split at h
    · cases h
    · next hnode =>
      cases h
      exact hnode (.inl hk)

theorem indexSound_of (ha : AddrSound b) (hd : DiscoSound b) : IndexSound b := by
  refine ⟨fun a k h => ?_, fun d k h => ?_, fun k => ?_⟩
  · obtain ⟨state, hstate, hr⟩ := ha.sound a k h
    exact ⟨state, hstate, hr.imp_right fun hdirect => hdirect.1.symm⟩
  · obtain ⟨state, hstate, hr⟩ := hd d k h
    exact ⟨state, hstate, hr.1⟩
  · refine unattributed_of_not_mem (addrSound_removePeer ha) ?_
    simp [removePeer_peers]

/-- In every run of bind operations from a new bind, both indexes name only peers that have the
address or the discovery key, and a removed peer is attributed nothing. -/
theorem bind_indexes_sound (cfg : BindConfig) (ops : List BindOp) :
    bindSystem.Visits IndexSound (newBind cfg) ops := by
  refine System.visits_of_invariant (J := fun b => AddrSound b ∧ DiscoSound b) ?_ ?_ ?_ ops
  · exact fun b b' op hb hstep => ⟨(exec_index hb.1 hstep).1, exec_discoSound hb.2 hstep⟩
  · exact fun b hb => indexSound_of hb.1 hb.2
  · exact ⟨addrSound_newBind cfg, fun d k h => nomatch h⟩

end WgoTailscale
