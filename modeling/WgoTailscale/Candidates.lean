import WgoTailscale.BindAddr

/-!
# The candidates of a peer (`bind.go`, `disco.go`)

`candidates` is what `Send` and `probePeer` go through. It is derived from the endpoints that
control lists for the peer and the addresses that were learned from CallMeMaybe messages, and
rebuilt only when an operation finds that something changed. In every run of the bind's operations
it is what a rebuild would make of the other two, both are bounded, and what pruning leaves of the
learned addresses was observed at most `discoCandidateLifetime` before
(`candidate_lists_canonical`).
-/

namespace WgoTailscale

open FinMap

/-- An address that the bind sends to: unmapped, valid, not unspecified, not multicast, with a
port. -/
structure AddrPort.Sendable (a : AddrPort) : Prop where
  unmapped : a.addr.unmap = a.addr
  valid : a.isValid = true
  specified : a.addr.isUnspecified = false
  unicast : a.addr.isMulticast = false
  port : a.port ≠ 0

/-! ## `sanitizeEndpoints` -/

/-- What `sanitizeEndpoints` leaves. -/
structure Sanitized (endpoints : List AddrPort) : Prop where
  nodup : endpoints.Nodup
  length_le : endpoints.length ≤ maxControlPeerEndpoints
  sendable : ∀ a ∈ endpoints, a.Sendable

/-- One more endpoint. -/
theorem Sanitized.append {endpoints : List AddrPort} {a : AddrPort} (h : Sanitized endpoints)
    (hlength : endpoints.length < maxControlPeerEndpoints) (ha : a.Sendable)
    (hnew : a ∉ endpoints) : Sanitized (endpoints ++ [a]) where
  nodup := by
    rw [List.nodup_append]
    refine ⟨h.nodup, List.nodup_singleton a, fun x hx y hy heq => hnew ?_⟩
    rw [← List.mem_singleton.mp hy, ← heq]
    exact hx
  length_le := by
    rw [List.length_append, List.length_singleton]
    exact hlength
  sendable x hx := by
    rcases List.mem_append.mp hx with hx | hx
    · exact h.sendable x hx
    · rw [List.mem_singleton.mp hx]
      exact ha

theorem sanitized_sanitizeLoop (endpoints : List AddrPort) {result : List AddrPort}
    (h : Sanitized result) (hlength : result.length < maxControlPeerEndpoints) :
    Sanitized (sanitizeLoop endpoints result) := by
  induction endpoints generalizing result with
  | nil => exact h
  | cons endpoint rest ih =>
    unfold sanitizeLoop
    dsimp only
    split
    · exact ih h hlength
    · next hok =>
      simp only [not_or, Bool.not_eq_true, Bool.not_eq_false] at hok
      obtain ⟨hvalid, hspecified, hunicast, hport, hnew⟩ := hok
      have hsendable : AddrPort.Sendable ⟨endpoint.addr.unmap, endpoint.port⟩ :=
        ⟨Addr.unmap_unmap _, hvalid, hspecified, hunicast, hport⟩
      have hnext := h.append hlength hsendable hnew
      split
      · exact hnext
      · next hroom =>
        refine ih hnext ?_
        rw [List.length_append, List.length_singleton]
        exact Nat.lt_of_not_le hroom

theorem sanitized_sanitizeEndpoints (endpoints : List AddrPort) :
    Sanitized (sanitizeEndpoints endpoints) :=
  sanitized_sanitizeLoop endpoints ⟨List.nodup_nil, Nat.zero_le _, nofun⟩ (by decide)

/-! ## Well-formed candidates -/

/-- The candidates of a peer are its configured endpoints followed by the learned addresses in
ascending order. -/
structure CandidatesWF (state : PeerState) : Prop where
  candidates : ∃ learned, state.candidates = state.config.endpoints ++ learned ∧
    learned.Pairwise (fun a a' => a.compare a' = .lt) ∧ ∀ a, a ∈ learned ↔ a ∈ state.learned
  nodup : state.candidates.Nodup
  configured : Sanitized state.config.endpoints
  learned_le : state.learned.keys.card ≤ maxLearnedPeerEndpoints
  disjoint : ∀ a ∈ state.learned, a ∉ state.config.endpoints

/-- Every learned address was listed by a CallMeMaybe message at the time recorded for it. -/
def ObservedIn (ops : List BindOp) (node : NodePublic) (state : PeerState) : Prop :=
  ∀ a observed, state.learned.get a = some observed →
    ∃ fresh, .addLearnedCandidates node fresh observed ∈ ops ∧ a ∈ fresh.map unmapAddrPort

/-- No learned address was observed too long ago. -/
def Fresh (now : Time) (state : PeerState) : Prop :=
  ∀ a observed, state.learned.get a = some observed → now - observed ≤ discoCandidateLifetime

/-- What a run of operations has made of the peers. -/
def CandidatesOK (ops : List BindOp) (b : Bind) : Prop :=
  ∀ node state, b.peers.get node = some state → CandidatesWF state ∧ ObservedIn ops node state

section
variable {state : PeerState} {ops : List BindOp} {b : Bind} {node : NodePublic}
variable {state' : PeerState} {b' : Bind} {now : Time}

/-- The list is right if it is the one that a rebuild would make. -/
theorem candidatesWF_of_eq
    (hlist : state.candidates =
      state.config.endpoints ++ state.learned.sortedKeys AddrPort.compare)
    (hconfigured : Sanitized state.config.endpoints)
    (hlearned : state.learned.keys.card ≤ maxLearnedPeerEndpoints)
    (hdisjoint : ∀ a ∈ state.learned, a ∉ state.config.endpoints) : CandidatesWF state where
  candidates := ⟨_, hlist, state.learned.pairwise_lt_sortedKeys AddrPort.compare, fun a => by simp⟩
  nodup := by
    rw [hlist, List.nodup_append]
    refine ⟨hconfigured.nodup, (state.learned.listing_sortedKeys AddrPort.compare).nodup, ?_⟩
    rintro a ha a' ha' rfl
    exact hdisjoint a ((mem_sortedKeys _).mp ha') ha
  configured := hconfigured
  learned_le := hlearned
  disjoint := hdisjoint

/-- Only the configuration, the candidates and the learned addresses count. -/
theorem CandidatesWF.congr (h : CandidatesWF state) (hconfig : state'.config = state.config)
    (hcandidates : state'.candidates = state.candidates)
    (hlearned : state'.learned.keys = state.learned.keys) : CandidatesWF state' := by
  have hmem (a : AddrPort) : a ∈ state'.learned ↔ a ∈ state.learned := by
    rw [mem_def, hlearned, mem_def]
  obtain ⟨learned, hlist, hsorted, hlisted⟩ := h.candidates
  refine ⟨⟨learned, ?_, hsorted, fun a => (hlisted a).trans (hmem a).symm⟩, ?_, ?_, ?_, ?_⟩
  · rw [hcandidates, hconfig]
    exact hlist
  · rw [hcandidates]
    exact h.nodup
  · rw [hconfig]
    exact h.configured
  · rw [hlearned]
    exact h.learned_le
  · intro a ha
    rw [hconfig]
    exact h.disjoint a ((hmem a).mp ha)

/-- Storing a peer. -/
theorem CandidatesOK.insert (h : CandidatesOK ops b)
    (hpeers : b'.peers = b.peers.insert node state')
    (hstate : CandidatesWF state' ∧ ObservedIn ops node state') : CandidatesOK ops b' := by
  intro k s hk
  rw [hpeers, get_insert] at hk
  split at hk
  · next heq =>
    cases hk
    rw [heq]
    exact hstate
  · exact h k s hk

/-- Storing a peer whose configuration, candidates and learned addresses are as before. -/
theorem CandidatesOK.insert_same (h : CandidatesOK ops b) (hget : b.peers.get node = some state)
    (hpeers : b'.peers = b.peers.insert node state') (hconfig : state'.config = state.config)
    (hcandidates : state'.candidates = state.candidates) (hlearned : state'.learned = state.learned) :
    CandidatesOK ops b' := by
  obtain ⟨hwf, hobserved⟩ := h node state hget
  refine h.insert hpeers ⟨hwf.congr hconfig hcandidates (by rw [hlearned]), ?_⟩
  unfold ObservedIn
  rw [hlearned]
  exact hobserved

/-! ## Pruning -/

/-- What pruning makes of its peer: nothing has expired, or the expired addresses are gone. -/
theorem get_prune (h : (b.pruneLearnedCandidates node now).1.peers.get node = some state') :
    ∃ state, b.peers.get node = some state ∧
      ((state' = state ∧ ∀ a, ¬ Expired state now a) ∨ state' = prunedPeer state now) := by
  rcases prune_cases b node now with ⟨heq, hnone⟩ | ⟨state, hget, -, hpeers, -⟩
  · rw [heq] at h
    exact ⟨state', h, .inl ⟨rfl, hnone state' h⟩⟩
  · rw [hpeers, get_insert_self] at h
    exact ⟨state, hget, .inr (Option.some.inj h).symm⟩

theorem not_expiredAt {observed : Time} :
    Bind.expiredAt now observed = false ↔ now - observed ≤ discoCandidateLifetime := by
  unfold Bind.expiredAt
  rw [decide_eq_false_iff_not, not_lt]

/-- The addresses that pruning keeps, with their times. -/
theorem get_learned_prunedPeer {observed : Time} {a : AddrPort} :
    (prunedPeer state now).learned.get a = some observed ↔
      state.learned.get a = some observed ∧ now - observed ≤ discoCandidateLifetime := by
  unfold prunedPeer rebuildPeerCandidates
  rw [get_filter, Option.filter_eq_some_iff, ← not_expiredAt, Bool.not_eq_true']

theorem fresh_prune (h : (b.pruneLearnedCandidates node now).1.peers.get node = some state') :
    Fresh now state' := by
  intro a observed hobserved
  obtain ⟨state, -, ⟨rfl, hnone⟩ | rfl⟩ := get_prune h
  · rw [← not_expiredAt, ← Bool.not_eq_true]
    intro hexpired
    refine hnone a ?_
    unfold Expired
    rw [hobserved]
    exact hexpired
  · exact (get_learned_prunedPeer.mp hobserved).2

theorem CandidatesOK.prune (h : CandidatesOK ops b) (node : NodePublic) (now : Time) :
    CandidatesOK ops (b.pruneLearnedCandidates node now).1 := by
  rcases prune_cases b node now with ⟨heq, -⟩ | ⟨state, hget, -, hpeers, -⟩
  · rw [heq]
    exact h
  · obtain ⟨hwf, hobserved⟩ := h node state hget
    refine h.insert hpeers ⟨candidatesWF_of_eq rfl hwf.configured ?_ fun a ha => ?_,
      fun a observed ha => ?_⟩
    · refine (Finset.card_le_card fun a ha => ?_).trans hwf.learned_le
      exact (mem_learned_prunedPeer.mp ha).1
    · exact hwf.disjoint a (mem_learned_prunedPeer.mp ha).1
    · exact hobserved a observed (get_learned_prunedPeer.mp ha).1

/-! ## Learning -/

theorem learned_ite_rebuild {changed : Bool} :
    (if changed = true then rebuildPeerCandidates state else state).learned = state.learned := by
  split <;> rfl

/-- The loop of `addLearnedCandidatesLocked` keeps the bound, and what it learns it has from the
message. -/
theorem learn_bounded (node : NodePublic) (now : Time) (fresh : List AddrPort) (state : PeerState)
    (byAddr : FinMap AddrPort NodePublic) (changed : Bool) :
    let r := fresh.foldl (Bind.learnOne node now) (state, byAddr, changed)
    (state.learned.keys.card ≤ maxLearnedPeerEndpoints →
      r.1.learned.keys.card ≤ maxLearnedPeerEndpoints) ∧
      ∀ a observed, r.1.learned.get a = some observed → state.learned.get a = some observed ∨
        (observed = now ∧ a ∈ fresh.map unmapAddrPort) := by
  induction fresh using List.reverseRecOn with
  | nil => exact ⟨id, fun a observed h => .inl h⟩
  | append_singleton fresh endpoint ih =>
    rw [List.foldl_append, List.foldl_cons, List.foldl_nil, List.map_append, List.map_singleton]
    generalize fresh.foldl (Bind.learnOne node now) (state, byAddr, changed) = acc at ih ⊢
    obtain ⟨state₁, byAddr₁, changed₁⟩ := acc
    obtain ⟨hcard, htimes⟩ := ih
    have hold (a : AddrPort) (observed : Time) (h : state₁.learned.get a = some observed) :
        state.learned.get a = some observed ∨
          (observed = now ∧ a ∈ fresh.map unmapAddrPort ++ [unmapAddrPort endpoint]) :=
      (htimes a observed h).imp_right fun ⟨hnow, ha⟩ => ⟨hnow, List.mem_append_left _ ha⟩
    have hnew (a : AddrPort) (observed : Time)
        (h : (state₁.learned.insert (unmapAddrPort endpoint) now).get a = some observed) :
        state.learned.get a = some observed ∨
          (observed = now ∧ a ∈ fresh.map unmapAddrPort ++ [unmapAddrPort endpoint]) := by
      rw [get_insert] at h
      split at h
      · next heq =>
        rw [heq]
        exact .inr ⟨(Option.some.inj h).symm, List.mem_append_right _ (List.mem_singleton_self _)⟩
      · exact hold a observed h
    unfold Bind.learnOne
    dsimp only
    split
    · exact ⟨hcard, hold⟩
    · split
      · next hmem =>
        refine ⟨fun hbound => ?_, hnew⟩
        rw [keys_insert, Finset.insert_eq_self.mpr (mem_def.mp hmem)]
        exact hcard hbound
      · split
        · exact ⟨hcard, hold⟩
        · next hroom =>
          refine ⟨fun _ => ?_, hnew⟩
          rw [keys_insert]
          exact (Finset.card_insert_le _ _).trans (Nat.lt_of_not_le hroom)

/-- What learning leaves is fresh: the prune before it has left nothing else. -/
theorem fresh_addLearned {fresh : List AddrPort}
    (h : (b.addLearnedCandidates node fresh now).1.peers.get node = some state') :
    Fresh now state' := by
  have hpruned {state'} (h : (b.pruneLearnedCandidates node now).1.peers.get node = some state') :
      Fresh now state' := fresh_prune h
  unfold Bind.addLearnedCandidates at h
  dsimp only at h
  generalize (b.pruneLearnedCandidates node now).2 = pruned at h
  generalize (b.pruneLearnedCandidates node now).1 = b₁ at hpruned h
  split at h
  · next hnone =>
    rw [hnone] at h
    cases h
  · next state hget =>
    obtain ⟨-, htimes⟩ := learn_bounded node now fresh state b₁.byAddr pruned
    rw [get_insert_self] at h
    cases h
    intro a observed ha
    rw [learned_ite_rebuild] at ha
    rcases htimes a observed ha with hold | ⟨rfl, -⟩
    · exact hpruned hget a observed hold
    · rw [sub_self]
      decide

theorem CandidatesOK.addLearned {fresh : List AddrPort} (h : CandidatesOK ops b)
    (hop : .addLearnedCandidates node fresh now ∈ ops) :
    CandidatesOK ops (b.addLearnedCandidates node fresh now).1 := by
  have hpruned := h.prune node now
  unfold Bind.addLearnedCandidates
  dsimp only
  generalize (b.pruneLearnedCandidates node now).2 = pruned
  generalize (b.pruneLearnedCandidates node now).1 = b₁ at hpruned ⊢
  split
  · exact hpruned
  · next state hget =>
    obtain ⟨hwf, hobserved⟩ := hpruned node state hget
    have hspec := learn_spec node now fresh state b₁.byAddr pruned
    obtain ⟨hcard, htimes⟩ := learn_bounded node now fresh state b₁.byAddr pruned
    generalize fresh.foldl (Bind.learnOne node now) (state, b₁.byAddr, pruned) = r
      at hspec hcard htimes ⊢
    have hdisjoint : ∀ a ∈ r.1.learned, a ∉ r.1.config.endpoints := by
      intro a ha
      rw [hspec.config]
      rcases hspec.new a ha with hold | ⟨-, -, hnot, -⟩
      · exact hwf.disjoint a hold
      · exact hnot
    refine hpruned.insert rfl ⟨?_, fun a observed ha => ?_⟩
    · split
      · refine candidatesWF_of_eq rfl ?_ (hcard hwf.learned_le) hdisjoint
        show Sanitized r.1.config.endpoints
        rw [hspec.config]
        exact hwf.configured
      · next hsame =>
        -- nothing is new, so the addresses are those there were
        refine hwf.congr hspec.config hspec.candidates
          (Finset.ext fun a => ⟨fun ha => ?_, hspec.old a⟩)
        rcases hspec.new a ha with hold | ⟨-, -, -, hchanged⟩
        · exact hold
        · exact absurd hchanged hsame
    · rw [learned_ite_rebuild] at ha
      rcases htimes a observed ha with hold | ⟨rfl, hmem⟩
      · exact hobserved a observed hold
      · exact ⟨fresh, hop, hmem⟩

/-! ## Open -/

theorem CandidatesOK.reopenPeer (h : CandidatesOK ops b) (now : Time) (key : NodePublic) :
    CandidatesOK ops (b.reopenPeer now key) := by
  have hpruned := h.prune key now
  unfold Bind.reopenPeer
  dsimp only
  split
  · exact hpruned
  · next state hget => exact hpruned.insert_same hget rfl rfl rfl rfl

/-- A turn of the loop of `Open` leaves what it prunes fresh, and what was fresh. -/
theorem fresh_reopenPeer {key : NodePublic}
    (hfresh : node = key ∨ ∀ state, b.peers.get node = some state → Fresh now state)
    (h : (b.reopenPeer now key).peers.get node = some state') : Fresh now state' := by
  have hpruned : ∀ state, (b.pruneLearnedCandidates key now).1.peers.get node = some state →
      Fresh now state := by
    intro state hget
    by_cases heq : node = key
    · subst heq
      exact fresh_prune hget
    · refine hfresh.resolve_left heq state ?_
      rcases prune_cases b key now with ⟨hsame, -⟩ | ⟨_, -, -, hpeers, -⟩
      · rw [hsame] at hget
        exact hget
      · rw [hpeers, get_insert_ne _ _ heq] at hget
        exact hget
  unfold Bind.reopenPeer at h
  dsimp only at h
  generalize (b.pruneLearnedCandidates key now).1 = b₁ at hpruned h
  split at h
  · exact hpruned state' h
  · next state hget =>
    rw [get_insert] at h
    split at h
    · next heq =>
      cases h
      subst heq
      exact hpruned state hget
    · exact hpruned state' h

/-- The loop of `Open`. -/
theorem fresh_reopen {order : List NodePublic}
    (hfresh : node ∈ order ∨ ∀ state, b.peers.get node = some state → Fresh now state)
    (h : (order.foldl (Bind.reopenPeer now) b).peers.get node = some state') :
    Fresh now state' := by
  induction order generalizing b with
  | nil => exact hfresh.resolve_left List.not_mem_nil state' h
  | cons key order ih =>
    refine ih (b := b.reopenPeer now key) ?_ h
    by_cases hmem : node ∈ order
    · exact .inl hmem
    · refine .inr fun state hget => fresh_reopenPeer ?_ hget
      exact hfresh.imp_left fun hcons => (List.mem_cons.mp hcons).resolve_right hmem

theorem CandidatesOK.reopen (h : CandidatesOK ops b) (now : Time) (order : List NodePublic) :
    CandidatesOK ops (order.foldl (Bind.reopenPeer now) b) := by
  induction order generalizing b with
  | nil => exact h
  | cons key order ih => exact ih (h.reopenPeer now key)

/-! ## Runs -/

/-- An operation keeps the candidates well formed. -/
theorem CandidatesOK.exec {op : BindOp} (h : CandidatesOK ops b) (hop : op ∈ ops)
    (hexec : b.exec op = some b') : CandidatesOK ops b' := by
  cases op with
  | updatePeer config =>
    cases hexec
    rcases updatePeer_cases b config with ⟨-, -, -, heq⟩ | ⟨state, -, -, heq⟩
    · rw [heq]
      exact h
    · rw [heq]
      have hreplaced : (replacedPeer state config.sanitized).config = config.sanitized ∧
          (replacedPeer state config.sanitized).candidates = config.sanitized.endpoints ∧
          (replacedPeer state config.sanitized).learned = ∅ := by
        unfold replacedPeer
        split <;> exact ⟨rfl, rfl, rfl⟩
      obtain ⟨hconfig, hcandidates, hlearned⟩ := hreplaced
      refine h.insert (replacePeer_peers b state config.sanitized)
        ⟨candidatesWF_of_eq ?_ ?_ ?_ ?_, fun a observed ha => ?_⟩
      · rw [hcandidates, hconfig, hlearned]
        exact (List.append_nil _).symm
      · rw [hconfig]
        exact sanitized_sanitizeEndpoints config.endpoints
      · rw [hlearned]
        exact Nat.zero_le _
      · intro a ha
        rw [hlearned] at ha
        exact absurd ha (not_mem_empty a)
      · rw [hlearned] at ha
        cases ha
  | removePeer key =>
    cases hexec
    intro k state hk
    rw [removePeer_peers, get_erase] at hk
    split at hk
    · cases hk
    · exact h k state hk
  | setDirect node addr latency now =>
    cases hexec
    rcases setDirect_cases b node addr latency now with ⟨heq, -⟩ | ⟨state, hget, -, hpeers, -⟩
    · rw [heq]
      exact h
    · exact h.insert_same hget hpeers rfl rfl rfl
  | addLearnedCandidates node fresh now =>
    cases hexec
    exact h.addLearned hop
  | pruneLearnedCandidates node now =>
    cases hexec
    exact h.prune node now
  | openBind listen now order interfaces =>
    rw [Bind.exec] at hexec
    split at hexec
    · cases hexec
      unfold CandidatesOK
      rcases openBind_cases b listen now order interfaces with
        ⟨-, closed, heq⟩ | ⟨-, -, conn, localEndpoints, heq⟩
      · rw [heq]
        exact h
      · have hbefore : CandidatesOK ops (b.installed conn) := h
        rw [heq]
        exact hbefore.reopen now order
    · cases hexec
  | closeBind =>
    cases hexec
    unfold Bind.closeBind
    split <;> exact h
  | probePeer node now =>
    cases hexec
    unfold Bind.probePeer
    split
    · exact h
    · split
      · exact h
      · next state hget =>
        split
        · exact h
        · exact h.insert_same hget rfl rfl rfl rfl
  | recordPing tx ping =>
    cases hexec
    exact h

/-- The peer is pruned at the given time: by `pruneLearnedCandidatesLocked`, by the learning that
begins with it, or by an `Open` that opens the bind. -/
def BindOp.Prunes (b b' : Bind) (node : NodePublic) (now : Time) : BindOp → Prop
  | .pruneLearnedCandidates node' now' => node' = node ∧ now' = now
  | .addLearnedCandidates node' _ now' => node' = node ∧ now' = now
  | .openBind _ now' _ _ => now' = now ∧ b.isOpen = false ∧ b'.isOpen = true
  | _ => False

/-- Right after a peer is pruned, every address that it has learned was observed at most
`discoCandidateLifetime` before. -/
def PrunesWell (b : Bind) (op : BindOp) : Prop :=
  ∀ b' node now state, b.exec op = some b' → op.Prunes b b' node now →
    b'.peers.get node = some state → Fresh now state

theorem prunesWell (b : Bind) (op : BindOp) : PrunesWell b op := by
  intro b' node now state hexec hop hget
  cases op with
  | pruneLearnedCandidates node' now' =>
    obtain ⟨rfl, rfl⟩ := hop
    cases hexec
    exact fresh_prune hget
  | addLearnedCandidates node' fresh now' =>
    obtain ⟨rfl, rfl⟩ := hop
    cases hexec
    exact fresh_addLearned hget
  | openBind listen now' order interfaces =>
    obtain ⟨rfl, hclosed, hopen⟩ := hop
    rw [Bind.exec] at hexec
    split at hexec
    · next horder =>
      cases hexec
      rcases openBind_cases b listen now' order interfaces with
        ⟨-, closed, heq⟩ | ⟨-, -, conn, localEndpoints, heq⟩
      · rw [heq] at hopen
        cases hclosed.symm.trans hopen
      · rw [heq] at hget
        refine fresh_reopen (.inl (horder.mem_iff.mpr ?_)) hget
        obtain ⟨state₀, hget₀, -⟩ :=
          (reopen_keeps (b.installed conn) now' order).1.symm.exists_peer hget
        exact mem_of_get hget₀
    · cases hexec
  | _ => exact hop.elim

end

/-- In every run of the bind's operations, every peer's candidates are its configured endpoints
followed by its learned addresses in ascending order, without duplicates; both are bounded and
disjoint, the configured endpoints can be sent to, and every learned address was listed at the time
recorded for it. After each prune no recorded time is more than `discoCandidateLifetime` old. -/
theorem candidate_lists_canonical (cfg : BindConfig) (ops : List BindOp) :
    bindSystem.Visits (CandidatesOK ops) (newBind cfg) ops ∧
      bindSystem.Meets PrunesWell (newBind cfg) ops := by
  constructor
  · refine System.visits_of_meets (J := CandidatesOK ops) (P := fun _ op => op ∈ ops) ?_ ?_ ?_ ?_
    · exact fun b b' op h hop hexec => h.exec hop hexec
    · exact fun b h => h
    · exact fun node state h => nomatch h
    · exact System.meets_of_forall (fun _ hop _ => hop) _
  · exact System.meets_of_forall (fun op _ b => prunesWell b op) _

end WgoTailscale
