import WgoTailscale.ReducerWrites
import WgoTailscale.Views

/-!
# What the map reducer leaves alone

`Block` is the table of what a block of `applyMapResponse` can do to the data that other parts of the
program read, and the section is a sequence of such blocks (`blocks_reduceMap`). What is proved about
all of them is proved by cases over the table. `applyMapResponse` decides from a few flags whether the
views' revision moves, whether the bind is given a new DERP configuration and whether the peers are
reconciled; `Reduces` states what those flags promise: data that another part of the program relies on
is unchanged, or the flag that reports its change is set (`reduces_reduceMap`).
-/

namespace WgoTailscale

/-! ## What the blocks can do -/

/-- What no block touches. -/
def Client.untouched (c : Client) :=
  (c.opts, c.revision, c.networkRevision, c.confirmed, c.peerLocal, c.applied, c.lastPingURL,
    c.authenticated, c.nodePrivate, c.cache, c.endpoints)

/-- What the three views are made of. -/
def Client.viewData (c : Client) :=
  (c.self, c.peers, c.dns, c.namedFilters, c.filters, c.derpMap, c.derpLatency, c.preferredDERP,
    c.dnsRevision, c.aclRevision, c.derpRevision)

/-- What `reconcilePeers` reads of a node. -/
def Node.wanted (node : Node) :=
  (node.key, node.stableID, node.unsignedPeerAPIOnly, node.expired, node.isWireGuardOnly,
    node.discoKey, node.homeDERP, node.legacyDERPString, node.addresses, node.allowedIPs,
    node.endpoints)

/-- Will the revision of the network view be set? -/
def Reduction.announces (r : Reduction) : Prop := .network ∈ r.kinds ∨ .peers ∈ r.kinds

/-- Were the bind's DERP configuration and the preferred region changed? -/
def Reduction.derpFlags (r : Reduction) := (r.derpBindingChanged, r.preferredDERPChanged)

/-- The same is read of the nodes of one map as of those of another. -/
def SameRead {β : Type} (read : Node → β) (peers peers' : FinMap Int Node) : Prop :=
  ∀ id, (peers'.get id).map read = (peers.get id).map read

/-- What a block can do; with `calm`, one that leaves the DERP map alone. -/
inductive Block : Bool → Reduction → Reduction → Prop
  /-- What is written is read by no other part, and whether the network is up stays as it was. -/
  | aside {calm : Bool} {r r' : Reduction} (huntouched : r'.client.untouched = r.client.untouched)
      (hup : r'.client.up = r.client.up) (hdata : r'.client.viewData = r.client.viewData)
      (hkinds : r.kinds ⊆ r'.kinds) (hrequested : r'.reconcileRequested = r.reconcileRequested)
      (hnodes : r'.dnsNodesChanged = r.dnsNodesChanged) (hderp : r'.derpChanged = r.derpChanged)
      (hflags : r'.derpFlags = r.derpFlags) : Block calm r r'
  | self {calm : Bool} {r : Reduction} (self : Option Node) : Block calm r
      ({ r with
        client := { r.client with self }
        derpBindingChanged := true
        dnsNodesChanged := true }.emit [.self, .network])
  | markSelf {calm : Bool} {r : Reduction} {node : Node} (t : Time)
      (hself : r.client.self = some node) : Block calm r
      ({ r with client := { r.client with self := some (markNodeExpired node t).1 } }.emit
        [.self, .network])
  | peers {calm : Bool} {r r' : Reduction} {peers : FinMap Int Node}
      (hclient : r'.client = { r.client with peers }) (hkinds : r.kinds ⊆ r'.kinds)
      (hderp : r'.derpChanged = r.derpChanged) (hflags : r'.derpFlags = r.derpFlags)
      (hrequested : r.reconcileRequested = true → r'.reconcileRequested = true)
      (hwanted : r'.reconcileRequested = true ∨ SameRead Node.wanted r.client.peers peers)
      (hviewed : r'.announces ∨ SameRead Node.viewed r.client.peers peers)
      (hnamed : r'.dnsNodesChanged = true ∨ r'.dnsNodesChanged = r.dnsNodesChanged ∧
        SameRead Node.named r.client.peers peers) : Block calm r r'
  | derp {r : Reduction} (derpMap : Option DERPMap) (derpLatency : FinMap Int DERPRegionLatency) :
      Block false r ({ r with
        client := { r.client with derpMap, derpLatency }
        derpChanged := true
        derpBindingChanged := true }.emit [.derp])
  | home {r : Reduction} (derpMap : Option DERPMap) (derpLatency : FinMap Int DERPRegionLatency)
      (home : Int) : Block false r (({ r with
        client := { r.client with
          derpMap, derpLatency
          preferredDERP := home
          info := { r.client.info with preferredDERP := home } }
        derpChanged := true
        derpBindingChanged := true
        preferredDERPChanged := true
        reconcileRequested := true }.emit [.metadata]).emit [.derp])
  | dns {calm : Bool} {r : Reduction} (dns : Option DNSConfig) :
      Block calm r ({ r with client := { r.client with dns } }.emit [.dns, .network])
  | chunks {calm : Bool} {r : Reduction} (namedFilters : FinMap String (List FilterRule)) :
      Block calm r ({ r with client := { r.client with namedFilters } }.emit [.acl])
  | flatten {calm : Bool} {r : Reduction} (filters : List FilterRule) (h : .acl ∈ r.kinds) :
      Block calm r { r with client := { r.client with filters } }

variable {α β : Type} {read : Node → β} {node : Node} {c c' : Client}

section
variable {calm : Bool} {r r' r'' : Reduction}

attribute [local simp] Reduction.emit

/-- A block that finds nothing to do. -/
theorem Block.same (r : Reduction) : Block calm r r :=
  .aside rfl rfl rfl (List.Subset.refl _) rfl rfl rfl rfl

variable (response : MapResponse) (now : Time)

/-- The blocks about the session, the time and the browser write nothing else. -/
theorem block_session (calm : Bool) : (∀ r, Block calm r (reduceSession response r)) ∧
    (∀ r, Block calm r (reduceControlTime response now r)) ∧
    ∀ r, Block calm r (reduceBrowserURL response now r) := by
  and_intros <;> intro r <;> simp only [reduceSession, reduceControlTime, reduceBrowserURL]
  all_goals
    repeat' split
    all_goals exact .aside rfl rfl rfl (by simp) rfl rfl rfl rfl

/-- Nor do those about users, the tailnet and the names of nodes. -/
theorem block_metadata (calm : Bool) : (∀ r, Block calm r (reduceUsers response r)) ∧
    (∀ r, Block calm r (reduceMetadata response r)) ∧ ∀ r, Block calm r (reduceDNSNodes r) := by
  and_intros <;> intro r <;> simp only [reduceUsers, reduceMetadata, reduceDNSNodes]
  all_goals
    repeat' split
    all_goals exact .aside rfl rfl rfl (by simp) rfl rfl rfl rfl

/-! ### Nodes -/

/-- Another self node is announced. -/
theorem block_node : Block calm r (reduceNode response r) := by
  unfold reduceNode
  split
  · exact .same r
  split
  · exact .same r
  · exact .self _

/-- A loop whose rounds leave the accumulator alone or raise its flag leaves it alone or raises the
flag. -/
theorem foldl_eq_or_flag {σ : Type} {f : σ × Bool → α → σ × Bool}
    (hf : ∀ acc a, f acc a = acc ∨ (f acc a).2 = true) (l : List α) (acc : σ × Bool) :
    l.foldl f acc = acc ∨ (l.foldl f acc).2 = true := by
  induction l generalizing acc with
  | nil => exact .inl rfl
  | cons a l ih =>
    rw [List.foldl_cons]
    rcases ih (f acc a) with hrest | hflag
    · rw [hrest]
      exact hf acc a
    · exact .inr hflag

/-- A changed node raises the flag, or is the one that is there. -/
theorem changePeer_eq_or_flag (acc : FinMap Int Node × Bool) (node : Option Node) :
    changePeer acc node = acc ∨ (changePeer acc node).2 = true := by
  unfold changePeer
  split
  · exact .inl rfl
  split
  · exact .inl rfl
  · exact .inr rfl

/-- So does an id that is gone. -/
theorem removePeerID_eq_or_flag (acc : FinMap Int Node × Bool) (id : Int) :
    removePeerID acc id = acc ∨ (removePeerID acc id).2 = true := by
  unfold removePeerID
  split
  · exact .inr rfl
  · exact .inl rfl

/-- The whole list asks for a reconciliation in any case. -/
theorem block_peers : Block calm r (reducePeers response r) := by
  unfold reducePeers
  split
  · exact .same r
  dsimp only
  split
  · exact .peers rfl (List.Subset.refl _) rfl rfl (fun _ => rfl) (.inl rfl) (.inr fun _ => rfl)
      (.inr ⟨rfl, fun _ => rfl⟩)
  · exact .peers rfl (by simp) rfl rfl (fun _ => rfl) (.inl rfl)
      (.inl (.inl (by simp))) (.inl rfl)

/-- A loop over ids or nodes that changes the peers, requests a reconciliation if there is anything to
visit, and raises a flag if anything changed. -/
theorem block_peerLoop {f : FinMap Int Node × Bool → α → FinMap Int Node × Bool}
    (hf : ∀ acc a, f acc a = acc ∨ (f acc a).2 = true) (l : List α) :
    Block calm r
      (let (peers, changed) := l.foldl f (r.client.peers, false)
       let r := { r with
         client := { r.client with peers }
         reconcileRequested := r.reconcileRequested || !l.isEmpty }
       if changed then { r with dnsNodesChanged := true }.emit [.peers, .network] else r) := by
  have hloop := foldl_eq_or_flag hf l (r.client.peers, false)
  dsimp only
  split
  · refine .peers rfl (by simp) rfl rfl (fun h => ?_) ?_
      (.inl (.inr (by simp))) (.inl rfl)
    · simp [h]
    · cases l with
      | nil => exact .inr fun _ => rfl
      | cons a l => exact .inl (by simp)
  · next hflag =>
    have heq := hloop.resolve_right hflag
    rw [heq]
    exact .peers rfl (List.Subset.refl _) rfl rfl (fun h => by simp [h]) (.inr fun _ => rfl)
      (.inr fun _ => rfl) (.inr ⟨rfl, fun _ => rfl⟩)

/-- Changed peers. -/
theorem block_peersChanged : Block calm r (reducePeersChanged response r) :=
  block_peerLoop changePeer_eq_or_flag _

/-- Removed peers. -/
theorem block_peersRemoved : Block calm r (reducePeersRemoved response r) :=
  block_peerLoop removePeerID_eq_or_flag _

/-- A flag that was raised, or left alone together with what it stands for, from one round to the
next and so to a later one. -/
theorem raised_trans {flag flag' flag'' : Bool} {p p' p'' : Prop} (htrans : p → p' → p'')
    (h : flag' = true ∨ flag' = flag ∧ p) (h' : flag'' = true ∨ flag'' = flag' ∧ p') :
    flag'' = true ∨ flag'' = flag ∧ p'' := by
  rcases h' with hr | ⟨hflag', hsame'⟩
  · exact .inl hr
  rcases h with hr | ⟨hflag, hsame⟩
  · exact .inl (hflag'.trans hr)
  · exact .inr ⟨hflag'.trans hflag, htrans hsame hsame'⟩

/-- What the loop over patches promises, from one round to a later one. -/
structure Patches (acc acc' : PatchLoop) : Prop where
  wanted : acc'.reconcileRequested = true ∨ acc'.reconcileRequested = acc.reconcileRequested ∧
    SameRead Node.wanted acc.peers acc'.peers
  viewed : acc'.patchedPeers = true ∨ acc'.patchedPeers = acc.patchedPeers ∧
    SameRead Node.viewed acc.peers acc'.peers
  named : SameRead Node.named acc.peers acc'.peers

/-- The promise goes from round to round. -/
theorem Patches.trans {acc acc' acc'' : PatchLoop} (h : Patches acc acc') (h' : Patches acc' acc'') :
    Patches acc acc'' where
  wanted := raised_trans (fun h h' id => (h' id).trans (h id)) h.wanted h'.wanted
  viewed := raised_trans (fun h h' id => (h' id).trans (h id)) h.viewed h'.viewed
  named id := (h'.named id).trans (h.named id)

theorem Patches.refl (acc : PatchLoop) : Patches acc acc :=
  ⟨.inr ⟨rfl, fun _ => rfl⟩, .inr ⟨rfl, fun _ => rfl⟩, fun _ => rfl⟩

/-- Replacing a node by one of which the same is read changes nothing that is read. -/
theorem sameRead_insert {peers : FinMap Int Node} {id : Int} {node' : Node}
    (hget : peers.get id = some node) (hread : read node' = read node) :
    SameRead read peers (peers.insert id node') := by
  intro k
  rw [FinMap.get_insert]
  split
  · next hk => rw [hk, hget, Option.map_some, Option.map_some, hread]
  · rfl

/-- So does rewriting all nodes. -/
theorem sameRead_mapVals {f : Int → Node → Node} (hf : ∀ id node, read (f id node) = read node)
    (peers : FinMap Int Node) : SameRead read peers (peers.mapVals f) := by
  intro id
  rw [FinMap.get_mapVals, Option.map_map]
  exact congrArg (fun g => (peers.get id).map g) (funext (hf id))

/-- A patch of which the reconciler is not told leaves alone what it reads. -/
theorem wanted_applyPeerPatch {patch : PeerChange} (h : peerPatchChangesPath patch = false)
    (node : Node) : (applyPeerPatch patch node).wanted = node.wanted := by
  simp only [peerPatchChangesPath, decide_eq_false_iff_not, not_or, Bool.not_eq_true,
    Option.isSome_eq_false_iff, Option.isNone_iff_eq_none, ne_eq, not_not] at h
  obtain ⟨hderp, hendpoints, hkey, hdisco⟩ := h
  simp [Node.wanted, applyPeerPatch, hderp, hendpoints, hkey, hdisco]

/-- A patch that leaves the node equal to its copy leaves alone what the views read. -/
theorem viewed_applyPeerPatch {patch : PeerChange}
    (h : cloneControlNode node = applyPeerPatch patch node) :
    (applyPeerPatch patch node).viewed = node.viewed := by
  have hkey : (applyPeerPatch patch node).key = node.key := by rw [← h]; rfl
  simp only [Node.viewed, hkey]
  rfl

/-- One patch keeps the promise. -/
theorem patches_patchPeer (acc : PatchLoop) (patch : Option PeerChange) :
    Patches acc (patchPeer acc patch) := by
  unfold patchPeer
  split
  · exact .refl acc
  split
  · exact .refl acc
  · next patch _ node hget =>
    refine ⟨?_, ?_, sameRead_insert hget rfl⟩
    · cases hpath : peerPatchChangesPath patch with
      | true => exact .inl (Bool.or_true _)
      | false =>
        exact .inr ⟨Bool.or_false _, sameRead_insert hget (wanted_applyPeerPatch hpath node)⟩
    · by_cases hsame : cloneControlNode node = applyPeerPatch patch node
      · refine .inr ⟨?_, sameRead_insert hget (viewed_applyPeerPatch hsame)⟩
        simp [hsame]
      · exact .inl (by simp [hsame])

/-- So do all of them. -/
theorem patches_foldl (l : List (Option PeerChange)) (acc : PatchLoop) :
    Patches acc (l.foldl patchPeer acc) := by
  induction l generalizing acc with
  | nil => exact .refl acc
  | cons patch l ih => exact (patches_patchPeer acc patch).trans (ih _)

/-- Patched peers: what is not announced is not read. -/
theorem block_patches : Block calm r (reducePatches response r) := by
  unfold reducePatches
  have hloop := patches_foldl (Slice.list response.peersChangedPatch) { peers := r.client.peers }
  generalize (Slice.list response.peersChangedPatch).foldl patchPeer _ = loop at hloop
  have hwanted : (r.reconcileRequested || loop.reconcileRequested) = true ∨
      SameRead Node.wanted r.client.peers loop.peers :=
    hloop.wanted.imp (fun h => by rw [h, Bool.or_true]) And.right
  dsimp only
  split
  · exact .peers rfl (by simp) rfl rfl (fun h => by simp [h])
      hwanted (.inl (.inr (by simp))) (.inr ⟨rfl, hloop.named⟩)
  · next hpatched =>
    exact .peers rfl (List.Subset.refl _) rfl rfl (fun h => by simp [h]) hwanted
      (.inr (hloop.viewed.resolve_left hpatched).2) (.inr ⟨rfl, hloop.named⟩)

/-- When a peer was seen and whether it is online is read by no other part. -/
theorem sameRead_observe (hseen : ∀ node lastSeen, read { node with lastSeen } = read node)
    (honline : ∀ node online, read { node with online } = read node) (peers : FinMap Int Node) :
    SameRead read peers (peers.mapVals (response.observe now)) := by
  refine sameRead_mapVals (fun id node => ?_) peers
  unfold MapResponse.observe
  dsimp only
  split
  · refine (honline _ _).trans ?_
    split
    · exact hseen _ _
    · exact hseen _ _
    · rfl
  · split
    · exact hseen _ _
    · exact hseen _ _
    · rfl

/-- When peers were seen asks for nothing. -/
theorem block_seenOnline : Block calm r (reduceSeenOnline response now r) := by
  have hflags : r.kinds ⊆ (reduceSeenOnline response now r).kinds ∧
      (reduceSeenOnline response now r).reconcileRequested = r.reconcileRequested ∧
      (reduceSeenOnline response now r).dnsNodesChanged = r.dnsNodesChanged ∧
      (reduceSeenOnline response now r).derpChanged = r.derpChanged ∧
      (reduceSeenOnline response now r).derpFlags = r.derpFlags := by
    unfold reduceSeenOnline
    dsimp only
    split <;> exact ⟨by simp, rfl, rfl, rfl, rfl⟩
  obtain ⟨hkinds, hrequested, hnodes, hderp, hflags⟩ := hflags
  exact .peers (client_reduceSeenOnline response now r) hkinds hderp hflags hrequested.trans
    (.inr (sameRead_observe response now (fun _ _ => rfl) (fun _ _ => rfl) _))
    (.inr (sameRead_observe response now (fun _ _ => rfl) (fun _ _ => rfl) _))
    (.inr ⟨hnodes, sameRead_observe response now (fun _ _ => rfl) (fun _ _ => rfl) _⟩)

/-! ### DERP, DNS and filters -/

/-- The one block that is not calm. -/
theorem block_derp : Block false r (reduceDERP response r) := by
  unfold reduceDERP
  split
  · exact .same r
  dsimp only
  split
  · exact .same r
  generalize (if r.client.opts.disableDERP = true then (0 : Int) else _) = preferred
  split
  · exact .home _ _ _
  · exact .derp _ _

/-- Another DNS configuration is announced. -/
theorem block_dns : Block calm r (reduceDNS response r) := by
  unfold reduceDNS
  split
  · exact .same r
  split
  · exact .same r
  · exact .dns _

/-- So is another chunk "base". -/
theorem block_packetFilter : Block calm r (reducePacketFilter response r) := by
  unfold reducePacketFilter
  split
  · exact .same r
  split
  · exact .same r
  · exact .chunks _

/-- A chunk raises the flag, or is the one that is there. -/
theorem updateFilter_eq_or_flag (filters : FinMap String (Slice FilterRule))
    (acc : FinMap String (List FilterRule) × Bool) (name : String) :
    updateFilter filters acc name = acc ∨ (updateFilter filters acc name).2 = true := by
  unfold updateFilter
  split
  · exact .inl rfl
  split
  · exact .inl rfl
  split
  · split
    · exact .inr rfl
    · exact .inl rfl
  · split
    · exact .inl rfl
    · exact .inr rfl

/-- The chunks, after those before are dropped if asked for. -/
theorem block_packetFilters : Block calm r (reducePacketFilters response r) := by
  unfold reducePacketFilters
  split
  · exact .same r
  next filters hfilters =>
  dsimp only
  generalize hstart : (if filters.get "*" = some none ∧ r.client.namedFilters.keys ≠ ∅ then
    (∅, true) else (r.client.namedFilters, false) : FinMap String (List FilterRule) × Bool) = start
  have hloop := foldl_eq_or_flag (updateFilter_eq_or_flag filters)
    (filters.sortedKeys (compare : String → String → Ordering)) start
  generalize List.foldl (updateFilter filters) start _ = acc at hloop ⊢
  split
  · exact .chunks _
  · next hflag =>
    -- an unchanged loop that started unflagged started from the client's chunks
    obtain rfl := hloop.resolve_right hflag
    split at hstart
    · exact absurd (hstart ▸ rfl) hflag
    · rw [← hstart]
      exact .same r

/-- The rules follow the chunks. -/
theorem block_flatten : Block calm r (reduceFlatten r) := by
  unfold reduceFlatten
  split
  · next hacl => exact .flatten _ hacl
  · exact .same r

/-! ### Expiry -/

/-- A node that is not marked as expired is left alone. -/
theorem markNodeExpired_of_not {t : Time} (h : (markNodeExpired node t).2 = false) :
    (markNodeExpired node t).1 = node := by
  unfold markNodeExpired at h ⊢
  split
  · rfl
  · next hlate =>
    rw [if_neg hlate] at h
    cases h

/-- The mark leaves the home region alone. -/
theorem homeDERP_markNodeExpired (node : Node) (t : Time) :
    homeDERP (some (markNodeExpired node t).1) = homeDERP (some node) := by
  unfold markNodeExpired
  split <;> rfl

/-- And what the records are made of. -/
theorem named_markNodeExpired (node : Node) (t : Time) :
    (markNodeExpired node t).1.named = node.named := by
  unfold markNodeExpired
  split <;> rfl

/-- A self node that is newly expired is announced. -/
theorem block_markSelf : Block calm r (reduceMarkSelf now r) := by
  unfold reduceMarkSelf
  split
  · exact .same r
  · next node hself =>
    dsimp only
    split
    · exact .markSelf _ hself
    · next hmarked =>
      have hsame := markNodeExpired_of_not (Bool.eq_false_iff.mpr hmarked)
      rw [hsame, ← hself]
      exact .same r

/-- An expired self node keeps the network down, whatever the state. -/
theorem Client.up_of_selfExpired (h : c.selfExpired = true) : c.up = false := by
  unfold selfExpired at h
  unfold up
  cases hself : c.self with
  | none => rfl
  | some node =>
    rw [hself, Option.any_some] at h
    simp [h]

/-- What follows from that moves no view: the network is down in both states. -/
theorem block_selfExpiry (selfWasExpired : Bool) :
    Block calm r (reduceSelfExpiry selfWasExpired now r) := by
  unfold reduceSelfExpiry
  split
  · next hexpired =>
    have hup : ∀ c : Client, c.self = r.client.self → c.up = r.client.up := by
      intro c hself
      rw [Client.up_of_selfExpired hexpired]
      refine Client.up_of_selfExpired ?_
      rw [← hexpired]
      simp only [Client.selfExpired, hself]
    dsimp only
    split <;> split <;>
      exact .aside rfl (hup _ rfl) rfl (by simp) rfl rfl rfl rfl
  · split
    · exact .aside rfl rfl rfl (by simp) rfl rfl rfl rfl
    · exact .same r

/-- Newly expired peers ask for a reconciliation. -/
theorem block_peerExpiry : Block calm r (reducePeerExpiry now r) := by
  unfold reducePeerExpiry
  dsimp only
  split
  · exact .peers rfl (by simp) rfl rfl (fun _ => rfl) (.inl rfl)
      (.inl (.inl (by simp)))
      (.inr ⟨rfl, sameRead_mapVals (fun _ node => named_markNodeExpired node _) _⟩)
  · next hexpired =>
    have hnone := FinMap.any_eq_false.mp (Bool.eq_false_iff.mpr hexpired)
    rw [FinMap.mapVals_eq_self fun id node hget => markNodeExpired_of_not (hnone id node hget)]
    exact .same r

/-- Recovery keeps the network up. -/
theorem block_recovered : Block calm r (reduceRecovered r) := by
  unfold reduceRecovered
  split
  · next hdegraded =>
    refine .aside rfl ?_ rfl (by simp) rfl rfl rfl rfl
    simp only [Client.up, Reduction.emit, hdegraded.1]
    rfl
  · exact .same r

/-! ## The section -/

/-- A sequence of blocks. -/
def Blocks (calm : Bool) : Reduction → Reduction → Prop := Relation.ReflTransGen (Block calm)

/-- The blocks before the peers. -/
theorem blocks_head : Blocks calm r (reduceHead response now r) := by
  obtain ⟨hsession, htime, hurl⟩ := block_session response now calm
  exact .head (hsession _) <| .head (htime _) <| .head (hurl _) <| .single (block_node response)

/-- The blocks about the peers, after the one for the whole list. -/
theorem blocks_afterPeers :
    Blocks calm (reducePeers response r) (reducePeerBlocks response now r) :=
  .head (block_peersChanged response) <| .head (block_peersRemoved response) <|
    .head (block_patches response) <| .single (block_seenOnline response now)

/-- The blocks after the DERP map, up to those about expiry. -/
theorem blocks_rest : Blocks calm r (reduceRest response r) := by
  obtain ⟨husers, hmetadata, hnodes⟩ := block_metadata response calm
  exact .head (block_dns response) <| .head (block_packetFilter response) <|
    .head (block_packetFilters response) <| .head block_flatten <| .head (husers _) <|
    .head (hmetadata _) <| .single (hnodes _)

/-- The blocks about expiry. -/
theorem blocks_expiry (selfWasExpired : Bool) : Blocks calm r (reduceExpiry now r selfWasExpired) :=
  .head (block_markSelf now) <| .head (block_selfExpiry now selfWasExpired) <|
    .head (block_peerExpiry now) <| .single block_recovered

/-- From the whole list of peers to the end. -/
theorem blocks_fromPeers (selfWasExpired : Bool) : Blocks false (reducePeers response r)
    (reduceExpiry now (reduceRest response (reduceDERP response (reducePeerBlocks response now r)))
      selfWasExpired) :=
  (blocks_afterPeers response now).trans <| .head (block_derp response) <|
    (blocks_rest response).trans (blocks_expiry now selfWasExpired)

/-- The section is a sequence of blocks. -/
theorem blocks_reduceMap (c : Client) : Blocks false { client := c } (reduceMap c response now) :=
  (blocks_head response now).trans <|
    .head (block_peers response) (blocks_fromPeers response now c.selfExpired)

/-! ## The promise -/

/-- `reconcilePeers` would read the same peers and home region. -/
def SameWanted (c c' : Client) : Prop :=
  c'.preferredDERP = c.preferredDERP ∧
    ∀ id, (c'.peers.get id).map Node.wanted = (c.peers.get id).map Node.wanted

/-- The bind would be given the same DERP configuration. -/
def SameDERP (c c' : Client) : Prop := c'.derpMap = c.derpMap ∧ c'.selfDERP = c.selfDERP

/-- What a sequence of blocks promises. -/
structure Reduces (r r' : Reduction) : Prop where
  untouched : r'.client.untouched = r.client.untouched
  kinds : r.kinds ⊆ r'.kinds
  requested : r.reconcileRequested = true → r'.reconcileRequested = true
  wanted : r'.reconcileRequested = true ∨ SameWanted r.client r'.client
  derp : (r'.derpBindingChanged = r.derpBindingChanged ∧ SameDERP r.client r'.client) ∨
    r'.derpBindingChanged = true ∧ r'.kinds ≠ []
  content : r'.announces ∨ r'.client.networkContent = r.client.networkContent
  preferred : (r'.preferredDERPChanged = r.preferredDERPChanged ∧
    r'.client.preferredDERP = r.client.preferredDERP) ∨
    r'.preferredDERPChanged = true ∧ r'.kinds ≠ []

theorem SameWanted.refl (c : Client) : SameWanted c c := ⟨rfl, fun _ => rfl⟩

/-- From block to block. -/
theorem SameWanted.trans {c'' : Client} (h : SameWanted c c') (h' : SameWanted c' c'') :
    SameWanted c c'' :=
  ⟨h'.1.trans h.1, fun id => (h'.2 id).trans (h.2 id)⟩

theorem SameDERP.trans {c'' : Client} (h : SameDERP c c') (h' : SameDERP c' c'') : SameDERP c c'' :=
  ⟨h'.1.trans h.1, h'.2.trans h.2⟩

/-- Events are only added. -/
theorem ne_nil_of_subset {l l' : List α} (h : l ⊆ l') (hl : l ≠ []) : l' ≠ [] :=
  fun hnil => hl (List.subset_nil.mp (hnil ▸ h))

/-- The promises of two sequences add up. -/
theorem Reduces.trans (h : Reduces r r') (h' : Reduces r' r'') : Reduces r r'' where
  untouched := h'.untouched.trans h.untouched
  kinds := List.Subset.trans h.kinds h'.kinds
  requested hr := h'.requested (h.requested hr)
  wanted := by
    rcases h'.wanted with hr | hsame'
    · exact .inl hr
    rcases h.wanted with hr | hsame
    · exact .inl (h'.requested hr)
    · exact .inr (hsame.trans hsame')
  derp := by
    rcases h'.derp with ⟨hflag', hsame'⟩ | hchanged
    · rcases h.derp with ⟨hflag, hsame⟩ | ⟨hflag, hkinds⟩
      · exact .inl ⟨hflag'.trans hflag, hsame.trans hsame'⟩
      · exact .inr ⟨hflag'.trans hflag, ne_nil_of_subset h'.kinds hkinds⟩
    · exact .inr hchanged
  content := by
    rcases h'.content with ha | hsame'
    · exact .inl ha
    rcases h.content with ha | hsame
    · exact .inl (ha.imp (h'.kinds ·) (h'.kinds ·))
    · exact .inr (hsame'.trans hsame)
  preferred := by
    rcases h'.preferred with ⟨hflag', hsame'⟩ | hchanged
    · rcases h.preferred with ⟨hflag, hsame⟩ | ⟨hflag, hkinds⟩
      · exact .inl ⟨hflag'.trans hflag, hsame'.trans hsame⟩
      · exact .inr ⟨hflag'.trans hflag, ne_nil_of_subset h'.kinds hkinds⟩
    · exact .inr hchanged

/-- The content of the network view, when the peers that are applied stay. -/
theorem networkContent_of_local (hup : c'.up = c.up) (hself : c'.self = c.self)
    (hviewed : SameRead Node.viewed c.peers c'.peers) (hdns : c'.dns = c.dns)
    (hlocal : c'.peerLocal = c.peerLocal) : c'.networkContent = c.networkContent :=
  Client.networkContent_congr hup hself hviewed hdns fun key => by
    simp only [Client.isApplied, hlocal]

/-- Every block keeps the promise. -/
theorem Block.reduces (h : Block calm r r') : Reduces r r' := by
  cases h with
  | aside huntouched hup hdata hkinds hrequested hnodes hderp hflags =>
    have hlocal : r'.client.peerLocal = r.client.peerLocal :=
      congrArg (fun data => data.2.2.2.2.1) huntouched
    obtain ⟨hbinding, hflag⟩ := Prod.mk.inj hflags
    simp only [Client.viewData, Prod.mk.injEq] at hdata
    obtain ⟨hself, hpeers, hdns, -, -, hmap, -, hpreferred, -, -, -⟩ := hdata
    refine ⟨huntouched, hkinds, hrequested.trans, .inr ⟨hpreferred, fun id => by rw [hpeers]⟩,
      .inl ⟨hbinding, hmap, ?_⟩, .inr ?_, .inl ⟨hflag, hpreferred⟩⟩
    · simp only [Client.selfDERP, hpreferred, hself]
    · exact networkContent_of_local hup hself (fun id => by rw [hpeers]) hdns hlocal
  | self node =>
    exact ⟨rfl, by simp, id, .inr (.refl _), .inr ⟨rfl, by simp⟩,
      .inl (.inl (by simp)), .inl ⟨rfl, rfl⟩⟩
  | @markSelf _ _ node t hself =>
    have hderp : ∀ self, self = some (markNodeExpired node t).1 →
        SameDERP r.client { r.client with self } := by
      intro self heq
      refine ⟨rfl, ?_⟩
      simp only [Client.selfDERP, heq, homeDERP_markNodeExpired, hself]
    exact ⟨rfl, by simp, id, .inr (.refl _), .inl ⟨rfl, hderp _ rfl⟩,
      .inl (.inl (by simp)), .inl ⟨rfl, rfl⟩⟩
  | peers hclient hkinds hderp hflags hrequested hwanted hviewed hnamed =>
    obtain ⟨hbinding, hflag⟩ := Prod.mk.inj hflags
    refine ⟨by rw [hclient]; rfl, hkinds, hrequested, hwanted.imp_right fun h => ?_,
      .inl ⟨hbinding, by rw [hclient], by rw [hclient]; rfl⟩, hviewed.imp_right fun h => ?_,
      .inl ⟨hflag, by rw [hclient]⟩⟩
    · rw [hclient]
      exact ⟨rfl, h⟩
    · rw [hclient]
      exact networkContent_of_local rfl rfl h rfl rfl
  | derp derpMap derpLatency =>
    exact ⟨rfl, by simp, id, .inr (.refl _),
      .inr ⟨rfl, by simp⟩,
      .inr (networkContent_of_local rfl rfl (fun _ => rfl) rfl rfl), .inl ⟨rfl, rfl⟩⟩
  | home derpMap derpLatency home =>
    exact ⟨rfl, by simp, fun _ => rfl, .inl rfl,
      .inr ⟨rfl, by simp⟩,
      .inr (networkContent_of_local rfl rfl (fun _ => rfl) rfl rfl),
      .inr ⟨rfl, by simp⟩⟩
  | dns dns =>
    exact ⟨rfl, by simp, id, .inr (.refl _), .inl ⟨rfl, rfl, rfl⟩,
      .inl (.inl (by simp)), .inl ⟨rfl, rfl⟩⟩
  | chunks namedFilters =>
    exact ⟨rfl, by simp, id, .inr (.refl _), .inl ⟨rfl, rfl, rfl⟩,
      .inr (networkContent_of_local rfl rfl (fun _ => rfl) rfl rfl), .inl ⟨rfl, rfl⟩⟩
  | flatten filters hacl =>
    exact ⟨rfl, List.Subset.refl _, id, .inr (.refl _), .inl ⟨rfl, rfl, rfl⟩,
      .inr (networkContent_of_local rfl rfl (fun _ => rfl) rfl rfl), .inl ⟨rfl, rfl⟩⟩

/-- Every sequence of blocks keeps the promise. -/
theorem Blocks.reduces (h : Blocks calm r r') : Reduces r r' := by
  induction h with
  | refl => exact (Block.same r : Block true r r).reduces
  | tail _ hlast ih => exact ih.trans hlast.reduces

/-- The whole section keeps the promise. -/
theorem reduces_reduceMap (c : Client) : Reduces { client := c } (reduceMap c response now) :=
  (blocks_reduceMap response now c).reduces

end

end WgoTailscale
