import WgoTailscale.Reducer

/-!
# What the map reducer writes

A block of `applyMapResponse` compares before it writes, so that it can announce a change. What it
leaves in the client does not depend on the comparison, and it is said here once for every block:
the client of the result is the old one with a few fields set. `peers_reduceMap` puts together what
the whole section makes of the peers.
-/

namespace WgoTailscale

/-- A block that compares before it writes leaves what it would have written. -/
theorem client_compared {p : Prop} [Decidable p] {r r' : Reduction} (h : p → r.client = r'.client) :
    (if p then r else r').client = r'.client := by
  split
  · next hp => exact h hp
  · rfl

section
variable (response : MapResponse) (now : Time) (r : Reduction)

/-! ## Session, time and interaction -/

/-- The session block stores its handle and sequence. -/
theorem client_reduceSession : ∃ handle seq, (reduceSession response r).client = { r.client with
    info := { r.client.info with mapSessionHandle := handle, mapSequence := seq } } := by
  unfold reduceSession
  dsimp only
  split <;> split <;> exact ⟨_, _, rfl⟩

/-- Control's time is stored, and when it came if it is another one. -/
theorem client_reduceControlTime : (reduceControlTime response now r).client = { r.client with
    controlTime := response.controlTime.or r.client.controlTime
    controlTimeAt := if response.controlTime.isNone ∨ r.client.controlTime = response.controlTime
      then r.client.controlTimeAt else now } := by
  unfold reduceControlTime
  cases response.controlTime with
  | none => simp
  | some value =>
    dsimp only
    split
    · next heq =>
      rw [if_pos (.inr heq)]
      show r.client = { r.client with controlTime := some value }
      rw [← heq]
    · next hne =>
      rw [if_neg fun h => h.elim (by simp) hne]
      rfl

/-- The browser URL opens an interaction. -/
theorem client_reduceBrowserURL : ∃ url id interaction,
    (reduceBrowserURL response now r).client = { r.client with
      lastBrowserURL := url, interactionID := id, interaction := interaction } := by
  unfold reduceBrowserURL
  split <;> exact ⟨_, _, _, rfl⟩

/-! ## Nodes -/

/-- The self node is a copy of the one that came. -/
theorem client_reduceNode : (reduceNode response r).client = { r.client with
    self := (response.node.map cloneControlNode).or r.client.self } := by
  unfold reduceNode
  cases response.node with
  | none => rfl
  | some node => exact client_compared fun heq => congrArg ({ r.client with self := · }) heq

/-- A full list replaces the peers. -/
theorem client_reducePeers : (reducePeers response r).client = { r.client with
    peers := (response.peers.map peersOfList).getD r.client.peers } := by
  unfold reducePeers
  cases response.peers with
  | none => rfl
  | some nodes => exact client_compared fun heq => congrArg ({ r.client with peers := · }) heq

/-- Changed peers are filed one by one. -/
theorem client_reducePeersChanged : (reducePeersChanged response r).client = { r.client with
    peers := ((Slice.list response.peersChanged).foldl changePeer (r.client.peers, false)).1 } := by
  unfold reducePeersChanged
  dsimp only
  split <;> rfl

/-- Removed peers go one by one. -/
theorem client_reducePeersRemoved : (reducePeersRemoved response r).client = { r.client with
    peers := ((Slice.list response.peersRemoved).foldl removePeerID
      (r.client.peers, false)).1 } := by
  unfold reducePeersRemoved
  dsimp only
  split <;> rfl

/-- Patches touch the peers only. -/
theorem client_reducePatches : (reducePatches response r).client = { r.client with
    peers := ((Slice.list response.peersChangedPatch).foldl patchPeer
      { peers := r.client.peers }).peers } := by
  unfold reducePatches
  dsimp only
  split <;> rfl

/-- What `PeerSeenChange` and `OnlineChange` make of a peer. -/
def MapResponse.observe (id : Int) (node : Node) : Node :=
  let value := response.controlTime.getD now
  let node := match GoMap.get response.peerSeenChange id with
    | some true => { node with lastSeen := some value }
    | some false => { node with lastSeen := none }
    | none => node
  match GoMap.get response.onlineChange id with
    | some online => { node with online := some online }
    | none => node

/-- The two loops over the peers are one pass. -/
theorem client_reduceSeenOnline : (reduceSeenOnline response now r).client = { r.client with
    peers := r.client.peers.mapVals (response.observe now) } := by
  have hpeers (see turn : Int → Node → Node) : (r.client.peers.mapVals see).mapVals turn =
      r.client.peers.mapVals fun id node => turn id (see id node) :=
    FinMap.ext_get fun id => by simp [Option.map_map, Function.comp_def]
  unfold reduceSeenOnline
  dsimp only
  rw [hpeers]
  split <;> rfl

/-! ## DERP, DNS, filters and profiles -/

/-- The home region for a map and measurements. -/
def Client.homeFor (c : Client) (derpMap : Option DERPMap)
    (derpLatency : FinMap Int DERPRegionLatency) : Int :=
  if c.opts.disableDERP then 0 else choosePreferredDERPMeasured derpMap c.preferredDERP derpLatency

/-- The client with another DERP map: the measurements of regions that are not usable any more go,
and the home region is chosen again. -/
def Client.withDERPMap (c : Client) (next : Option DERPMap) : Client :=
  let derpLatency := c.derpLatency.filter fun id _ => usableDERPRegion (regionOf next id)
  let home := c.homeFor next derpLatency
  { c with
    derpMap := next, derpLatency := derpLatency, preferredDERP := home
    info := if home = c.preferredDERP then c.info else { c.info with preferredDERP := home } }

/-- The DERP map stays if merging changes nothing; another one is installed. -/
theorem client_reduceDERP_cases :
    reduceDERP response r = r ∧ (∀ update, response.derpMap = some update →
        r.client.derpMap = mergeDERPMap r.client.derpMap update) ∨
      ∃ update, response.derpMap = some update ∧
        r.client.derpMap ≠ mergeDERPMap r.client.derpMap update ∧
        (reduceDERP response r).client =
          r.client.withDERPMap (mergeDERPMap r.client.derpMap update) := by
  unfold reduceDERP
  cases response.derpMap with
  | none => exact .inl ⟨rfl, nofun⟩
  | some update =>
    by_cases heq : r.client.derpMap = mergeDERPMap r.client.derpMap update
    · exact .inl ⟨if_pos heq, fun _ h => Option.some.inj h ▸ heq⟩
    refine .inr ⟨update, rfl, heq, ?_⟩
    dsimp only
    rw [if_neg heq]
    unfold Client.withDERPMap Client.homeFor
    dsimp only
    generalize (if r.client.opts.disableDERP = true then (0 : Int) else _) = home
    by_cases hsame : home = r.client.preferredDERP
    · rw [if_neg (not_not.mpr hsame), if_pos hsame, hsame]
      rfl
    · rw [if_pos hsame, if_neg hsame]
      rfl

/-- In both cases the map is the merged one. -/
theorem client_reduceDERP : ∃ derpLatency home home',
    (reduceDERP response r).client = { r.client with
      derpMap := response.derpMap.elim r.client.derpMap (mergeDERPMap r.client.derpMap)
      derpLatency := derpLatency, preferredDERP := home
      info := { r.client.info with preferredDERP := home' } } := by
  rcases client_reduceDERP_cases response r with ⟨heq, hsame⟩ | ⟨update, hupdate, -, heq⟩
  · have hmap : response.derpMap.elim r.client.derpMap (mergeDERPMap r.client.derpMap) =
        r.client.derpMap := by
      cases hupdate : response.derpMap with
      | none => rfl
      | some update => exact (hsame update hupdate).symm
    rw [heq, hmap]
    exact ⟨_, _, _, rfl⟩
  · rw [heq, hupdate]
    unfold Client.withDERPMap
    dsimp only
    split <;> exact ⟨_, _, _, rfl⟩

/-- The DNS configuration is a copy of the one that came. -/
theorem client_reduceDNS : (reduceDNS response r).client = { r.client with
    dns := (response.dnsConfig.map cloneDNSConfig).or r.client.dns } := by
  unfold reduceDNS
  cases response.dnsConfig with
  | none => rfl
  | some config => exact client_compared fun heq => congrArg ({ r.client with dns := · }) heq

/-- `PacketFilter` is the chunk "base". -/
theorem client_reducePacketFilter : (reducePacketFilter response r).client = { r.client with
    namedFilters := match response.packetFilter with
      | none => r.client.namedFilters
      | some rules => r.client.namedFilters.insert "base" (cloneFilters rules) } := by
  unfold reducePacketFilter
  cases response.packetFilter with
  | none => rfl
  | some rules =>
    exact client_compared fun heq =>
      congrArg ({ r.client with namedFilters := · }) (FinMap.insert_eq_self heq).symm

/-- `PacketFilters` writes the chunks. -/
theorem client_reducePacketFilters : ∃ namedFilters, (reducePacketFilters response r).client =
    { r.client with namedFilters := namedFilters } := by
  unfold reducePacketFilters
  split
  · exact ⟨_, rfl⟩
  dsimp only
  generalize List.foldl (updateFilter _) _ _ = acc
  split <;> exact ⟨_, rfl⟩

/-- The rules are put together again if the ACL has changed. -/
theorem client_reduceFlatten : (reduceFlatten r).client = { r.client with
    filters := if .acl ∈ r.kinds then flattenFilters r.client.namedFilters
      else r.client.filters } := by
  unfold reduceFlatten
  split <;> rfl

/-- Profiles are stored one by one. -/
theorem client_reduceUsers : (reduceUsers response r).client = { r.client with
    users := ((Slice.list response.userProfiles).foldl updateUser (r.client.users, false)).1 } := by
  unfold reduceUsers
  cases response.userProfiles with
  | none => rfl
  | some profiles =>
    dsimp only
    split <;> rfl

/-- This block only announces. -/
theorem client_reduceDNSNodes : (reduceDNSNodes r).client = r.client := by
  unfold reduceDNSNodes
  split <;> rfl

/-- The domain and the health texts stay where nothing came. -/
theorem client_reduceMetadata : (reduceMetadata response r).client = { r.client with
    domain := if response.domain = "" then r.client.domain else response.domain
    health := response.health.getD r.client.health } := by
  unfold reduceMetadata
  dsimp only
  repeat' split
  all_goals simp_all [Reduction.emit]

/-! ## Expiry and the state -/

/-- The self node is marked if it is expired. -/
theorem client_reduceMarkSelf : (reduceMarkSelf now r).client = { r.client with
    self := r.client.self.map fun node => (markNodeExpired node (r.client.expiryNow now)).1 } := by
  unfold reduceMarkSelf
  cases hself : r.client.self with
  | none =>
    show r.client = { r.client with self := none }
    rw [← hself]
  | some node =>
    dsimp only
    split <;> rfl

/-- An expired self node degrades the client; its interaction is opened and closed. -/
theorem client_reduceSelfExpiry (selfWasExpired : Bool) : ∃ id interaction state lastError,
    (reduceSelfExpiry selfWasExpired now r).client = { r.client with
      interactionID := id, interaction := interaction, state := state
      lastError := lastError } := by
  unfold reduceSelfExpiry
  split
  · dsimp only
    split <;> split <;> exact ⟨_, _, _, _, rfl⟩
  · split <;> exact ⟨_, _, _, _, rfl⟩

/-- The peers are marked that are expired. -/
theorem client_reducePeerExpiry : (reducePeerExpiry now r).client = { r.client with
    peers := r.client.peers.mapVals fun _ node =>
      (markNodeExpired node (r.client.expiryNow now)).1 } := by
  unfold reducePeerExpiry
  dsimp only
  split <;> rfl

/-- A client that is degraded for another reason recovers. -/
theorem client_reduceRecovered : ∃ state lastError, (reduceRecovered r).client =
    { r.client with state := state, lastError := lastError } := by
  unfold reduceRecovered
  split <;> exact ⟨_, _, rfl⟩

/-! ## The section in four parts

Around the DERP map, the section has a part for the session, the time and the self node, one for the
peers, one for the rest of the response, and one that looks at expiry last. -/

/-- The blocks before the peers. -/
def reduceHead : Reduction :=
  r |> reduceSession response |> reduceControlTime response now |> reduceBrowserURL response now
    |> reduceNode response

/-- The blocks about the peers. -/
def reducePeerBlocks : Reduction :=
  r |> reducePeers response |> reducePeersChanged response |> reducePeersRemoved response
    |> reducePatches response |> reduceSeenOnline response now

/-- The blocks after the DERP map that do not look at expiry. -/
def reduceRest : Reduction :=
  r |> reduceDNS response |> reducePacketFilter response |> reducePacketFilters response
    |> reduceFlatten |> reduceUsers response |> reduceMetadata response |> reduceDNSNodes

/-- The blocks that look at expiry. -/
def reduceExpiry (selfWasExpired : Bool) : Reduction :=
  r |> reduceMarkSelf now |> reduceSelfExpiry selfWasExpired now |> reducePeerExpiry now
    |> reduceRecovered

/-- The section is its parts, with the DERP map between them. -/
theorem reduceMap_eq_parts (c : Client) : reduceMap c response now =
    ({ client := c : Reduction } |> reduceHead response now |> reducePeerBlocks response now
      |> reduceDERP response |> reduceRest response |> (reduceExpiry now · c.selfExpired)) :=
  rfl

/-- The time at which control's time was received, after a response. -/
def Client.controlTimeAtAfter (c : Client) : Time :=
  if response.controlTime.isNone ∨ c.controlTime = response.controlTime then c.controlTimeAt
  else now

/-- What the first part writes. -/
theorem client_reduceHead : ∃ handle seq url id interaction,
    (reduceHead response now r).client = { r.client with
      info := { r.client.info with mapSessionHandle := handle, mapSequence := seq }
      controlTime := response.controlTime.or r.client.controlTime
      controlTimeAt := r.client.controlTimeAtAfter response now
      lastBrowserURL := url, interactionID := id, interaction := interaction
      self := (response.node.map cloneControlNode).or r.client.self } := by
  obtain ⟨handle, seq, hsession⟩ := client_reduceSession response r
  have htime := client_reduceControlTime response now (reduceSession response r)
  obtain ⟨url, id, interaction, hurl⟩ := client_reduceBrowserURL response now
    (reduceControlTime response now (reduceSession response r))
  have hnode := client_reduceNode response
    (reduceBrowserURL response now (reduceControlTime response now (reduceSession response r)))
  rw [hsession] at htime
  rw [htime] at hurl
  rw [hurl] at hnode
  exact ⟨handle, seq, url, id, interaction, hnode⟩

/-- The peers after a response, before their expiry is looked at. -/
def MapResponse.peersAfter (peers : FinMap Int Node) : FinMap Int Node :=
  let full := (response.peers.map peersOfList).getD peers
  let changed := ((Slice.list response.peersChanged).foldl changePeer (full, false)).1
  let removed := ((Slice.list response.peersRemoved).foldl removePeerID (changed, false)).1
  let patched :=
    ((Slice.list response.peersChangedPatch).foldl patchPeer { peers := removed }).peers
  patched.mapVals (response.observe now)

/-- What the part for the peers writes. -/
theorem client_reducePeerBlocks : (reducePeerBlocks response now r).client = { r.client with
    peers := response.peersAfter now r.client.peers } := by
  unfold reducePeerBlocks
  rw [client_reduceSeenOnline, client_reducePatches, client_reducePeersRemoved,
    client_reducePeersChanged, client_reducePeers]
  rfl

/-- What the part after the DERP map writes. -/
theorem client_reduceRest : ∃ namedFilters filters,
    (reduceRest response r).client = { r.client with
      dns := (response.dnsConfig.map cloneDNSConfig).or r.client.dns
      namedFilters := namedFilters, filters := filters
      users := ((Slice.list response.userProfiles).foldl updateUser (r.client.users, false)).1
      domain := if response.domain = "" then r.client.domain else response.domain
      health := response.health.getD r.client.health } := by
  have hdns := client_reduceDNS response r
  have hfilter := client_reducePacketFilter response (reduceDNS response r)
  rw [hdns] at hfilter
  obtain ⟨namedFilters, hfilters⟩ := client_reducePacketFilters response
    (reducePacketFilter response (reduceDNS response r))
  rw [hfilter] at hfilters
  unfold reduceRest
  rw [client_reduceDNSNodes, client_reduceMetadata, client_reduceUsers, client_reduceFlatten,
    hfilters]
  exact ⟨_, _, rfl⟩

/-- What the last part writes. -/
theorem client_reduceExpiry (selfWasExpired : Bool) : ∃ id interaction state lastError,
    (reduceExpiry now r selfWasExpired).client = { r.client with
      self := r.client.self.map fun node => (markNodeExpired node (r.client.expiryNow now)).1
      peers := r.client.peers.mapVals fun _ node =>
        (markNodeExpired node (r.client.expiryNow now)).1
      interactionID := id, interaction := interaction, state := state
      lastError := lastError } := by
  obtain ⟨id, interaction, state, lastError, hself⟩ :=
    client_reduceSelfExpiry now (reduceMarkSelf now r) selfWasExpired
  rw [client_reduceMarkSelf] at hself
  obtain ⟨state', lastError', hrecovered⟩ := client_reduceRecovered
    (reducePeerExpiry now (reduceSelfExpiry selfWasExpired now (reduceMarkSelf now r)))
  rw [client_reducePeerExpiry, hself] at hrecovered
  exact ⟨id, interaction, state', lastError', hrecovered⟩

/-- The time that a response's expiry check uses: control's last time, carried forward from when it
was received. -/
def Client.timeFor (c : Client) : Time :=
  Client.expiryNow { c with
    controlTime := response.controlTime.or c.controlTime
    controlTimeAt := c.controlTimeAtAfter response now } now

end

section
variable (c : Client) (response : MapResponse) (now : Time)

/-- The blocks before the expiry of the self node. -/
def reduceFacts : Reduction :=
  { client := c : Reduction } |> reduceHead response now |> reducePeerBlocks response now
    |> reduceDERP response |> reduceRest response

/-- What these blocks write, but for the interaction and the filters. -/
theorem client_reduceFacts : ∃ info url id derpLatency home namedFilters filters,
    (reduceFacts c response now).client = { c with
      info := info, lastBrowserURL := url, interactionID := id
      interaction := (reduceHead response now { client := c }).client.interaction
      controlTime := response.controlTime.or c.controlTime
      controlTimeAt := c.controlTimeAtAfter response now
      self := (response.node.map cloneControlNode).or c.self
      peers := response.peersAfter now c.peers
      derpMap := response.derpMap.elim c.derpMap (mergeDERPMap c.derpMap)
      derpLatency := derpLatency, preferredDERP := home
      dns := (response.dnsConfig.map cloneDNSConfig).or c.dns
      namedFilters := namedFilters, filters := filters
      users := ((Slice.list response.userProfiles).foldl updateUser (c.users, false)).1
      domain := if response.domain = "" then c.domain else response.domain
      health := response.health.getD c.health } := by
  obtain ⟨_, _, _, _, _, hhead⟩ := client_reduceHead response now { client := c }
  obtain ⟨_, _, _, hderp⟩ := client_reduceDERP response
    (reducePeerBlocks response now (reduceHead response now { client := c }))
  obtain ⟨_, _, hrest⟩ := client_reduceRest response (reduceDERP response
    (reducePeerBlocks response now (reduceHead response now { client := c })))
  unfold reduceFacts
  rw [hrest, hderp, client_reducePeerBlocks, hhead]
  exact ⟨_, _, _, _, _, _, _, rfl⟩

/-- What the section makes of the peers. -/
theorem peers_reduceMap : (reduceMap c response now).client.peers =
    (response.peersAfter now c.peers).mapVals fun _ node =>
      (markNodeExpired node (c.timeFor response now)).1 := by
  obtain ⟨_, _, _, _, _, _, _, hfacts⟩ := client_reduceFacts c response now
  obtain ⟨_, _, _, _, hexpiry⟩ := client_reduceExpiry now (reduceFacts c response now) c.selfExpired
  rw [reduceMap_eq_parts]
  refine (congrArg Client.peers hexpiry).trans ?_
  rw [hfacts]
  rfl

end

end WgoTailscale
