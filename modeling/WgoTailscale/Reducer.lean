import WgoTailscale.Clone
import WgoTailscale.DerpHome

/-!
# The map reducer (`map.go`, `applyMapResponse`)

The critical section of `applyMapResponse` is a sequence of blocks, each of which looks at a few
fields of the response, changes a few fields of the client and appends the kinds of events to
publish. A block here is a function on `Reduction`, the client together with the local variables of
the section; `reduceMap` composes them in the source's order and `applyMapResponse` is the whole
section. What the section has to do once the lock is released is part of its result.
-/

namespace WgoTailscale

/-- The client and the local variables of `applyMapResponse`. -/
structure Reduction where
  client : Client
  kinds : List EventKind := []
  derpChanged : Bool := false
  derpBindingChanged : Bool := false
  preferredDERPChanged : Bool := false
  reconcileRequested : Bool := false
  dnsNodesChanged : Bool := false

/-- Append to the kinds of events. -/
def Reduction.emit (r : Reduction) (kinds : List EventKind) : Reduction :=
  { r with kinds := r.kinds ++ kinds }

/-- The fields of a keepalive that are not ignored. -/
def keepAliveOnly (response : MapResponse) : MapResponse :=
  { keepAlive := response.keepAlive, pingRequest := response.pingRequest,
    popBrowserURL := response.popBrowserURL, controlTime := response.controlTime }

/-- The response that is applied. -/
def MapResponse.effective (response : MapResponse) : MapResponse :=
  if response.keepAlive then keepAliveOnly response else response

/-! ## Session, time and interaction -/

def reduceSession (response : MapResponse) (r : Reduction) : Reduction :=
  let r :=
    if response.mapSessionHandle ≠ "" ∧
        response.mapSessionHandle ≠ r.client.info.mapSessionHandle then
      { r with client := { r.client with info := { r.client.info with
                mapSessionHandle := response.mapSessionHandle, mapSequence := 0 } } }.emit
        [.metadata]
    else r
  if response.seq ≠ 0 ∧ response.seq ≠ r.client.info.mapSequence then
    { r with client := { r.client with info := { r.client.info with
              mapSequence := response.seq } } }.emit [.metadata]
  else r

def reduceControlTime (response : MapResponse) (now : Time) (r : Reduction) : Reduction :=
  match response.controlTime with
  | none => r
  | some value =>
    if r.client.controlTime = some value then r
    else { r with client := { r.client with
            controlTime := some value, controlTimeAt := now } }.emit [.metadata]

def reduceBrowserURL (response : MapResponse) (now : Time) (r : Reduction) : Reduction :=
  if response.popBrowserURL ≠ "" ∧ response.popBrowserURL ≠ r.client.lastBrowserURL then
    { r with client := { r.client with
        lastBrowserURL := response.popBrowserURL
        interactionID := r.client.interactionID + 1
        interaction := some
          { id := r.client.interactionID + 1, kind := .controlURL, url := response.popBrowserURL
            message := "Open this control-service URL to complete the requested action"
            since := now } } }.emit [.interaction]
  else r

/-! ## Nodes -/

def reduceNode (response : MapResponse) (r : Reduction) : Reduction :=
  match response.node with
  | none => r
  | some node =>
    if r.client.self = some (cloneControlNode node) then r
    else { r with
      client := { r.client with self := some (cloneControlNode node) }
      derpBindingChanged := true
      dnsNodesChanged := true }.emit [.self, .network]

/-- The map that a full peer list makes; a later node replaces an earlier one of the same id. -/
def peersOfList (nodes : List (Option Node)) : FinMap Int Node :=
  FinMap.ofList ((nodes.filterMap id).map fun node => (node.id, cloneControlNode node))

def reducePeers (response : MapResponse) (r : Reduction) : Reduction :=
  match response.peers with
  | none => r
  | some nodes =>
    let r := { r with reconcileRequested := true }
    if r.client.peers = peersOfList nodes then r
    else { r with
      client := { r.client with peers := peersOfList nodes }
      dnsNodesChanged := true }.emit [.peers, .network]

/-- One round of the loop over `PeersChanged`: the peers and whether one changed. -/
def changePeer (acc : FinMap Int Node × Bool) (node : Option Node) : FinMap Int Node × Bool :=
  match node with
  | none => acc
  | some node =>
    if acc.1.get node.id = some (cloneControlNode node) then acc
    else (acc.1.insert node.id (cloneControlNode node), true)

def reducePeersChanged (response : MapResponse) (r : Reduction) : Reduction :=
  let changed := Slice.list response.peersChanged
  let (peers, changedPeers) := changed.foldl changePeer (r.client.peers, false)
  let r := { r with
    client := { r.client with peers }
    reconcileRequested := r.reconcileRequested || !changed.isEmpty }
  if changedPeers then { r with dnsNodesChanged := true }.emit [.peers, .network] else r

/-- One round of the loop over `PeersRemoved`. -/
def removePeerID (acc : FinMap Int Node × Bool) (id : Int) : FinMap Int Node × Bool :=
  if id ∈ acc.1 then (acc.1.erase id, true) else acc

def reducePeersRemoved (response : MapResponse) (r : Reduction) : Reduction :=
  let removed := Slice.list response.peersRemoved
  let (peers, removedPeers) := removed.foldl removePeerID (r.client.peers, false)
  let r := { r with
    client := { r.client with peers }
    reconcileRequested := r.reconcileRequested || !removed.isEmpty }
  if removedPeers then { r with dnsNodesChanged := true }.emit [.peers, .network] else r

/-- `peerPatchChangesPath`, of a patch that is not nil. -/
def peerPatchChangesPath (patch : PeerChange) : Bool :=
  patch.derpRegion ≠ 0 ∨ patch.endpoints.isSome ∨ patch.key.isSome ∨ patch.discoKey.isSome

/-- `applyPeerPatchLocked`, on the node it finds. -/
def applyPeerPatch (patch : PeerChange) (node : Node) : Node :=
  { node with
    homeDERP := if patch.derpRegion ≠ 0 then patch.derpRegion else node.homeDERP
    cap := if patch.cap ≠ 0 then patch.cap else node.cap
    capMap := if patch.capMap.isSome then cloneCapabilityMap patch.capMap else node.capMap
    endpoints := if patch.endpoints.isSome then normalizeAddrPorts patch.endpoints
      else node.endpoints
    key := patch.key.getD node.key
    keySignature := if patch.keySignature.isSome then patch.keySignature else node.keySignature
    discoKey := patch.discoKey.getD node.discoKey
    online := if patch.online.isSome then patch.online else node.online
    lastSeen := if patch.lastSeen.isSome then patch.lastSeen else node.lastSeen
    keyExpiry := patch.keyExpiry.getD node.keyExpiry }

/-- The variables of the loop over `PeersChangedPatch`. -/
structure PatchLoop where
  peers : FinMap Int Node
  patchedPeers : Bool := false
  reconcileRequested : Bool := false

/-- One round of the loop over `PeersChangedPatch`. A change is seen by comparing the node with the
copy taken before. -/
def patchPeer (acc : PatchLoop) (patch : Option PeerChange) : PatchLoop :=
  match patch with
  | none => acc
  | some patch =>
    match acc.peers.get patch.nodeID with
    | none => acc
    | some node =>
      { peers := acc.peers.insert patch.nodeID (applyPeerPatch patch node)
        patchedPeers := acc.patchedPeers || cloneControlNode node ≠ applyPeerPatch patch node
        reconcileRequested := acc.reconcileRequested || peerPatchChangesPath patch }

def reducePatches (response : MapResponse) (r : Reduction) : Reduction :=
  let loop := (Slice.list response.peersChangedPatch).foldl patchPeer { peers := r.client.peers }
  let r := { r with
    client := { r.client with peers := loop.peers }
    reconcileRequested := r.reconcileRequested || loop.reconcileRequested }
  if loop.patchedPeers then r.emit [.peers] else r

/-- The loops over `PeerSeenChange` and `OnlineChange`, whose rounds concern different peers. -/
def reduceSeenOnline (response : MapResponse) (now : Time) (r : Reduction) : Reduction :=
  let value := response.controlTime.getD now
  let see (id : Int) (node : Node) : Node :=
    match GoMap.get response.peerSeenChange id with
    | some true => { node with lastSeen := some value }
    | some false => { node with lastSeen := none }
    | none => node
  let turn (id : Int) (node : Node) : Node :=
    match GoMap.get response.onlineChange id with
    | some online => { node with online := some online }
    | none => node
  let seenChanged := r.client.peers.any fun id node =>
    match GoMap.get response.peerSeenChange id with
    | some true => true
    | some false => node.lastSeen.isSome
    | none => false
  let onlineChanged := r.client.peers.any fun id node =>
    match GoMap.get response.onlineChange id with
    | some online => decide (node.online ≠ some online)
    | none => false
  let r := { r with client := { r.client with
    peers := (r.client.peers.mapVals see).mapVals turn } }
  if seenChanged || onlineChanged then r.emit [.peers] else r

/-! ## DERP, DNS, filters and profiles -/

def reduceDERP (response : MapResponse) (r : Reduction) : Reduction :=
  match response.derpMap with
  | none => r
  | some update =>
    let next := mergeDERPMap r.client.derpMap update
    if r.client.derpMap = next then r
    else
      let derpLatency := r.client.derpLatency.filter fun id _ =>
        usableDERPRegion (regionOf next id)
      let preferred :=
        if r.client.opts.disableDERP then 0
        else choosePreferredDERPMeasured next r.client.preferredDERP derpLatency
      let changed := preferred ≠ r.client.preferredDERP
      let r := { r with
        client := { r.client with derpMap := next, derpLatency }
        derpChanged := true
        derpBindingChanged := true }
      let r := if changed then { r with
            client := { r.client with
              preferredDERP := preferred
              info := { r.client.info with preferredDERP := preferred } }
            preferredDERPChanged := true
            reconcileRequested := true }.emit [.metadata]
        else r
      r.emit [.derp]

def reduceDNS (response : MapResponse) (r : Reduction) : Reduction :=
  match response.dnsConfig with
  | none => r
  | some config =>
    if r.client.dns = some (cloneDNSConfig config) then r
    else { r with client := { r.client with dns := some (cloneDNSConfig config) } }.emit
      [.dns, .network]

def reducePacketFilter (response : MapResponse) (r : Reduction) : Reduction :=
  match response.packetFilter with
  | none => r
  | some rules =>
    if r.client.namedFilters.get "base" = some (cloneFilters rules) then r
    else { r with client := { r.client with
            namedFilters := r.client.namedFilters.insert "base" (cloneFilters rules) } }.emit [.acl]

/-- One round of the loop over `PacketFilters`. -/
def updateFilter (filters : FinMap String (Slice FilterRule))
    (acc : FinMap String (List FilterRule) × Bool) (name : String) :
    FinMap String (List FilterRule) × Bool :=
  match filters.get name with
  | none => acc
  | some value =>
    if name = "*" then acc
    else match value with
      | none => if name ∈ acc.1 then (acc.1.erase name, true) else acc
      | some rules =>
        if acc.1.get name = some (cloneFilters rules) then acc
        else (acc.1.insert name (cloneFilters rules), true)

def reducePacketFilters (response : MapResponse) (r : Reduction) : Reduction :=
  match response.packetFilters with
  | none => r
  | some filters =>
    let cleared := filters.get "*" = some none ∧ r.client.namedFilters.keys ≠ ∅
    let start : FinMap String (List FilterRule) × Bool :=
      if cleared then (∅, true) else (r.client.namedFilters, false)
    let (namedFilters, filtersChanged) :=
      (filters.sortedKeys (compare : String → String → Ordering)).foldl (updateFilter filters) start
    let r := { r with client := { r.client with namedFilters } }
    if filtersChanged then r.emit [.acl] else r

/-- `flattenFiltersLocked`. -/
def flattenFilters (namedFilters : FinMap String (List FilterRule)) : List FilterRule :=
  (namedFilters.sortedKeys (compare : String → String → Ordering)).flatMap fun name =>
    cloneFilters ((namedFilters.get name).getD [])

def reduceFlatten (r : Reduction) : Reduction :=
  if .acl ∈ r.kinds then
    { r with client := { r.client with filters := flattenFilters r.client.namedFilters } }
  else r

/-- One round of the loop over `UserProfiles`. -/
def updateUser (acc : List UserProfile × Bool) (update : UserProfile) : List UserProfile × Bool :=
  match acc.1.findIdx? fun user => user.id = update.id with
  | none => (acc.1 ++ [update], true)
  | some index => if acc.1[index]? = some update then acc else (acc.1.set index update, true)

def reduceUsers (response : MapResponse) (r : Reduction) : Reduction :=
  match response.userProfiles with
  | none => r
  | some profiles =>
    let (users, usersChanged) := profiles.foldl updateUser (r.client.users, false)
    let r := { r with client := { r.client with users } }
    if usersChanged then r.emit [.users] else r

def reduceMetadata (response : MapResponse) (r : Reduction) : Reduction :=
  let r :=
    if response.domain ≠ "" ∧ response.domain ≠ r.client.domain then
      { r with client := { r.client with domain := response.domain } }.emit [.metadata]
    else r
  match response.health with
  | none => r
  | some health =>
    if health = r.client.health then r
    else { r with client := { r.client with health } }.emit [.metadata]

def reduceDNSNodes (r : Reduction) : Reduction := if r.dnsNodesChanged then r.emit [.dns] else r

/-! ## Expiry and the state -/

/-- `markNodeExpired`, of a node that is not nil: the node and whether it was marked. -/
def markNodeExpired (node : Node) (now : Time) : Node × Bool :=
  if node.expired ∨ node.keyExpiry = 0 ∨ now < node.keyExpiry then (node, false)
  else ({ node with expired := true }, true)

/-- The time that expiry is measured against: control's, carried forward. -/
def Client.expiryNow (c : Client) (now : Time) : Time :=
  match c.controlTime with
  | some value => if c.controlTimeAt ≠ 0 then value + (now - c.controlTimeAt) else now
  | none => now

/-- `c.self != nil && c.self.Expired`. -/
def Client.selfExpired (c : Client) : Bool := c.self.any fun node => node.expired

def reduceMarkSelf (now : Time) (r : Reduction) : Reduction :=
  match r.client.self with
  | none => r
  | some node =>
    let (node, marked) := markNodeExpired node (r.client.expiryNow now)
    let r := { r with client := { r.client with self := some node } }
    if marked then r.emit [.self, .network] else r

/-- What an expired self node, or one no longer expired, does to the interaction and the state. -/
def reduceSelfExpiry (selfWasExpired : Bool) (now : Time) (r : Reduction) : Reduction :=
  if r.client.selfExpired then
    let r :=
      if selfWasExpired then r
      else { r with client := { r.client with
              interactionID := r.client.interactionID + 1
              interaction := some
                { id := r.client.interactionID + 1, kind := .nodeKeyExpired, url := ""
                  message := errNodeKeyExpired, since := now } } }.emit [.interaction]
    let r :=
      if r.client.state = .degraded then r
      else { r with client := { r.client with state := .degraded } }.emit [.state]
    { r with client := { r.client with lastError := errNodeKeyExpired } }
  else if selfWasExpired ∧ r.client.interaction.any (fun i => i.kind = .nodeKeyExpired) then
    { r with client := { r.client with interaction := none } }.emit [.interaction]
  else r

def reducePeerExpiry (now : Time) (r : Reduction) : Reduction :=
  let expiryNow := r.client.expiryNow now
  let peerExpired := r.client.peers.any fun _ node => (markNodeExpired node expiryNow).2
  let r := { r with client := { r.client with
    peers := r.client.peers.mapVals fun _ node => (markNodeExpired node expiryNow).1 } }
  if peerExpired then { r with reconcileRequested := true }.emit [.peers, .network] else r

def reduceRecovered (r : Reduction) : Reduction :=
  if r.client.state = .degraded ∧ r.client.selfExpired = false ∧
      r.client.interaction.all (fun i => i.kind ≠ .nodeKeyExpired) then
    { r with client := { r.client with state := .running, lastError := "" } }.emit [.state]
  else r

/-! ## The section -/

/-- The blocks of `applyMapResponse`, in order. -/
def reduceMap (c : Client) (response : MapResponse) (now : Time) : Reduction :=
  { client := c : Reduction }
    |> reduceSession response
    |> reduceControlTime response now
    |> reduceBrowserURL response now
    |> reduceNode response
    |> reducePeers response
    |> reducePeersChanged response
    |> reducePeersRemoved response
    |> reducePatches response
    |> reduceSeenOnline response now
    |> reduceDERP response
    |> reduceDNS response
    |> reducePacketFilter response
    |> reducePacketFilters response
    |> reduceFlatten
    |> reduceUsers response
    |> reduceMetadata response
    |> reduceDNSNodes
    |> reduceMarkSelf now
    |> reduceSelfExpiry c.selfExpired now
    |> reducePeerExpiry now
    |> reduceRecovered

/-- `uniqueEventKinds`: the kinds in the order of their first occurrence. -/
def uniqueEventKinds (kinds : List EventKind) : List EventKind :=
  kinds.foldl (fun result kind => if kind ∈ result then result else result ++ [kind]) []

/-- The revisions that `applyMapResponse` sets once there is anything to publish. -/
def Reduction.stamp (r : Reduction) (now : Time) : Client :=
  let c := r.client.bump now
  { c with
    dnsRevision := if .dns ∈ r.kinds then c.revision else c.dnsRevision
    aclRevision := if .acl ∈ r.kinds then c.revision else c.aclRevision
    networkRevision :=
      if .network ∈ r.kinds ∨ .peers ∈ r.kinds then c.revision else c.networkRevision
    derpRevision := if r.derpChanged then c.revision else c.derpRevision }

end WgoTailscale
