import WgoTailscale.Device
import WgoTailscale.Reducer

/-!
# The critical sections of the client (`client.go`, `confirmation.go`, `device.go`, `map.go`)

Everything that changes what `Client.mu` guards happens in one of the sections below. A section is a
function from the client to the client, the events it built under the lock, and the calls that its
caller makes once the lock is released. `Section` names them all, so that the steps of the program
that change the client can be enumerated; `Section.run` is their meaning.
-/

namespace WgoTailscale

/-- What remains to be done after a section. The DERP configuration is the pair taken under the
lock; `revision`, which only tells one such pair from another, is the client's revision then. -/
inductive Call where
  | answerControlPing (ping : PingRequest)
  | updateDERPMap (derpMap : Option DERPMap) (selfDERP : Int) (revision : Nat)
  | reconcilePeers
  | requestPeerReconcile
  | signalEndpointUpdate
  | storeCache (cache : CacheState)

/-- The result of a section. -/
structure Done where
  client : Client
  events : List Event := []
  calls : List Call := []

namespace Client

/-! ## Map responses -/

/-- The check before the section of `applyMapResponse`: the self node must carry the device's key. -/
def nodeKeyMismatch (c : Client) (response : MapResponse) : Bool :=
  response.effective.node.any fun node =>
    !c.nodePrivate.isZero && node.key ≠ c.nodePrivate.publicNode c.opts.packages

/-- `applyMapResponse`, the section. -/
def applyMapResponse (c : Client) (response : MapResponse) (now : Time) : Done :=
  let response := response.effective
  let r := reduceMap c response now
  let ping := match response.pingRequest with
    | some ping => if ping.url ≠ "" then [.answerControlPing ping] else []
    | none => []
  let reconcile := if r.reconcileRequested then [.reconcilePeers] else []
  if r.kinds = [] then { client := r.client, calls := ping ++ reconcile }
  else
    let c := r.stamp now
    { client := c
      events := (uniqueEventKinds r.kinds).map fun kind => c.event kind
      calls := ping ++
        (if r.derpBindingChanged then
          [.updateDERPMap (cloneDERPMap c.derpMap) c.selfDERP c.revision] else []) ++
        reconcile ++ (if r.preferredDERPChanged then [.signalEndpointUpdate] else []) }

/-! ## Confirmations -/

/-- `syncConfirmedCacheLocked`. -/
def syncConfirmedCache (c : Client) : Client :=
  { c with cache := { c.cache with
    confirmedPeerIDs := FinMap.sortedElems (compare : String → String → Ordering) c.confirmed } }

/-- The end of `ConfirmPeer` and `RevokePeerConfirmation` once the confirmed set is changed. -/
def confirmationChanged (c : Client) (now : Time) : Done :=
  let c := c.syncConfirmedCache.bump now
  { client := c, events := [c.event .peers], calls := [.storeCache c.cache, .reconcilePeers] }

/-- `ConfirmPeer`, the section. -/
def confirmPeer (c : Client) (id : String) (now : Time) : Done :=
  if c.state.isStop then { client := c }
  else if c.peers.any fun _ node => peerID node = id then
    { c with confirmed := insert id c.confirmed }.confirmationChanged now
  else { client := c }

/-- `RevokePeerConfirmation`, the section. -/
def revokePeerConfirmation (c : Client) (id : String) (now : Time) : Done :=
  if c.state.isStop then { client := c }
  else if id ∈ c.confirmed then
    { c with confirmed := c.confirmed.erase id }.confirmationChanged now
  else { client := c }

/-! ## Callbacks of the bind -/

end Client

/-- `tailnet.PathUpdate`. -/
structure PathUpdate where
  nodeKey : NodePublic
  kind : String
  direct : AddrPort
  latency : Duration
  time : Time

/-- `tailnet.DERPLatencyReport`. -/
structure DERPLatencyReport where
  regions : List DERPRegionLatency
  full : Bool

namespace Client

/-- `onEndpoints`, the section. -/
def onEndpoints (c : Client) (endpoints : List EndpointCandidate) (now : Time) : Done :=
  let c := { c with endpoints }.bump now
  let c := { c with networkRevision := c.revision }
  { client := c, events := [c.event .network], calls := [.signalEndpointUpdate] }

/-- What a path update with an unmapped address makes of a peer's local state. -/
def updatePath (old : PeerLocalState) (update : PathUpdate) (now : Time) : PeerLocalState :=
  let newPath : PathKind := if update.kind = "direct" then .direct else .derp
  let path := { old with
    path := newPath, direct := update.direct, latency := update.latency, pathAt := update.time }
  if old.path ≠ newPath ∨ old.direct ≠ update.direct then
    let since := { path with directSince := if update.time = 0 then now else update.time }
    -- recovery is specific to one direct endpoint
    if newPath ≠ .direct ∨ update.direct ≠ old.recoveryDirect then
      { since with directRecovery := false, recoveryDirect := .zero }
    else since
  else path

/-- `onPath`, the section. -/
def onPath (c : Client) (update : PathUpdate) (now : Time) : Done :=
  let update := { update with direct := unmapAddrPort update.direct }
  let known := (c.peerLocal.get update.nodeKey).isSome ||
    c.peers.any fun _ peer => peer.key = update.nodeKey
  let old := (c.peerLocal.get update.nodeKey).getD {}
  let newPath : PathKind := if update.kind = "direct" then .direct else .derp
  let endpointChanged := old.path ≠ newPath ∨ old.direct ≠ update.direct
  if c.state.isStop ∨ known = false then { client := c }
  else if ¬ endpointChanged ∧ old.latency = update.latency then { client := c }
  else
    let c := { c with
      peerLocal := c.peerLocal.insert update.nodeKey (updatePath old update now) }.bump now
    { client := c
      events := [c.event .peerPath]
      calls := if c.opts.useDefaultTransportForDirectPeers ∧ endpointChanged then
        [.requestPeerReconcile] else [] }

/-- One round of the loop of `onDERPLatency`: the measurements and whether one changed. -/
def recordLatency (derpMap : Option DERPMap) (acc : FinMap Int DERPRegionLatency × Bool)
    (metric : DERPRegionLatency) : FinMap Int DERPRegionLatency × Bool :=
  if metric.regionID = 0 ∨ metric.latency ≤ 0 ∨
      usableDERPRegion (regionOf derpMap metric.regionID) = false then acc
  else if acc.1.get metric.regionID = some metric then acc
  else (acc.1.insert metric.regionID metric, true)

/-- `onDERPLatency`, the section. -/
def onDERPLatency (c : Client) (report : DERPLatencyReport) (now : Time) : Done :=
  if c.state.isStop then { client := c }
  else
    let start : FinMap Int DERPRegionLatency × Bool :=
      if report.full ∧ c.derpLatency.keys ≠ ∅ then (∅, true) else (c.derpLatency, false)
    let (derpLatency, changed) := report.regions.foldl (recordLatency c.derpMap) start
    let preferred :=
      if c.opts.disableDERP then 0
      else choosePreferredDERPMeasured c.derpMap c.preferredDERP derpLatency
    let preferredChanged := preferred ≠ c.preferredDERP
    let c := { c with derpLatency, preferredDERP := preferred }
    let c := if preferredChanged then
      { c with info := { c.info with preferredDERP := preferred } } else c
    if ¬ (changed ∨ preferredChanged) then { client := c }
    else
      let c := c.bump now
      let c := { c with derpRevision := c.revision }
      { client := c
        events := c.event .derp :: (if preferredChanged then [c.event .metadata] else [])
        calls := if preferredChanged then
          [.updateDERPMap (cloneDERPMap c.derpMap) c.selfDERP c.revision, .reconcilePeers,
            .signalEndpointUpdate] else [] }

/-- `directPathHandshakeGrace`, two minutes. -/
def directPathHandshakeGrace : Duration := 120 * second

/-- The peers that `recoverStaleDirectPaths` moves back to the managed transport; `snapshot` answers
`PeerSnapshot` with the connection state of a peer the device knows. -/
def stalePath (c : Client) (snapshot : NodePublic → Option Bool) (now : Time) (key : NodePublic)
    (localState : PeerLocalState) : Bool :=
  localState.applied && localState.path = .direct && localState.direct.isValid &&
    !localState.directRecovery && localState.directSince ≠ 0 &&
    directPathHandshakeGrace ≤ now - localState.directSince &&
    ((c.applied.get key).bind AppliedPeer.endpoint).any (fun endpoint =>
      endpoint.transport = defaultTransportID && endpoint.address = localState.direct.toText) &&
    snapshot key = some false

/-- `recoverStaleDirectPaths`, the section, and what `directPathHealthWorker` does with its result. -/
def recoverStaleDirectPaths (c : Client) (snapshot : NodePublic → Option Bool) (now : Time) : Done :=
  let recover (key : NodePublic) (localState : PeerLocalState) : PeerLocalState :=
    if c.stalePath snapshot now key localState then
      { localState with directRecovery := true, recoveryDirect := localState.direct }
    else localState
  { client := { c with peerLocal := c.peerLocal.mapVals recover }
    calls := if c.peerLocal.any (c.stalePath snapshot now) then [.requestPeerReconcile] else [] }

/-! ## State, errors and interactions -/

/-- `reportError`, the section; the empty state leaves the state alone. -/
def reportError (c : Client) (err : String) (state : Option State) (now : Time) : Done :=
  let c := { c with lastError := err, state := state.getD c.state }.bump now
  { client := c, events := [c.event .error (some err)] }

/-- `setInteraction`, the section. -/
def setInteraction (c : Client) (kind : InteractionKind) (url message : String) (now : Time) :
    Done :=
  let same := c.interaction.any fun i => i.kind = kind ∧ i.url = url
  let c := if same then c else { c with
    interactionID := c.interactionID + 1
    interaction := some { id := c.interactionID + 1, kind, url, message, since := now } }
  let c := { c with state := .needsAuthentication }
  let c := if kind = .nodeKeyExpired then
    { c with state := .degraded, lastError := errNodeKeyExpired } else c
  let c := c.bump now
  { client := c, events := [c.event .interaction, c.event .state] }

/-- `setTerminalError`, the section. -/
def setTerminalError (c : Client) (err : String) (now : Time) : Done :=
  let c := { c with terminalError := some err, lastError := err, state := .degraded }.bump now
  { client := c, events := [c.event .error (some err)] }

/-- `ResumeInteraction`, the section. Only a control URL is acknowledged here. -/
def resumeInteraction (c : Client) (id : Nat) (now : Time) : Done :=
  if ¬ c.state.isStop ∧ c.interaction.any fun i => i.id = id ∧ i.kind = .controlURL then
    let c := { c with interaction := none }.bump now
    { client := c, events := [c.event .interaction] }
  else { client := c }

/-- `reportClosedDevice`, the section. -/
def reportClosedDevice (c : Client) (now : Time) : Done :=
  if c.state.isStop then { client := c }
  else
    let c := { c with state := .degraded, lastError := c.opts.packages.errDeviceClosed }.bump now
    { client := c, events := [c.event .error (some c.opts.packages.errDeviceClosed), c.event .state] }

/-- `restoreStateAfterDeviceAttach`, the section. -/
def restoreStateAfterDeviceAttach (c : Client) (now : Time) : Done :=
  if c.state.isStop then { client := c }
  else
    let c := if c.lastError = c.opts.packages.errDeviceClosed then
      { c with
        lastError := ""
        state := if c.authenticated then .running
          else if c.interaction.isSome then .needsAuthentication else .starting }
      else c
    let c := c.bump now
    { client := c, events := [c.event .state, c.event .metadata] }

end Client

/-- The fields of `controlproto.RegisterResponse` that `authenticate` reads. -/
structure RegisterResponse where
  error : String := ""
  nodeKeyExpired : Bool := false
  nodeKeySignature : Slice UInt8 := none
  authURL : String := ""
  userID : Int := 0
  loginName : String := ""
  displayName : String := ""
  profilePicURL : String := ""
  machineAuthorized : Bool := false

namespace Client

/-- The section of `authenticate` after a successful registration. -/
def registered (c : Client) (response : RegisterResponse) (now : Time) : Done :=
  let c := { c with
    authenticated := true, interaction := none, state := .running, lastError := ""
    info := { c.info with
      authenticatedAt := now, userID := response.userID, loginName := response.loginName
      displayName := response.displayName, profilePicURL := response.profilePicURL
      machineAuthorized := response.machineAuthorized } }.bump now
  { client := c, events := [c.event .state, c.event .interaction] }

/-! ## Starting and closing -/

/-- The first section of `Start`. -/
def startBegin (c : Client) (now : Time) : Done :=
  { client := { c with
      state := .starting
      info := { controlURL := c.opts.controlURL, hostname := c.opts.hostname,
                transportID := c.opts.transportID, startedAt := now, ephemeral := c.opts.ephemeral,
                peerConfirmation := c.opts.confirmPeers, capabilityVersion := 119 } }.bump now }

/-- The section of `Start` after `initializeRuntime` failed. -/
def startFailed (c : Client) : Done := { client := { c with state := .new, info := {} } }

/-- The section of `initializeRuntime`. -/
def runtimeInstalled (c : Client) (nodePrivate : PrivateKey) (cache : CacheState) : Done :=
  { client := { c with
      nodePrivate, cache
      confirmed := c.confirmed ∪ cache.confirmedPeerIDs.toFinset
      info := { c.info with
        nodePublicKey := nodePrivate.publicNode c.opts.packages
        machinePublicKey := (cache.machinePrivate.publicMachine c.opts.packages).toText
        discoPublicKey := (cache.discoPrivate.publicDisco c.opts.packages).toText
        backendLogID := cache.backendLogID }
      lastError := "" } }

/-- The section of `Close` on a client that was never started. -/
def closeUnstarted (c : Client) (now : Time) : Done :=
  let c := { c with state := .stopped }.bump now
  { client := c, events := [c.event .state] }

/-- The first section of `Close`. -/
def closeStopping (c : Client) (now : Time) : Done :=
  let c := { c with state := .stopping }.bump now
  let c := { c with networkRevision := c.revision }
  { client := c, events := [c.event .state, c.event .network] }

/-- The last section of `Close`, with the texts of the errors of the cleanup. -/
def closeStopped (c : Client) (errs : List String) (now : Time) : Done :=
  let terminalError := if errs = [] then c.terminalError
    else some ("\n".intercalate (c.terminalError.toList ++ errs))
  let c := { c with terminalError, state := .stopped }.bump now
  { client := c, events := [c.event .state] }

/-! ## Publication of peers -/

/-- `setPeerError`. -/
def setPeerError (c : Client) (key : NodePublic) (err : String) (now : Time) : Done :=
  let c := { c with
    peerLocal := c.peerLocal.insert key { (c.peerLocal.get key).getD {} with err }
    lastError := err }.bump now
  { client := c, events := [c.event .error (some err)] }

/-- The section of `reconcilePeers` that ends the removal of a peer. -/
def peerRemoved (c : Client) (key : NodePublic) : Done :=
  { client := { c with applied := c.applied.erase key, peerLocal := c.peerLocal.erase key } }

/-- The section of `reconcilePeers` that gives up a peer taken over by another controller. -/
def peerTakenOver (c : Client) (key : NodePublic) : Done :=
  { client := { c with
      applied := c.applied.erase key
      peerLocal := match c.peerLocal.get key with
        | none => c.peerLocal
        | some localState => c.peerLocal.insert key { localState with applied := false } } }

/-- The section of `reconcilePeers` that ends the publication of a peer. -/
def peerApplied (c : Client) (key : NodePublic) (desiredApplied : AppliedPeer) : Done :=
  { client := { c with
      applied := c.applied.insert key desiredApplied
      peerLocal := c.peerLocal.insert key
        { (c.peerLocal.get key).getD {} with applied := true, err := "" } } }

/-- Does that section make `reconcilePeers` announce a change? -/
def peerAppliedChanges (c : Client) (key : NodePublic) (desiredApplied : AppliedPeer)
    (needsUpsert : Bool) : Bool :=
  let old := (c.peerLocal.get key).getD {}
  needsUpsert || c.applied.get key ≠ some desiredApplied || !old.applied || old.err ≠ ""

/-- The section of `reconcilePeers` that drops local states nothing refers to. -/
def dropUnused (c : Client) (desired : Finset NodePublic) : Done :=
  let used (key : NodePublic) (_ : PeerLocalState) : Bool :=
    decide (key ∈ desired) || decide (key ∈ c.applied)
  { client := { c with peerLocal := c.peerLocal.filter used } }

/-- The announcement of a change at the end of `reconcilePeers`, and in `clearAppliedDeviceLocked`. -/
def announcePeers (c : Client) (now : Time) : Done :=
  let c := c.bump now
  let c := { c with networkRevision := c.revision }
  { client := c, events := [c.event .peers, c.event .network] }

/-- `clearAppliedDeviceLocked`, the section. -/
def clearAppliedDevice (c : Client) (now : Time) : Done :=
  let changed := c.applied.keys ≠ ∅
  let c := { c with
    applied := ∅
    peerLocal := c.peerLocal.mapVals fun _ localState =>
      { localState with applied := false, path := .none, direct := .zero, latency := 0, pathAt := 0 } }
  if changed then c.announcePeers now else { client := c }

/-- The section of `removeOwnedPeers`. -/
def forgetPeers (c : Client) (keys : List NodePublic) : Done :=
  { client := { c with
      applied := c.applied.eraseAll keys, peerLocal := c.peerLocal.eraseAll keys } }

end Client

/-- The critical sections. -/
inductive Section where
  | applyMapResponse (response : MapResponse)
  | confirmPeer (id : String)
  | revokePeerConfirmation (id : String)
  | onEndpoints (endpoints : List EndpointCandidate)
  | onPath (update : PathUpdate)
  | onDERPLatency (report : DERPLatencyReport)
  | recoverStaleDirectPaths (snapshot : NodePublic → Option Bool)
  | reportError (err : String) (state : Option State)
  | setInteraction (kind : InteractionKind) (url message : String)
  | setTerminalError (err : String)
  | resumeInteraction (id : Nat)
  | reportClosedDevice
  | restoreStateAfterDeviceAttach
  | registered (response : RegisterResponse)
  | pingAnswered (url : String)
  | startBegin
  | startFailed
  | runtimeInstalled (nodePrivate : PrivateKey) (cache : CacheState)
  | closeUnstarted
  | closeStopping
  | closeStopped (errs : List String)
  | setPeerError (key : NodePublic) (err : String)
  | peerRemoved (key : NodePublic)
  | peerTakenOver (key : NodePublic)
  | peerApplied (key : NodePublic) (desiredApplied : AppliedPeer)
  | dropUnused (desired : Finset NodePublic)
  | announcePeers
  | clearAppliedDevice
  | forgetPeers (keys : List NodePublic)

/-- What a section does, at the given time. -/
def Section.run (c : Client) (now : Time) : Section → Done
  | .applyMapResponse response => c.applyMapResponse response now
  | .confirmPeer id => c.confirmPeer id now
  | .revokePeerConfirmation id => c.revokePeerConfirmation id now
  | .onEndpoints endpoints => c.onEndpoints endpoints now
  | .onPath update => c.onPath update now
  | .onDERPLatency report => c.onDERPLatency report now
  | .recoverStaleDirectPaths snapshot => c.recoverStaleDirectPaths snapshot now
  | .reportError err state => c.reportError err state now
  | .setInteraction kind url message => c.setInteraction kind url message now
  | .setTerminalError err => c.setTerminalError err now
  | .resumeInteraction id => c.resumeInteraction id now
  | .reportClosedDevice => c.reportClosedDevice now
  | .restoreStateAfterDeviceAttach => c.restoreStateAfterDeviceAttach now
  | .registered response => c.registered response now
  | .pingAnswered url => { client := { c with lastPingURL := url } }
  | .startBegin => c.startBegin now
  | .startFailed => c.startFailed
  | .runtimeInstalled nodePrivate cache => c.runtimeInstalled nodePrivate cache
  | .closeUnstarted => c.closeUnstarted now
  | .closeStopping => c.closeStopping now
  | .closeStopped errs => c.closeStopped errs now
  | .setPeerError key err => c.setPeerError key err now
  | .peerRemoved key => c.peerRemoved key
  | .peerTakenOver key => c.peerTakenOver key
  | .peerApplied key desiredApplied => c.peerApplied key desiredApplied
  | .dropUnused desired => c.dropUnused desired
  | .announcePeers => c.announcePeers now
  | .clearAppliedDevice => c.clearAppliedDevice now
  | .forgetPeers keys => c.forgetPeers keys

end WgoTailscale
