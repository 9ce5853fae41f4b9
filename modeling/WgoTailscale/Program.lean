import WgoTailscale.Hub
import WgoTailscale.Lib.Threads
import WgoTailscale.Views

/-!
# The program (`client.go`, `device.go`, `map.go`, `confirmation.go`, `events.go`)

The goroutines of the client, as a machine of threads over one shared state. A frame is a function
activation at one of its program points; a step is one critical section, one call to the device or
to the bind, one operation on a channel, or the taking or releasing of a lock that is held longer
than that. Whatever comes from outside (the clock, the outcome of a call, what control answers, the
order in which Go visits a map) is the `Choice` of the step, so a step is a function.

What a frame does is first described, as an `Effect`: at most one critical section of the client, one
call to the bind, one to the device, and the frames that follow. All steps apply their effect in the
same way, so a property of the client, the bind or the devices is proved from the kinds of effects
that there are, and a property of one function from the effects of its frames.
-/

namespace WgoTailscale

/-! ## The shared state -/

/-- The error of a context that is done. -/
inductive CtxError where
  | canceled
  | deadlineExceeded
  deriving DecidableEq, Repr

/-- The text of a context's error. -/
def CtxError.text : CtxError → String
  | .canceled => "context canceled"
  | .deadlineExceeded => "context deadline exceeded"

/-- What a `MapUpdate` request carries of the client's changing data. -/
structure MapUpdateRequest where
  endpoints : List EndpointCandidate
  preferredDERP : Int

/-- The locks, flags and channels of `Client`, and the arguments of outgoing calls that later calls
replace. `resume`, `endpointWake` and `reconcileWake` are channels of capacity one. -/
structure Control where
  lifeMu : Bool := false
  cacheMu : Bool := false
  reconcileMu : Bool := false
  /-- `deviceMu`: how many hold it for reading, and whether one holds it for writing. -/
  deviceReaders : Nat := 0
  deviceWriter : Bool := false
  deviceAPI : Option Nat := none
  deviceGeneration : Nat := 0
  started : Bool := false
  runtimeStarted : Bool := false
  closed : Bool := false
  /-- `c.done` is closed. -/
  done : Bool := false
  /-- `c.ctx` is set, and its error once it is done. -/
  hasCtx : Bool := false
  ctx : Option CtxError := none
  wg : Nat := 0
  resume : Bool := false
  endpointWake : Bool := false
  reconcileWake : Bool := false
  pingWake : List PingRequest := []
  pingPending : Finset String := ∅
  /-- The errors that `Close` collects. -/
  cleanupErrs : List String := []
  /-- The cache as last stored. -/
  stored : Option CacheState := none
  /-- The last request of `endpointUpdater`. -/
  mapUpdate : Option MapUpdateRequest := none
  /-- How many endpoint lists were computed for `OnEndpoints`. -/
  notified : Nat := 0

/-- The shared state. `bind` is `c.bind`; `devices` are the device APIs there are and `calls` what
the client did on them, the latest first. -/
structure Sys where
  client : Client
  hub : Hub := {}
  bind : Option Bind := none
  devices : FinMap Nat Device := ∅
  calls : List DeviceCall := []
  ctl : Control := {}

/-- `closedDeviceAPI`; an API nobody knows counts as closed. -/
def Sys.isClosed (s : Sys) (api : Nat) : Bool := (s.devices.get api).all fun d => d.closed

/-- The attached API, if it is usable: not nil and not closed. -/
def Sys.usableAPI (s : Sys) : Option Nat := s.ctl.deviceAPI.filter fun api => !s.isClosed api

/-- `PeerSpec` on an API. -/
def Sys.peerSpec (s : Sys) (api : Nat) (key : NodePublic) : Option PeerSpec :=
  (s.devices.get api).bind fun d => d.peerSpec key

/-! ## Frames -/

/-- Where the loops of `reconcilePeers` are; `keys` are the keys still to be visited. -/
inductive ReconcilePhase where
  | removeNext (keys : List NodePublic)
  | removeCall (key : NodePublic) (keys : List NodePublic)
  | removeBind (key : NodePublic) (keys : List NodePublic)
  | removeCommit (key : NodePublic) (keys : List NodePublic)
  | reportRemove (key : NodePublic) (err : String) (keys : List NodePublic)
  | upsertBegin
  | upsertNext (keys : List NodePublic)
  | takeOver (key : NodePublic) (keys : List NodePublic)
  | takeOverBind (key : NodePublic) (keys : List NodePublic)
  | conflict (key : NodePublic) (keys : List NodePublic)
  | updateBind (key : NodePublic) (needsUpsert : Bool) (keys : List NodePublic)
  | upsertCall (key : NodePublic) (keys : List NodePublic)
  | undoBind (key : NodePublic) (err : String) (keys : List NodePublic)
  | reportUpsert (key : NodePublic) (err : String) (keys : List NodePublic)
  | apply (key : NodePublic) (needsUpsert : Bool) (keys : List NodePublic)
  | dropUnused
  | announce
  | unlock

/-- `reconcilePeers` after it took its snapshot. -/
structure Reconcile where
  api : Nat
  desired : FinMap NodePublic DesiredPeer
  applied : FinMap NodePublic AppliedPeer
  changed : Bool := false
  phase : ReconcilePhase

/-- Where the loop of `removeOwnedPeers` is. -/
inductive RemoveOwnedPhase where
  | next (keys : List NodePublic)
  | call (key : NodePublic) (keys : List NodePublic)
  | bind (key : NodePublic) (keys : List NodePublic)
  | commit
  | unlock

/-- `removeOwnedPeers` after it took its snapshot. -/
structure RemoveOwned where
  api : Option Nat
  applied : FinMap NodePublic AppliedPeer
  keys : List NodePublic
  phase : RemoveOwnedPhase

/-- `Start`, with `lifeMu` held. -/
inductive StartPhase where
  | begin
  | device
  | generation (api : Nat)
  | finish (api : Option Nat)
  | launch (api : Option Nat)
  | failed

/-- Who called `initializeRuntime`. -/
inductive InitCaller where
  | start
  | attach

/-- `initializeRuntime`. -/
inductive InitPhase where
  | identity
  | cache
  | transport (cache : CacheState)
  | install (cache : CacheState)

/-- `AttachDevice`, with `lifeMu` held; the last phases before `release` hold `deviceMu` for
writing. -/
inductive AttachPhase where
  | check
  | transport
  | clear
  | relock
  | install (startWorkers : Bool)
  | release (startWorkers : Bool)
  | unlock

/-- The goroutine of `watchDeviceLocked` once the API is closed, with `deviceMu` held for writing. -/
inductive WatchPhase where
  | clear
  | report
  | unlock

/-- `Close`. The first three phases hold `lifeMu`. -/
inductive ClosePhase where
  | unstarted
  | unstartedDone
  | stopping
  | cancel
  | wait
  | transport
  | shutdown
  | stopped
  | finish

/-- A function activation at one of its program points. -/
inductive Frame where
  -- events.go
  | publish (e : Event)
  | publishing (e : Event) (phase : PublishPhase)
  | closeHub
  -- a critical section, and what a section leaves to do
  | sec (x : Section)
  | call (c : Call)
  | enqueuePing (ping : PingRequest)
  -- map.go, reconcilePeers
  | reconcileWait (api : Nat)
  | reconcileSnapshot (api : Nat)
  | reconciling (r : Reconcile)
  | deviceRUnlock
  -- confirmation.go
  | confirmPeer (id : String)
  | revokePeerConfirmation (id : String)
  | cacheUnlock
  -- client.go
  | resumeInteraction (id : Nat)
  | start
  | starting (phase : StartPhase)
  | initializing (caller : InitCaller) (api : Nat) (phase : InitPhase)
  | close
  | closing (phase : ClosePhase)
  | awaitClosed
  | closeOnCancel
  | removeOwned
  | removeOwnedWait (api : Option Nat)
  | removeOwnedSnapshot (api : Option Nat)
  | removingOwned (r : RemoveOwned)
  | authenticate (followup : String)
  | authWait (followup : String)
  | authFailed (err : String) (canceled : Bool)
  | awaitDone
  | mapLoop
  | mapStream
  | mapEnded (err : String)
  | mapWait
  | peerReconciler
  | healthWorker
  | endpointUpdater
  | updaterAuth
  | updaterEndpoints
  | updaterRequest (endpoints : List EndpointCandidate)
  | controlPingWorker
  | answerPing (ping : PingRequest)
  | unmarkPing (url : String) (err : Option String)
  | workerDone
  -- device.go
  | attachDevice (api : Nat)
  | attachEnter (api : Nat)
  | attaching (api : Nat) (phase : AttachPhase)
  | watch (api : Nat) (generation : Nat)
  | watchLock (generation : Nat)
  | watching (phase : WatchPhase)
  -- tailnet
  | bindOpen
  | handleSTUN (tx : TxID) (mapped : AddrPort)
  | recordSTUN (mapped : AddrPort)
  | refreshLocal (generation : Nat)
  | installLocal (generation : Nat) (localEndpoints : List EndpointCandidate)
  | kickDiscovery
  | notifyEndpoints
  | deliverEndpoints (endpoints : List EndpointCandidate) (number : Nat)

/-! ## Choices -/

/-- What ends a wait. -/
inductive Wait where
  | timer
  | resume
  | done
  deriving DecidableEq

/-- How `Register` ended. -/
inductive RegisterOutcome where
  | failed (err : String) (deadline : Bool)
  | response (response : RegisterResponse)

/-- What a map stream delivers next. -/
inductive StreamOutcome where
  | response (response : MapResponse)
  | ended (err : String)

/-- What a step is given from outside. `ok` is the outcome of the call it makes, and `err` the text
of the error if there is one. -/
structure Choice where
  now : Time := 1
  ok : Bool := true
  err : String := ""
  nodeOrder : List Int := []
  keyOrder : List NodePublic := []
  subOrder : List Nat := []
  snapshot : NodePublic → Option Bool := fun _ => none
  cache : Option CacheState := some {}
  wait : Wait := .timer
  register : RegisterOutcome := .response {}
  stream : StreamOutcome := .ended ""
  listen : Bind.Listen := .failed
  interfaces : List String := []

/-! ## Effects -/

/-- A call to the bind. -/
inductive BindAct where
  | create (cfg : BindConfig)
  | updatePeer (config : PeerConfig)
  | removePeer (key : NodePublic)
  | removePeers (keys : List NodePublic)
  | updateDERPMap (derpMap : Option DERPMap) (selfDERP : Int)
  | openBind (listen : Bind.Listen) (now : Time) (order : List NodePublic) (interfaces : List String)
  | shutdown
  | answerSTUN (tx : TxID)
  | recordSTUN (mapped : AddrPort) (now : Time)
  | pruneSTUN (now : Time)
  | installLocal (generation : Nat) (localEndpoints : List EndpointCandidate)

/-- What a call does to `c.bind`; a nil bind is not called. -/
def BindAct.run (bind : Option Bind) : BindAct → Option Bind
  | .create cfg => some (newBind cfg)
  | .updatePeer config => bind.map (·.updatePeer config)
  | .removePeer key => bind.map (·.removePeer key)
  | .removePeers keys => bind.map fun b => keys.foldl Bind.removePeer b
  | .updateDERPMap derpMap selfDERP => bind.map (·.updateDERPMap derpMap selfDERP)
  | .openBind listen now order interfaces =>
    bind.map (·.openBind listen now order interfaces)
  | .shutdown => bind.map (·.closeBind)
  | .answerSTUN tx => bind.map fun b => { b with stunPending := b.stunPending.erase tx }
  | .recordSTUN mapped now => bind.map fun b => (b.recordSTUN mapped now).1
  | .pruneSTUN now => bind.map fun b => (b.pruneSTUNEndpoints now).1
  | .installLocal generation localEndpoints =>
    bind.map fun b => (b.refreshLocalEndpoints generation localEndpoints).1

/-- A call about a peer to a device API. -/
inductive DeviceAct where
  | peerSpec (api : Nat) (key : NodePublic)
  | upsert (api : Nat) (spec : PeerSpec) (ok : Bool)
  | delete (api : Nat) (key : NodePublic) (ok : Bool)
  | conflict (api : Nat) (key : NodePublic)

/-- The record of a call. -/
def DeviceAct.log (s : Sys) : DeviceAct → DeviceCall
  | .peerSpec api key => .peerSpec api key (s.peerSpec api key)
  | .upsert api spec ok => .upsert api spec ok
  | .delete api key ok => .delete api key ok
  | .conflict api key => .conflict api key

/-- Change the specifications of a device. -/
def updateSpecs (devices : FinMap Nat Device) (api : Nat)
    (f : FinMap NodePublic Published → FinMap NodePublic Published) : FinMap Nat Device :=
  match devices.get api with
  | none => devices
  | some d => devices.insert api { d with specs := f d.specs }

/-- What a call does to the devices; one that fails has no effect. -/
def DeviceAct.run (devices : FinMap Nat Device) : DeviceAct → FinMap Nat Device
  | .upsert api spec true => updateSpecs devices api (FinMap.insert · spec.publicKey ⟨.client, spec⟩)
  | .delete api key true => updateSpecs devices api (FinMap.erase · key)
  | _ => devices

/-- What a frame does. -/
structure Effect where
  ctl : Control
  sec : Option Section := none
  hub : Option Hub := none
  bind : Option BindAct := none
  device : Option DeviceAct := none
  frames : List Frame := []
  spawned : List (List Frame) := []

/-- The result of the effect's section. -/
def Effect.done (e : Effect) (now : Time) (c : Client) : Done :=
  match e.sec with
  | none => { client := c }
  | some x => x.run c now

/-- Carrying out an effect: the section's events are published first, then its calls are made, then
the effect's own frames run. -/
def Effect.apply (e : Effect) (now : Time) (s : Sys) : Outcome Sys Frame where
  state :=
    { client := (e.done now s.client).client
      hub := e.hub.getD s.hub
      bind := match e.bind with
        | none => s.bind
        | some act => act.run s.bind
      devices := match e.device with
        | none => s.devices
        | some act => act.run s.devices
      calls := match e.device with
        | none => s.calls
        | some act => act.log s :: s.calls
      ctl := e.ctl }
  calls := (e.done now s.client).events.map Frame.publish ++
    (e.done now s.client).calls.map Frame.call ++ e.frames
  spawned := e.spawned

section
variable {e : Effect} {now : Time} {s : Sys}

theorem bind_apply_none (h : e.bind = none) : (e.apply now s).state.bind = s.bind := by
  simp only [Effect.apply, h]

theorem bind_apply_some {act : BindAct} (h : e.bind = some act) :
    (e.apply now s).state.bind = act.run s.bind := by
  simp only [Effect.apply, h]

theorem devices_apply_none (h : e.device = none) : (e.apply now s).state.devices = s.devices := by
  simp only [Effect.apply, h]

theorem devices_apply_some {act : DeviceAct} (h : e.device = some act) :
    (e.apply now s).state.devices = act.run s.devices := by
  simp only [Effect.apply, h]

end

/-! ## Steps -/

section
variable (ch : Choice) (s : Sys)

/-- Nobody holds `deviceMu`. -/
def Control.deviceFree (ctl : Control) : Prop := ctl.deviceWriter = false ∧ ctl.deviceReaders = 0

instance (ctl : Control) : Decidable ctl.deviceFree := inferInstanceAs (Decidable (_ ∧ _))

/-- A step that only goes on with other frames. -/
def goOn (frames : List Frame) : Option Effect := some { ctl := s.ctl, frames }

/-- `eventHub.publish`. -/
def publishEffect (e : Event) : Option Effect :=
  match s.hub.publishBegin e ch.subOrder with
  | none => none
  | some (hub, none) => some { ctl := s.ctl, hub := some hub }
  | some (hub, some phase) => some { ctl := s.ctl, hub := some hub, frames := [.publishing e phase] }

/-- The loop of `eventHub.publish`. -/
def publishingEffect (e : Event) (phase : PublishPhase) : Option Effect :=
  match s.hub.publishStep e phase with
  | (hub, none) => some { ctl := s.ctl, hub := some hub }
  | (hub, some phase) => some { ctl := s.ctl, hub := some hub, frames := [.publishing e phase] }

/-- `maxPendingControlPings`. -/
def maxPendingControlPings : Nat := 16

/-- The calls after a section. -/
def callEffect : Call → Option Effect
  | .answerControlPing ping =>
    if ping.types ≠ "" ∨ s.client.lastPingURL = ping.url then goOn s []
    else goOn s [.enqueuePing ping]
  | .updateDERPMap derpMap selfDERP _ =>
    match s.bind with
    | none => goOn s []
    | some b =>
      if b.selfDERP = selfDERP ∧ b.derpMap = cloneDERPMap derpMap then goOn s []
      else some { ctl := s.ctl, bind := some (.updateDERPMap derpMap selfDERP),
                  frames := [.kickDiscovery] }
  | .reconcilePeers =>
    if s.ctl.deviceWriter then none
    else match s.usableAPI with
      | none => goOn s []
      | some api => some { ctl := { s.ctl with deviceReaders := s.ctl.deviceReaders + 1 },
                           frames := [.reconcileWait api] }
  | .requestPeerReconcile => some { ctl := { s.ctl with reconcileWake := true } }
  | .signalEndpointUpdate => some { ctl := { s.ctl with endpointWake := true } }
  | .storeCache cache =>
    if ch.ok then some { ctl := { s.ctl with stored := some cache } } else goOn s []

/-- The second half of `answerControlPing`. -/
def enqueuePingEffect (ping : PingRequest) : Option Effect :=
  if ping.url ∈ s.ctl.pingPending ∨ maxPendingControlPings ≤ s.ctl.pingWake.length then goOn s []
  else some { ctl := { s.ctl with
    pingWake := s.ctl.pingWake ++ [ping]
    pingPending := insert ping.url s.ctl.pingPending } }

/-! ### Peers -/

/-- `reconcilePeers` at another point. -/
def Reconcile.goTo (r : Reconcile) (phase : ReconcilePhase) : List Frame :=
  [.reconciling { r with phase }]

/-- The id under which a peer was applied. -/
def Reconcile.idOf (r : Reconcile) (key : NodePublic) : String :=
  ((r.applied.get key).map AppliedPeer.id).getD ""

/-- May a peer be deleted from the device: is its specification absent, or still the one that was
applied? -/
def Sys.deletable (api : Nat) (applied : FinMap NodePublic AppliedPeer) (key : NodePublic) : Bool :=
  match s.peerSpec api key with
  | none => true
  | some current => (applied.get key).any (peerSpecStillOwned current)

/-- Where the loop over the wanted peers goes once it has read a peer's specification. -/
def Reconcile.visit (r : Reconcile) (opts : Options) (key : NodePublic) (wanted : DesiredPeer)
    (keys : List NodePublic) : Option PeerSpec → ReconcilePhase
  | none => .updateBind key true keys
  | some current =>
    match r.applied.get key with
    | some owned =>
      if peerSpecStillOwned current owned then
        .updateBind key (!peerSpecsEqual current (peerSpecFor opts key wanted)) keys
      else .takeOver key keys
    | none =>
      if current.endpoint.any fun endpoint => endpoint.transport = opts.transportID then
        .updateBind key true keys
      else .conflict key keys

/-- The error of a peer that could not be written. -/
def DesiredPeer.applyError (wanted : DesiredPeer) (err : String) : String :=
  "tailscale: apply peer " ++ wanted.id ++ ": " ++ err

/-- What is recorded of a peer that was written. -/
def DesiredPeer.applied (wanted : DesiredPeer) (opts : Options) : AppliedPeer :=
  ⟨wanted.id, some (peerEndpoint opts wanted)⟩

/-- The loops of `reconcilePeers`. -/
def reconcileEffect (r : Reconcile) : Option Effect :=
  match r.phase with
  | .removeNext [] => goOn s (r.goTo .upsertBegin)
  | .removeNext (key :: keys) =>
    if key ∈ r.desired then goOn s (r.goTo (.removeNext keys))
    else if s.deletable r.api r.applied key then
      some { ctl := s.ctl, device := some (.peerSpec r.api key),
             frames := r.goTo (.removeCall key keys) }
    else
      some { ctl := s.ctl, device := some (.peerSpec r.api key),
             frames := r.goTo (.removeBind key keys) }
  | .removeCall key keys =>
    if ch.ok then
      some { ctl := s.ctl, device := some (.delete r.api key true),
             frames := r.goTo (.removeBind key keys) }
    else
      some { ctl := s.ctl, device := some (.delete r.api key false),
             frames := r.goTo (.reportRemove key
               ("tailscale: remove peer " ++ r.idOf key ++ ": " ++ ch.err) keys) }
  | .removeBind key keys =>
    some { ctl := s.ctl, bind := some (.removePeer key), frames := r.goTo (.removeCommit key keys) }
  | .removeCommit key keys =>
    some { ctl := s.ctl, sec := some (.peerRemoved key),
           frames := [.reconciling { r with changed := true, phase := .removeNext keys }] }
  | .reportRemove key err keys =>
    some { ctl := s.ctl, sec := some (.setPeerError key err), frames := r.goTo (.removeNext keys) }
  | .upsertBegin =>
    if r.desired.Listing ch.keyOrder then goOn s (r.goTo (.upsertNext ch.keyOrder)) else none
  | .upsertNext [] => goOn s (r.goTo .dropUnused)
  | .upsertNext (key :: keys) =>
    match r.desired.get key with
    | none => goOn s (r.goTo (.upsertNext keys))
    | some wanted =>
      some { ctl := s.ctl, device := some (.peerSpec r.api key),
             frames := r.goTo (r.visit s.client.opts key wanted keys (s.peerSpec r.api key)) }
  | .takeOver key keys =>
    some { ctl := s.ctl, sec := some (.peerTakenOver key), frames := r.goTo (.takeOverBind key keys) }
  | .takeOverBind key keys =>
    some { ctl := s.ctl, bind := some (.removePeer key), frames := r.goTo (.conflict key keys) }
  | .conflict key keys =>
    some { ctl := s.ctl, sec := some (.setPeerError key errPeerConflict),
           device := some (.conflict r.api key), frames := r.goTo (.upsertNext keys) }
  | .updateBind key needsUpsert keys =>
    match r.desired.get key with
    | none => goOn s (r.goTo (.upsertNext keys))
    | some wanted =>
      if needsUpsert then
        some { ctl := s.ctl, bind := some (.updatePeer (peerConfigFor key wanted)),
               frames := r.goTo (.upsertCall key keys) }
      else
        some { ctl := s.ctl, bind := some (.updatePeer (peerConfigFor key wanted)),
               frames := r.goTo (.apply key false keys) }
  | .upsertCall key keys =>
    match r.desired.get key with
    | none => goOn s (r.goTo (.upsertNext keys))
    | some wanted =>
      if ch.ok then
        some { ctl := s.ctl,
               device := some (.upsert r.api (peerSpecFor s.client.opts key wanted) true),
               frames := r.goTo (.apply key true keys) }
      else if key ∈ r.applied then
        some { ctl := s.ctl,
               device := some (.upsert r.api (peerSpecFor s.client.opts key wanted) false),
               frames := r.goTo (.reportUpsert key (wanted.applyError ch.err) keys) }
      else
        some { ctl := s.ctl,
               device := some (.upsert r.api (peerSpecFor s.client.opts key wanted) false),
               frames := r.goTo (.undoBind key (wanted.applyError ch.err) keys) }
  | .undoBind key err keys =>
    some { ctl := s.ctl, bind := some (.removePeer key), frames := r.goTo (.reportUpsert key err keys) }
  | .reportUpsert key err keys =>
    some { ctl := s.ctl, sec := some (.setPeerError key err), frames := r.goTo (.upsertNext keys) }
  | .apply key needsUpsert keys =>
    match r.desired.get key with
    | none => goOn s (r.goTo (.upsertNext keys))
    | some wanted =>
      some { ctl := s.ctl, sec := some (.peerApplied key (wanted.applied s.client.opts)),
             frames := [.reconciling { r with
               changed := r.changed ||
                 s.client.peerAppliedChanges key (wanted.applied s.client.opts) needsUpsert
               phase := .upsertNext keys }] }
  | .dropUnused =>
    some { ctl := s.ctl, sec := some (.dropUnused r.desired.keys), frames := r.goTo .announce }
  | .announce =>
    if r.changed then some { ctl := s.ctl, sec := some .announcePeers, frames := r.goTo .unlock }
    else goOn s (r.goTo .unlock)
  | .unlock => some { ctl := { s.ctl with reconcileMu := false }, frames := [.deviceRUnlock] }

/-- `removeOwnedPeers` at another point. -/
def RemoveOwned.goTo (r : RemoveOwned) (phase : RemoveOwnedPhase) : List Frame :=
  [.removingOwned { r with phase }]

/-- The loop of `removeOwnedPeers`. -/
def removeOwnedEffect (r : RemoveOwned) : Option Effect :=
  match r.phase with
  | .next [] => goOn s (r.goTo .commit)
  | .next (key :: keys) =>
    match r.api with
    | none => goOn s (r.goTo (.bind key keys))
    | some api =>
      if s.deletable api r.applied key then
        some { ctl := s.ctl, device := some (.peerSpec api key),
               frames := r.goTo (.call key keys) }
      else
        some { ctl := s.ctl, device := some (.peerSpec api key),
               frames := r.goTo (.bind key keys) }
  | .call key keys =>
    match r.api with
    | none => goOn s (r.goTo (.bind key keys))
    | some api =>
      if ch.ok = false ∧ ch.err ≠ s.client.opts.packages.errDeviceClosed then
        some { ctl := { s.ctl with cleanupErrs := s.ctl.cleanupErrs ++ [ch.err] },
               device := some (.delete api key false), frames := r.goTo (.bind key keys) }
      else
        some { ctl := s.ctl, device := some (.delete api key ch.ok),
               frames := r.goTo (.bind key keys) }
  | .bind key keys =>
    some { ctl := s.ctl, bind := some (.removePeer key), frames := r.goTo (.next keys) }
  | .commit => some { ctl := s.ctl, sec := some (.forgetPeers r.keys), frames := r.goTo .unlock }
  | .unlock => some { ctl := { s.ctl with reconcileMu := false }, frames := [.deviceRUnlock] }

/-- `clearAppliedDeviceLocked`. -/
def clearEffect (frames : List Frame) : Option Effect :=
  if s.ctl.reconcileMu then none
  else if s.client.peerLocal.Listing ch.keyOrder then
    some { ctl := s.ctl, sec := some .clearAppliedDevice, bind := some (.removePeers ch.keyOrder),
           frames }
  else none

/-! ### Lifecycle -/

/-- The goroutines of `launchRuntimeLocked`. -/
def workers : List (List Frame) :=
  [[.authenticate "", .workerDone], [.endpointUpdater, .workerDone], [.peerReconciler, .workerDone],
    [.healthWorker, .workerDone], [.controlPingWorker, .workerDone]]

/-- The goroutine of `watchDeviceLocked`. -/
def watcher (api generation : Nat) : List Frame := [.watch api generation, .workerDone]

/-- `Start`, with `lifeMu` held. -/
def startEffect : StartPhase → Option Effect
  | .begin =>
    some { ctl := { s.ctl with hasCtx := true, ctx := none }, sec := some .startBegin,
           frames := [.starting .device] }
  | .device =>
    if s.ctl.deviceWriter then none
    else match s.usableAPI with
      | none => goOn s [.starting (.finish none)]
      | some api => goOn s [.initializing .start api .identity]
  | .generation api =>
    if s.ctl.deviceFree then
      some { ctl := { s.ctl with deviceGeneration := s.ctl.deviceGeneration + 1 },
             frames := [.starting (.finish (some api))] }
    else none
  | .finish api =>
    if s.ctl.deviceWriter then none
    else some { ctl := { s.ctl with started := true },
                frames := [.publish (s.client.event .state), .publish (s.client.event .metadata),
                  .starting (.launch api)] }
  | .launch api =>
    match api with
    | some api =>
      if s.ctl.runtimeStarted then
        some { ctl := { s.ctl with lifeMu := false, wg := s.ctl.wg + 6 },
               spawned := workers ++ [watcher api s.ctl.deviceGeneration, [.closeOnCancel]] }
      else some { ctl := { s.ctl with lifeMu := false }, spawned := [[.closeOnCancel]] }
    | none => some { ctl := { s.ctl with lifeMu := false }, spawned := [[.closeOnCancel]] }
  | .failed =>
    some { ctl := { s.ctl with hasCtx := false, ctx := none, lifeMu := false },
           sec := some .startFailed }

/-- The frame after `initializeRuntime` failed. -/
def initFailed (api : Nat) : InitCaller → Frame
  | .start => .starting .failed
  | .attach => .attaching api .unlock

/-- The frame after `initializeRuntime` succeeded. -/
def initDone (api : Nat) : InitCaller → Frame
  | .start => .starting (.generation api)
  | .attach => .attaching api .relock

/-- The private key of an API. -/
def Sys.privateKey (api : Nat) : PrivateKey := ((s.devices.get api).map Device.privateKey).getD ⟨0⟩

/-- `initializeRuntime`. -/
def initEffect (caller : InitCaller) (api : Nat) : InitPhase → Option Effect
  | .identity =>
    if (s.privateKey api).isZero then goOn s [initFailed api caller]
    else goOn s [.initializing caller api .cache]
  | .cache =>
    if s.ctl.cacheMu then none
    else match ch.cache with
      | none => goOn s [initFailed api caller]
      | some cache =>
        some { ctl := { s.ctl with stored := some cache },
               frames := [.initializing caller api (.transport cache)] }
  | .transport cache =>
    if ch.ok then
      some { ctl := s.ctl,
             bind := some (.create ⟨s.client.opts.disableDERP, s.client.opts.disableDiscovery⟩),
             frames := [.initializing caller api (.install cache)] }
    else goOn s [initFailed api caller]
  | .install cache =>
    some { ctl := { s.ctl with runtimeStarted := true },
           sec := some (.runtimeInstalled (s.privateKey api) cache),
           frames := [initDone api caller] }

/-- `AttachDevice`, with `lifeMu` held. -/
def attachEffect (api : Nat) : AttachPhase → Option Effect
  | .check =>
    if s.ctl.deviceFree then
      if s.usableAPI.isSome then goOn s [.attaching api .unlock]
      else if s.ctl.started ∧ s.ctl.runtimeStarted = false then
        goOn s [.initializing .attach api .identity]
      else if s.ctl.runtimeStarted then
        -- validateRuntimeIdentity
        if (s.privateKey api).isZero ∨
            (s.privateKey api).publicNode s.client.opts.packages ≠
              s.client.nodePrivate.publicNode s.client.opts.packages then
          goOn s [.attaching api .unlock]
        else some { ctl := { s.ctl with deviceWriter := true }, frames := [.attaching api .transport] }
      else some { ctl := { s.ctl with deviceWriter := true },
                  frames := [.attaching api (.install false)] }
    else none
  | .transport =>
    if ch.ok then goOn s [.attaching api .clear]
    else some { ctl := { s.ctl with deviceWriter := false }, frames := [.attaching api .unlock] }
  | .clear => clearEffect ch s [.attaching api (.install false)]
  | .relock =>
    if s.ctl.deviceFree then
      some { ctl := { s.ctl with deviceWriter := true }, frames := [.attaching api (.install true)] }
    else none
  | .install startWorkers =>
    if s.ctl.started then
      some { ctl := { s.ctl with
               deviceAPI := some api, deviceGeneration := s.ctl.deviceGeneration + 1 },
             sec := some .restoreStateAfterDeviceAttach,
             frames := [.attaching api (.release startWorkers)] }
    else
      some { ctl := { s.ctl with
               deviceAPI := some api, deviceGeneration := s.ctl.deviceGeneration + 1 },
             frames := [.attaching api (.release startWorkers)] }
  | .release startWorkers =>
    if s.ctl.started then
      if startWorkers then
        some { ctl := { s.ctl with deviceWriter := false, wg := s.ctl.wg + 6 },
               spawned := workers ++ [watcher api s.ctl.deviceGeneration],
               frames := [.call .reconcilePeers, .attaching api .unlock] }
      else
        some { ctl := { s.ctl with deviceWriter := false, wg := s.ctl.wg + 1 },
               spawned := [watcher api s.ctl.deviceGeneration],
               frames := [.call .reconcilePeers, .attaching api .unlock] }
    else some { ctl := { s.ctl with deviceWriter := false }, frames := [.attaching api .unlock] }
  | .unlock => some { ctl := { s.ctl with lifeMu := false } }

/-- The goroutine of `watchDeviceLocked` once its API is closed. -/
def watchEffect : WatchPhase → Option Effect
  | .clear => clearEffect ch s [.watching .report]
  | .report => some { ctl := s.ctl, sec := some .reportClosedDevice, frames := [.watching .unlock] }
  | .unlock => some { ctl := { s.ctl with deviceWriter := false } }

/-- `Close`. -/
def closeEffect : ClosePhase → Option Effect
  | .unstarted =>
    some { ctl := s.ctl, sec := some .closeUnstarted,
           frames := [.closeHub, .closing .unstartedDone] }
  | .unstartedDone => some { ctl := { s.ctl with done := true, lifeMu := false } }
  | .stopping =>
    some { ctl := { s.ctl with lifeMu := false }, sec := some .closeStopping,
           frames := [.closing .cancel] }
  | .cancel =>
    some { ctl := { s.ctl with ctx := some (s.ctl.ctx.getD .canceled) },
           frames := [.closing .wait] }
  | .wait => if s.ctl.wg = 0 then goOn s [.removeOwned, .closing .transport] else none
  | .transport =>
    if s.ctl.deviceWriter then none
    else if s.ctl.runtimeStarted ∧ s.ctl.deviceAPI.isSome ∧ ch.ok = false ∧
        ch.err ≠ s.client.opts.packages.errDeviceClosed then
      some { ctl := { s.ctl with cleanupErrs := s.ctl.cleanupErrs ++ [ch.err] },
             frames := [.closing .shutdown] }
    else goOn s [.closing .shutdown]
  | .shutdown => some { ctl := s.ctl, bind := some .shutdown, frames := [.closing .stopped] }
  | .stopped =>
    some { ctl := s.ctl, sec := some (.closeStopped s.ctl.cleanupErrs),
           frames := [.closeHub, .closing .finish] }
  | .finish => some { ctl := { s.ctl with done := true } }

/-! ### Workers -/

/-- `authenticate`, when `Register` has returned. -/
def authenticateEffect (followup : String) : Option Effect :=
  match ch.register with
  | .failed err deadline =>
    match s.ctl.ctx with
    | some ctxErr => goOn s [.authFailed ctxErr.text (ctxErr = .canceled)]
    | none =>
      if followup ≠ "" ∧ deadline then goOn s [.authenticate followup]
      else goOn s [.sec (.reportError err (some .degraded)), .authWait followup]
  | .response response =>
    if response.error ≠ "" then
      goOn s [.sec (.reportError ("tailscale: registration: " ++ response.error) (some .degraded)),
        .authWait followup]
    else if response.nodeKeyExpired ∨ (Slice.list response.nodeKeySignature).isEmpty = false then
      goOn s [.sec (.setInteraction .nodeKeyExpired "" errNodeKeyExpired),
        .authFailed errNodeKeyExpired false]
    else if response.authURL ≠ "" then
      goOn s [.sec (.setInteraction .authenticate response.authURL
          "Authorize this node with the control service"),
        .authWait response.authURL]
    else goOn s [.sec (.registered response), .call .signalEndpointUpdate, .mapLoop]

/-- `mapLoop`, while its stream is open. -/
def mapStreamEffect : Option Effect :=
  match ch.stream with
  | .response response =>
    if s.client.nodeKeyMismatch response then goOn s [.mapEnded errControlNodeKeyMismatch]
    else goOn s [.sec (.applyMapResponse response), .mapStream]
  | .ended err => goOn s [.mapEnded err]

/-- `directPathHealthWorker`. -/
def healthEffect : Option Effect :=
  if s.client.opts.useDefaultTransportForDirectPeers = false then goOn s []
  else if ch.wait = .done then
    if s.ctl.ctx.isSome then goOn s [] else none
  else if s.ctl.deviceWriter then none
  else match s.usableAPI with
    | none => goOn s [.healthWorker]
    | some _ => some { ctl := s.ctl, sec := some (.recoverStaleDirectPaths ch.snapshot),
                       frames := [.healthWorker] }

/-! ### The bind -/

/-- `Bind.Open`. -/
def openEffect : Option Effect :=
  match s.bind with
  | none => none
  | some b =>
    if b.peers.Listing ch.keyOrder then
      if b.isOpen = false ∧ (b.openBind ch.listen ch.now ch.keyOrder ch.interfaces).isOpen then
        some { ctl := s.ctl, bind := some (.openBind ch.listen ch.now ch.keyOrder ch.interfaces),
               frames := [.notifyEndpoints, .kickDiscovery] }
      else
        some { ctl := s.ctl, bind := some (.openBind ch.listen ch.now ch.keyOrder ch.interfaces) }
    else none

/-- `handleSTUN`, up to the record of the endpoint. -/
def handleSTUNEffect (tx : TxID) (mapped : AddrPort) : Option Effect :=
  match s.bind with
  | none => none
  | some b =>
    if tx ∈ b.stunPending ∧ mapped.isValid ∧ ¬ mapped.addr.isUnspecified ∧
        ¬ mapped.addr.isMulticast ∧ mapped.port ≠ 0 then
      some { ctl := s.ctl, bind := some (.answerSTUN tx), frames := [.recordSTUN mapped] }
    else some { ctl := s.ctl, bind := some (.answerSTUN tx) }

/-- The first half of `refreshLocalEndpoints`. -/
def refreshEffect (generation : Nat) : Option Effect :=
  match s.bind with
  | none => none
  | some b =>
    match b.conn with
    | none => goOn s []
    | some actual =>
      if b.cfg.disableDiscovery ∨ b.isOpen = false ∨ b.generation ≠ generation then goOn s []
      else goOn s [.installLocal generation (Bind.localEndpointsFor actual ch.interfaces)]

/-- `kickDiscovery`, the pruning of STUN endpoints. -/
def kickEffect : Option Effect :=
  match s.bind with
  | none => goOn s []
  | some b =>
    if b.cfg.disableDiscovery ∧ b.cfg.disableDERP then goOn s []
    else if (b.pruneSTUNEndpoints ch.now).2 then
      some { ctl := s.ctl, bind := some (.pruneSTUN ch.now), frames := [.notifyEndpoints] }
    else some { ctl := s.ctl, bind := some (.pruneSTUN ch.now) }

/-- `notifyEndpoints`. -/
def notifyEffect : Option Effect :=
  match s.bind with
  | none => goOn s []
  | some b =>
    some { ctl := { s.ctl with notified := s.ctl.notified + 1 },
           frames := [.deliverEndpoints b.currentEndpoints (s.ctl.notified + 1)] }

/-! ### All frames -/

/-- What a frame does, if it is not blocked. -/
def effect : Frame → Option Effect
  | .publish e => publishEffect ch s e
  | .publishing e phase => publishingEffect s e phase
  | .closeHub =>
    match s.hub.close with
    | none => none
    | some hub => some { ctl := s.ctl, hub := some hub }
  | .sec x => some { ctl := s.ctl, sec := some x }
  | .call c => callEffect ch s c
  | .enqueuePing ping => enqueuePingEffect s ping
  | .reconcileWait api =>
    if s.ctl.reconcileMu then none
    else some { ctl := { s.ctl with reconcileMu := true }, frames := [.reconcileSnapshot api] }
  | .reconcileSnapshot api =>
    if s.client.peers.Listing ch.nodeOrder ∧ s.client.applied.Listing ch.keyOrder then
      goOn s [.reconciling
        { api, desired := s.client.desired ch.nodeOrder, applied := s.client.applied
          phase := .removeNext ch.keyOrder }]
    else none
  | .reconciling r => reconcileEffect ch s r
  | .deviceRUnlock => some { ctl := { s.ctl with deviceReaders := s.ctl.deviceReaders - 1 } }
  | .confirmPeer id =>
    if s.ctl.cacheMu then none
    else if ch.ok then
      some { ctl := { s.ctl with cacheMu := true }, frames := [.sec (.confirmPeer id), .cacheUnlock] }
    else goOn s []
  | .revokePeerConfirmation id =>
    if s.ctl.cacheMu then none
    else if ch.ok then
      some { ctl := { s.ctl with cacheMu := true },
             frames := [.sec (.revokePeerConfirmation id), .cacheUnlock] }
    else goOn s []
  | .cacheUnlock => some { ctl := { s.ctl with cacheMu := false } }
  | .resumeInteraction id =>
    if ¬ s.client.state.isStop ∧ s.client.interaction.any fun i =>
        i.id = id ∧ i.kind ≠ .controlURL then
      some { ctl := { s.ctl with resume := true } }
    else some { ctl := s.ctl, sec := some (.resumeInteraction id) }
  | .start =>
    if s.ctl.lifeMu then none
    else if s.ctl.closed ∨ s.ctl.started then goOn s []
    else some { ctl := { s.ctl with lifeMu := true }, frames := [.starting .begin] }
  | .starting phase => startEffect s phase
  | .initializing caller api phase => initEffect ch s caller api phase
  | .close =>
    if s.ctl.lifeMu then none
    else if s.ctl.closed then goOn s [.awaitClosed]
    else if s.ctl.started then
      some { ctl := { s.ctl with lifeMu := true, closed := true }, frames := [.closing .stopping] }
    else
      some { ctl := { s.ctl with lifeMu := true, closed := true }, frames := [.closing .unstarted] }
  | .closing phase => closeEffect ch s phase
  | .awaitClosed => if s.ctl.done then goOn s [] else none
  | .closeOnCancel => if s.ctl.ctx.isSome then goOn s [.close] else none
  | .removeOwned =>
    if s.ctl.deviceWriter then none
    else some { ctl := { s.ctl with deviceReaders := s.ctl.deviceReaders + 1 },
                frames := [.removeOwnedWait s.ctl.deviceAPI] }
  | .removeOwnedWait api =>
    if s.ctl.reconcileMu then none
    else some { ctl := { s.ctl with reconcileMu := true }, frames := [.removeOwnedSnapshot api] }
  | .removeOwnedSnapshot api =>
    if s.client.applied.Listing ch.keyOrder then
      goOn s [.removingOwned { api, applied := s.client.applied, keys := ch.keyOrder
                               phase := .next ch.keyOrder }]
    else none
  | .removingOwned r => removeOwnedEffect ch s r
  | .authenticate followup => authenticateEffect ch s followup
  | .authWait followup =>
    match ch.wait with
    | .timer => goOn s [.authenticate followup]
    | .resume =>
      if s.ctl.resume then
        some { ctl := { s.ctl with resume := false }, frames := [.authenticate followup] }
      else none
    | .done =>
      match s.ctl.ctx with
      | none => none
      | some ctxErr => goOn s [.authFailed ctxErr.text (ctxErr = .canceled)]
  | .authFailed err canceled =>
    if canceled then goOn s [] else goOn s [.sec (.setTerminalError err), .awaitDone]
  | .awaitDone => if s.ctl.ctx.isSome then goOn s [] else none
  | .mapLoop => if s.ctl.ctx.isSome then goOn s [] else goOn s [.mapStream]
  | .mapStream => mapStreamEffect ch s
  | .mapEnded err =>
    if s.ctl.ctx.isSome then goOn s []
    else goOn s [.sec (.reportError ("tailscale: map stream: " ++ err) (some .degraded)), .mapWait]
  | .mapWait =>
    if ch.wait = .timer then goOn s [.mapLoop]
    else if s.ctl.ctx.isSome then goOn s [] else none
  | .peerReconciler =>
    if ch.wait = .done then
      if s.ctl.ctx.isSome then goOn s [] else none
    else if s.ctl.reconcileWake then
      some { ctl := { s.ctl with reconcileWake := false },
             frames := [.call .reconcilePeers, .peerReconciler] }
    else none
  | .healthWorker => healthEffect ch s
  | .endpointUpdater =>
    if ch.wait = .done then
      if s.ctl.ctx.isSome then goOn s [] else none
    else if s.ctl.endpointWake then
      some { ctl := { s.ctl with endpointWake := false },
             frames := [.updaterAuth, .endpointUpdater] }
    else none
  | .updaterAuth => if s.client.authenticated then goOn s [.updaterEndpoints] else goOn s []
  | .updaterEndpoints => goOn s [.updaterRequest s.client.endpoints]
  | .updaterRequest endpoints =>
    if ch.ok = false ∧ s.ctl.ctx.isNone then
      some { ctl := { s.ctl with mapUpdate := some ⟨endpoints, s.client.preferredDERP⟩ },
             frames := [.sec (.reportError ("tailscale: publish endpoints: " ++ ch.err) none)] }
    else some { ctl := { s.ctl with mapUpdate := some ⟨endpoints, s.client.preferredDERP⟩ } }
  | .controlPingWorker =>
    if ch.wait = .done then
      if s.ctl.ctx.isSome then goOn s [] else none
    else match s.ctl.pingWake with
      | [] => none
      | ping :: queue => some { ctl := { s.ctl with pingWake := queue },
                                frames := [.answerPing ping, .controlPingWorker] }
  | .answerPing ping =>
    if ch.ok then goOn s [.sec (.pingAnswered ping.url), .unmarkPing ping.url none]
    else goOn s [.unmarkPing ping.url (some ch.err)]
  | .unmarkPing url err =>
    match err with
    | none => some { ctl := { s.ctl with pingPending := s.ctl.pingPending.erase url } }
    | some err =>
      if s.ctl.ctx.isNone then
        some { ctl := { s.ctl with pingPending := s.ctl.pingPending.erase url },
               frames := [.sec (.reportError ("tailscale: answer control ping: " ++ err) none)] }
      else some { ctl := { s.ctl with pingPending := s.ctl.pingPending.erase url } }
  | .workerDone => some { ctl := { s.ctl with wg := s.ctl.wg - 1 } }
  | .attachDevice api => if s.isClosed api then goOn s [] else goOn s [.attachEnter api]
  | .attachEnter api =>
    if s.ctl.lifeMu then none
    else if s.ctl.closed then goOn s []
    else some { ctl := { s.ctl with lifeMu := true }, frames := [.attaching api .check] }
  | .attaching api phase => attachEffect ch s api phase
  | .watch api generation =>
    if ch.wait = .done then
      if s.ctl.ctx.isSome then goOn s [] else none
    else if s.isClosed api then goOn s [.watchLock generation]
    else none
  | .watchLock generation =>
    if s.ctl.deviceFree then
      if s.ctl.deviceGeneration = generation then
        some { ctl := { s.ctl with deviceWriter := true }, frames := [.watching .clear] }
      else goOn s []
    else none
  | .watching phase => watchEffect ch s phase
  | .bindOpen => openEffect ch s
  | .handleSTUN tx mapped => handleSTUNEffect s tx mapped
  | .recordSTUN mapped =>
    if s.bind.any fun b => (b.recordSTUN mapped ch.now).2 then
      some { ctl := s.ctl, bind := some (.recordSTUN mapped ch.now), frames := [.notifyEndpoints] }
    else some { ctl := s.ctl, bind := some (.recordSTUN mapped ch.now) }
  | .refreshLocal generation => refreshEffect ch s generation
  | .installLocal generation localEndpoints =>
    if s.bind.any fun b => (b.refreshLocalEndpoints generation localEndpoints).2 then
      some { ctl := s.ctl, bind := some (.installLocal generation localEndpoints),
             frames := [.notifyEndpoints] }
    else some { ctl := s.ctl, bind := some (.installLocal generation localEndpoints) }
  | .kickDiscovery => kickEffect ch s
  | .notifyEndpoints => notifyEffect s
  | .deliverEndpoints endpoints _ => some { ctl := s.ctl, sec := some (.onEndpoints endpoints) }

/-- May a thread start with this frame? These are the public methods, and what the bind's own
goroutines call. -/
def entry (f : Frame) : Bool :=
  match f with
  | .start | .close | .confirmPeer _ | .revokePeerConfirmation _ | .resumeInteraction _ => true
  | .attachDevice api => decide (api ∈ s.devices)
  | .sec (.onPath _) | .sec (.onDERPLatency _) | .bindOpen | .handleSTUN _ _ | .refreshLocal _
  | .kickDiscovery => s.bind.isSome
  | _ => false

end

/-! ## The environment -/

/-- What happens outside the client: device APIs appear and close, other controllers write peers,
the context given to `Start` ends, the bind works on its peers' paths, and subscribers come, go and
receive. -/
inductive EnvAct where
  | newDevice (api : Nat) (privateKey : PrivateKey)
  | closeDevice (api : Nat)
  | foreignUpsert (api : Nat) (spec : PeerSpec)
  | foreignDelete (api : Nat) (key : NodePublic)
  | endContext (err : CtxError)
  | bindOp (op : BindOp)
  | querySTUN (tx : TxID) (probe : STUNProbe)
  | subscribe (buffer : Int)
  | unsubscribe (id : Nat)
  | receive (id : Nat)

/-- The operations of the bind that its own goroutines and the device call. -/
def BindOp.isInternal : BindOp → Bool
  | .setDirect .. | .addLearnedCandidates .. | .pruneLearnedCandidates .. | .closeBind
  | .probePeer .. | .recordPing .. => true
  | _ => false

/-- One action of the environment. -/
def environment (e : EnvAct) (s : Sys) : Option Sys :=
  match e with
  | .newDevice api privateKey =>
    if api ∈ s.devices then none
    else some { s with devices := s.devices.insert api { privateKey } }
  | .closeDevice api =>
    match s.devices.get api with
    | none => none
    | some d => some { s with devices := s.devices.insert api { d with closed := true } }
  | .foreignUpsert api spec =>
    some { s with
      devices := updateSpecs s.devices api (FinMap.insert · spec.publicKey ⟨.foreign, spec⟩) }
  | .foreignDelete api key =>
    some { s with devices := updateSpecs s.devices api (FinMap.erase · key) }
  | .endContext err =>
    if s.ctl.hasCtx ∧ s.ctl.ctx.isNone then some { s with ctl := { s.ctl with ctx := some err } }
    else none
  | .bindOp op =>
    match s.bind with
    | none => none
    | some b =>
      if op.isInternal then
        match b.exec op with
        | none => none
        | some b' => some { s with bind := some b' }
      else none
  | .querySTUN tx probe =>
    match s.bind with
    | none => none
    | some b =>
      if b.isOpen ∧ b.conn.isSome then
        some { s with bind := some { b with stunPending := b.stunPending.insert tx probe } }
      else none
  | .subscribe buffer =>
    match s.hub.subscribe buffer with
    | none => none
    | some hub => some { s with hub }
  | .unsubscribe id =>
    match s.hub.unsubscribe id with
    | none => none
    | some hub => some { s with hub }
  | .receive id =>
    match s.hub.receive id with
    | none => none
    | some hub => some { s with hub }

/-- The program. -/
def program : Machine Sys Frame Choice EnvAct where
  exec f ch s := (effect ch s f).map fun e => e.apply ch.now s
  env := environment
  entry f s := entry s f

/-- The state after `New`, with the API it was given, if any. -/
def initial (opts : Options) (privateKey : Option PrivateKey) : Config Sys Frame where
  shared :=
    { client := { opts }
      devices := match privateKey with
        | none => ∅
        | some privateKey => (∅ : FinMap Nat Device).insert 0 { privateKey }
      ctl := { deviceAPI := privateKey.map fun _ => 0 } }

/-! ## Particular runs -/

/-- The actions of a run, in turn. -/
abbrev Schedule := List (Act Frame Choice EnvAct)

/-- Thread `t` makes `n` steps, all with the same choices. -/
def steps (t n : Nat) (ch : Choice := {}) : Schedule :=
  List.replicate n (.run t ch)

/-- Some options. -/
def sampleOptions : Options :=
  { hostname := "host", packages := { mulBase := id, errDeviceClosed := "device closed" } }

/-- A client with those options and a device. -/
def sampleClient : Config Sys Frame := initial sampleOptions (some ⟨7⟩)

/-- `Start` on a client with a device, while the given subscribers are there. Afterwards threads 1 to 7
are the goroutines that `Start` leaves behind: `run`, `endpointUpdater`, `peerReconciler`,
`directPathHealthWorker`, `controlPingWorker`, the watch of the device, and the one that closes the
client with its context. -/
def startRun (subscribers : List Nat) : Schedule :=
  [.start .start] ++ steps 0 9 ++
    steps 0 (2 * (2 + subscribers.length) + 1) { subOrder := subscribers }

/-- The client has read a first response. -/
def receiveFirst (response : MapResponse) : Schedule :=
  startRun [] ++ steps 1 8 ++ steps 1 1 { stream := .response response }

/-- A response with the self node and a peer that has an address. -/
def routedResponse : MapResponse :=
  { node := some { id := 1, key := ⟨7⟩ }
    peers := some [some { id := 2, key := ⟨42⟩, discoKey := ⟨9⟩
                          addresses := some [⟨.v4 0x64400002, some 32, rfl, by decide⟩] }] }

/-- The client has received the response and published the peer. -/
def publishRoutedPeer : Schedule :=
  receiveFirst routedResponse ++ steps 1 12 ++
    steps 1 1 { nodeOrder := [2] } ++ steps 1 15 { keyOrder := [⟨42⟩] }

/-- The client has published the peer, and another controller takes it over. -/
def loseRoutedPeer : Schedule :=
  publishRoutedPeer ++ [.env (.foreignUpsert 0
    { publicKey := ⟨42⟩, allowedIPs := [], endpoint := some ⟨"udp", "9.9.9.9:9"⟩ })]

/-- The response is applied once more. -/
def applyRoutedResponse : Schedule :=
  steps 1 19 { stream := .response routedResponse, nodeOrder := [2], keyOrder := [⟨42⟩] }

/-- A response with the self node and a DERP map of the given regions. -/
def relaysResponse (regions : List Int) : MapResponse :=
  let region : DERPRegion := { nodes := some [some {}] }
  { node := some { id := 1, key := ⟨7⟩ }
    derpMap := some { regions := some (regions.foldl (fun m id => m.insert id (some region)) ∅) } }

/-- The client has received a DERP map with two regions and handed it to the bind, with the first as
its home. -/
def receiveRelays : Schedule :=
  receiveFirst (relaysResponse [1, 2]) ++ steps 1 24

end WgoTailscale
