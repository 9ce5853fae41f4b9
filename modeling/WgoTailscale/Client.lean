import WgoTailscale.Bind
import WgoTailscale.Lib.GoText

/-!
# The client's state (`client.go`, `types.go`, `events.go`, `options.go`)

`Client` holds what `Client.mu` guards. Fields that never change after `New`, and those that other
locks guard, are not here, except the options. `bumpLocked` and `eventLocked` are the two helpers
that every critical section ends with.
-/

namespace WgoTailscale

/-! ## Keys -/

/-- What the client takes from other packages, whatever it is: `curve25519.X25519` with the base
point, and the text of wgo's `device.ErrDeviceClosed`. -/
structure Packages where
  mulBase : BitVec 256 → BitVec 256
  errDeviceClosed : String

/-- `PrivateKey.PublicNode`. -/
def PrivateKey.publicNode (k : PrivateKey) (packages : Packages) : NodePublic :=
  ⟨packages.mulBase k.raw⟩

/-- `PrivateKey.PublicMachine`. -/
def PrivateKey.publicMachine (k : PrivateKey) (packages : Packages) : MachinePublic :=
  ⟨packages.mulBase k.raw⟩

/-- `PrivateKey.PublicDisco`. -/
def PrivateKey.publicDisco (k : PrivateKey) (packages : Packages) : DiscoPublic :=
  ⟨packages.mulBase k.raw⟩

/-- `MachinePublic.String`. -/
def MachinePublic.toText (k : MachinePublic) : String := "mkey:" ++ hexKey k.raw

/-- `DiscoPublic.String`. -/
def DiscoPublic.toText (k : DiscoPublic) : String := "discokey:" ++ hexKey k.raw

/-! ## Options and errors -/

/-- A `device.AmneziaWGConfig`, which the client copies and never looks into. -/
structure AmneziaWGConfig where
  token : Nat
  deriving DecidableEq, Repr

/-- `device.DefaultTransportID`. -/
def defaultTransportID : String := ""

/-- The fields of `Options` that the modelled functions read, after `withDefaults`, which refuses
the transport id of wgo's default transport, and the packages that the client is built with. -/
structure Options where
  controlURL : String := "https://controlplane.tailscale.com"
  hostname : String
  ephemeral : Bool := false
  confirmPeers : Bool := false
  obfuscation : Option AmneziaWGConfig := none
  transportID : String := "tailscale"
  useDefaultTransportForDirectPeers : Bool := false
  interfaceName : String := "tailscale0"
  mtu : Nat := 1280
  disableDERP : Bool := false
  disableDiscovery : Bool := false
  packages : Packages
  transportID_ne : transportID ≠ defaultTransportID := by decide

/-- The text of `ErrNodeKeyExpired`. -/
def errNodeKeyExpired : String :=
  "tailscale: control requires node-key rotation, but the wgo device key is immutable to this client"

/-- The text of `ErrPeerConflict`. -/
def errPeerConflict : String :=
  "tailscale: peer public key is already owned by another wgo controller"

/-- The text of `ErrControlNodeKeyMismatch`. -/
def errControlNodeKeyMismatch : String :=
  "tailscale: control returned a self node key that does not match the wgo device"

/-- The text of `ErrZeroNodeKey`. -/
def errZeroNodeKey : String := "tailscale: wgo device has no private node key"

/-! ## Events -/

/-- `State`. -/
inductive State where
  | new
  | starting
  | needsAuthentication
  | running
  | degraded
  | stopping
  | stopped
  deriving DecidableEq, Repr

/-- The two states of a client that is shut down or shutting down. -/
def State.isStop : State → Bool
  | .stopping | .stopped => true
  | _ => false

/-- `EventKind`. -/
inductive EventKind where
  | state
  | interaction
  | self
  | peers
  | peerPath
  | dns
  | acl
  | network
  | derp
  | users
  | metadata
  | error
  deriving DecidableEq, Repr

/-- `Event`; an error is its text. -/
structure Event where
  kind : EventKind
  revision : Nat
  time : Time
  err : Option String := none
  deriving DecidableEq, Repr

/-! ## Parts of the state -/

/-- `InteractionKind`. -/
inductive InteractionKind where
  | authenticate
  | nodeKeyExpired
  | controlURL
  deriving DecidableEq, Repr

/-- `Interaction`. -/
structure Interaction where
  id : Nat
  kind : InteractionKind
  url : String
  message : String
  since : Time
  deriving DecidableEq, Repr

/-- `ClientInfo`. -/
structure ClientInfo where
  controlURL : String := ""
  hostname : String := ""
  nodePublicKey : NodePublic := ⟨0⟩
  machinePublicKey : String := ""
  discoPublicKey : String := ""
  backendLogID : String := ""
  transportID : String := ""
  startedAt : Time := 0
  authenticatedAt : Time := 0
  userID : Int := 0
  loginName : String := ""
  displayName : String := ""
  profilePicURL : String := ""
  ephemeral : Bool := false
  peerConfirmation : Bool := false
  capabilityVersion : Nat := 0
  machineAuthorized : Bool := false
  mapSessionHandle : String := ""
  mapSequence : Int := 0
  preferredDERP : Int := 0

/-- `PathKind`; `unset` is the zero value, which is none of the named kinds. -/
inductive PathKind where
  | unset
  | none
  | direct
  | derp
  deriving DecidableEq, Repr

/-- `peerLocalState`. -/
structure PeerLocalState where
  applied : Bool := false
  path : PathKind := .unset
  direct : AddrPort := .zero
  latency : Duration := 0
  pathAt : Time := 0
  directSince : Time := 0
  directRecovery : Bool := false
  recoveryDirect : AddrPort := .zero
  err : String := ""
  deriving DecidableEq

/-- `device.PeerEndpoint`. -/
structure PeerEndpoint where
  transport : String
  address : String
  deriving DecidableEq, Repr

/-- `appliedPeer`; `hasEndpoint` and `endpoint` are one option. -/
structure AppliedPeer where
  id : String
  endpoint : Option PeerEndpoint
  deriving DecidableEq, Repr

/-- `tailnet.DERPLatencySource`. -/
inductive DERPLatencySource where
  | stun
  | https
  deriving DecidableEq, Repr

/-- `tailnet.DERPRegionLatency`. -/
structure DERPRegionLatency where
  regionID : Int
  latency : Duration
  source : DERPLatencySource
  time : Time
  deriving DecidableEq, Repr

/-- `cacheState`. -/
structure CacheState where
  version : Int := 0
  nodePublic : String := ""
  machinePrivate : PrivateKey := ⟨0⟩
  discoPrivate : PrivateKey := ⟨0⟩
  backendLogID : String := ""
  confirmedPeerIDs : List String := []

/-! ## The client -/

/-- `Client`, the part guarded by `mu`, and its options. A peer in `peers` is never nil, and
`confirmed` only ever maps to true. -/
structure Client where
  opts : Options
  state : State := .new
  revision : Nat := 0
  time : Time := 0
  lastError : String := ""
  terminalError : Option String := none
  interaction : Option Interaction := none
  interactionID : Nat := 0
  authenticated : Bool := false
  lastPingURL : String := ""
  lastBrowserURL : String := ""
  nodePrivate : PrivateKey := ⟨0⟩
  cache : CacheState := {}
  confirmed : Finset String := ∅
  info : ClientInfo := {}
  self : Option Node := none
  peers : FinMap Int Node := ∅
  peerLocal : FinMap NodePublic PeerLocalState := ∅
  applied : FinMap NodePublic AppliedPeer := ∅
  users : List UserProfile := []
  dns : Option DNSConfig := none
  filters : List FilterRule := []
  namedFilters : FinMap String (List FilterRule) := ∅
  derpMap : Option DERPMap := none
  derpLatency : FinMap Int DERPRegionLatency := ∅
  domain : String := ""
  health : List String := []
  controlTime : Option Time := none
  controlTimeAt : Time := 0
  endpoints : List EndpointCandidate := []
  preferredDERP : Int := 0
  dnsRevision : Nat := 0
  aclRevision : Nat := 0
  networkRevision : Nat := 0
  derpRevision : Nat := 0

namespace Client

/-- `bumpLocked`. -/
def bump (c : Client) (now : Time) : Client := { c with revision := c.revision + 1, time := now }

/-- `eventLocked`. -/
def event (c : Client) (kind : EventKind) (err : Option String := none) : Event :=
  { kind, revision := c.revision, time := c.time, err }

@[simp] theorem revision_event (c : Client) (kind : EventKind) (err : Option String) :
    (c.event kind err).revision = c.revision := rfl

end Client

/-! ## Nodes -/

/-- `homeDERP`. -/
def homeDERP (node : Option Node) : Int :=
  match node with
  | none => 0
  | some node =>
    if node.homeDERP ≠ 0 then node.homeDERP
    else match GoText.splitHostPort node.legacyDERPString.toList with
      | some (_, port) => GoText.parseInt port
      | none => 0

/-- `peerID`. -/
def peerID (node : Node) : String :=
  if node.stableID ≠ "" then node.stableID else node.key.toText

/-- The home region that `applyMapResponse`, `onDERPLatency` and `derpViewLocked` compute: the
preferred region, or the self node's if there is none. -/
def Client.selfDERP (c : Client) : Int :=
  if c.preferredDERP = 0 then homeDERP c.self else c.preferredDERP

end WgoTailscale
