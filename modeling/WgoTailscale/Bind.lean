import WgoTailscale.ControlProto
import WgoTailscale.Lib.Index
import WgoTailscale.Lib.Transition
import WgoTailscale.NetipText

/-!
# The transport bind (`internal/tailnet/bind.go`, `disco.go`, `stun.go`)

The state that `Bind.mu` guards and the operations on it, each the body of one critical section:
peers and their two indexes (`byDisco`, by discovery key, and `byAddr`, by address), the paths
learned from DISCO messages, the local and STUN endpoints, and the DERP configuration. What an
operation reads from outside (the clock, the outcome of `ListenUDP`, interface addresses, the order
in which Go visits a map) is an argument.
-/

namespace WgoTailscale

open Index

/-! ## State -/

/-- `EndpointCandidate`. -/
structure EndpointCandidate where
  addr : AddrPort
  type : EndpointType
  deriving DecidableEq, Repr

/-- `PeerConfig`. -/
structure PeerConfig where
  nodeKey : NodePublic
  discoKey : DiscoPublic
  endpoints : List AddrPort
  homeDERP : Int
  wireGuardOnly : Bool
  deriving DecidableEq

/-- `peerState`. -/
structure PeerState where
  config : PeerConfig
  candidates : List AddrPort
  learned : FinMap AddrPort Time
  direct : AddrPort
  latency : Duration
  directAt : Time
  lastProbe : Time

/-- The zero `peerState`, which `UpdatePeer` starts a new peer from. -/
def PeerState.zero : PeerState where
  config := { nodeKey := ⟨0⟩, discoKey := ⟨0⟩, endpoints := [], homeDERP := 0,
              wireGuardOnly := false }
  candidates := []
  learned := ∅
  direct := .zero
  latency := 0
  directAt := 0
  lastProbe := 0

/-- A transaction id. -/
abbrev TxID := BitVec 96

/-- `pendingPing`. -/
structure PendingPing where
  node : NodePublic
  addr : AddrPort
  sent : Time

/-- `stunProbe`. -/
structure STUNProbe where
  sent : Time
  checkID : Nat
  regionID : Int

/-- The options of `Config` that the modelled operations read. -/
structure BindConfig where
  disableDERP : Bool
  disableDiscovery : Bool
  deriving DecidableEq

/-- `Bind`, the part guarded by `mu`. An installed connection is its local address. -/
structure Bind where
  cfg : BindConfig
  isOpen : Bool
  closed : Bool
  conn : Option AddrPort
  generation : Nat
  localPort : UInt16
  localEndpoints : List EndpointCandidate
  stun : FinMap AddrPort EndpointCandidate
  stunAt : FinMap AddrPort Time
  peers : FinMap NodePublic PeerState
  byDisco : FinMap DiscoPublic NodePublic
  byAddr : FinMap AddrPort NodePublic
  pending : FinMap TxID PendingPing
  stunPending : FinMap TxID STUNProbe
  derpMap : Option DERPMap
  selfDERP : Int

/-- `NewBind`. -/
def newBind (cfg : BindConfig) : Bind where
  cfg := cfg
  isOpen := false
  closed := false
  conn := none
  generation := 0
  localPort := 0
  localEndpoints := []
  stun := ∅
  stunAt := ∅
  peers := ∅
  byDisco := ∅
  byAddr := ∅
  pending := ∅
  stunPending := ∅
  derpMap := none
  selfDERP := 0

/-! ## Peers -/

/-- `maxControlPeerEndpoints`. -/
def maxControlPeerEndpoints : Nat := 256

/-- `maxLearnedPeerEndpoints`. -/
def maxLearnedPeerEndpoints : Nat := 256

/-- `discoCandidateLifetime`, two minutes. -/
def discoCandidateLifetime : Duration := 120 * second

/-- `stunEndpointLifetime`, two minutes. -/
def stunEndpointLifetime : Duration := 120 * second

/-- The loop of `sanitizeEndpoints`; the addresses seen are those of the result so far. -/
def sanitizeLoop : List AddrPort → List AddrPort → List AddrPort
  | [], result => result
  | endpoint :: rest, result =>
    let address := endpoint.addr.unmap
    let endpoint : AddrPort := ⟨address, endpoint.port⟩
    if ¬ address.isValid ∨ address.isUnspecified ∨ address.isMulticast ∨ endpoint.port = 0 ∨
        endpoint ∈ result then sanitizeLoop rest result
    else if maxControlPeerEndpoints ≤ result.length + 1 then result ++ [endpoint]
    else sanitizeLoop rest (result ++ [endpoint])

/-- `sanitizeEndpoints`. -/
def sanitizeEndpoints (endpoints : List AddrPort) : List AddrPort := sanitizeLoop endpoints []

/-- The configuration as `UpdatePeer` stores it. -/
def PeerConfig.sanitized (config : PeerConfig) : PeerConfig :=
  { config with endpoints := sanitizeEndpoints config.endpoints }

@[simp] theorem PeerConfig.sanitized_nodeKey (config : PeerConfig) :
    config.sanitized.nodeKey = config.nodeKey := rfl

@[simp] theorem PeerConfig.sanitized_discoKey (config : PeerConfig) :
    config.sanitized.discoKey = config.discoKey := rfl

/-- `rebuildPeerCandidates`. -/
def rebuildPeerCandidates (state : PeerState) : PeerState :=
  { state with
    candidates := state.config.endpoints ++ state.learned.sortedKeys AddrPort.compare }

namespace Bind

/-- The body of `UpdatePeer` once the configuration is known to change something. -/
def replacePeer (b : Bind) (state : PeerState) (config : PeerConfig) : Bind :=
  let key := config.nodeKey
  let oldDiscoKey := state.config.discoKey
  let byDisco := if oldDiscoKey.isZero then b.byDisco else b.byDisco.erase oldDiscoKey
  let byAddr := claim (release b.byAddr key state.candidates) key config.endpoints
  let byDisco := if config.discoKey.isZero then byDisco else byDisco.insert config.discoKey key
  let state := { state with
    config, candidates := config.endpoints, learned := ∅, lastProbe := 0 }
  if state.direct.isValid ∧ oldDiscoKey ≠ config.discoKey then
    { b with
      peers := b.peers.insert key { state with direct := .zero, latency := 0, directAt := 0 }
      byDisco, byAddr := releaseOne byAddr key state.direct }
  else if state.direct.isValid then
    { b with peers := b.peers.insert key state, byDisco, byAddr := byAddr.insert state.direct key }
  else { b with peers := b.peers.insert key state, byDisco, byAddr }

/-- `UpdatePeer`, the critical section. -/
def updatePeer (b : Bind) (config : PeerConfig) : Bind :=
  match b.peers.get config.nodeKey with
  | none => b.replacePeer .zero config.sanitized
  | some state =>
    if state.config = config.sanitized then b else b.replacePeer state config.sanitized

/-- `RemovePeer`. -/
def removePeer (b : Bind) (key : NodePublic) : Bind :=
  let b := match b.peers.get key with
    | none => b
    | some state =>
      let byAddr := release b.byAddr key state.candidates
      { b with
        byDisco := b.byDisco.erase state.config.discoKey
        byAddr := if state.direct.isValid then releaseOne byAddr key state.direct else byAddr }
  { b with
    peers := b.peers.erase key
    pending := b.pending.filter fun _ ping => ping.node ≠ key }

/-- A learned address was observed too long ago. -/
def expiredAt (now observed : Time) : Bool := discoCandidateLifetime < now - observed

/-- `pruneLearnedCandidatesLocked`. The loop over `learned` drops each expired address and, unless
it is the direct path, its index entry if that names the peer. -/
def pruneLearnedCandidates (b : Bind) (node : NodePublic) (now : Time) : Bind × Bool :=
  match b.peers.get node with
  | none => (b, false)
  | some state =>
    if state.learned.any fun _ observed => expiredAt now observed then
      let expired (a : AddrPort) : Bool := (state.learned.get a).any (expiredAt now)
      ({ b with
        byAddr := b.byAddr.filter fun a k => !(expired a && k = node && state.direct ≠ a)
        peers := b.peers.insert node (rebuildPeerCandidates
          { state with learned := state.learned.filter fun _ observed => !expiredAt now observed }) },
        true)
    else (b, false)

/-- One round of the loop of `addLearnedCandidatesLocked`: the peer, the index and whether anything
is new. -/
def learnOne (node : NodePublic) (now : Time)
    (acc : PeerState × FinMap AddrPort NodePublic × Bool) (endpoint : AddrPort) :
    PeerState × FinMap AddrPort NodePublic × Bool :=
  let (state, byAddr, changed) := acc
  let endpoint := unmapAddrPort endpoint
  if ¬ endpoint.isValid ∨ endpoint ∈ state.config.endpoints then acc
  else
    let learn : PeerState := { state with learned := state.learned.insert endpoint now }
    if endpoint ∈ state.learned then (learn, byAddr.insert endpoint node, changed)
    else if maxLearnedPeerEndpoints ≤ state.learned.keys.card then acc
    else (learn, byAddr.insert endpoint node, true)

/-- `addLearnedCandidatesLocked`. -/
def addLearnedCandidates (b : Bind) (node : NodePublic) (fresh : List AddrPort) (now : Time) :
    Bind × Bool :=
  let (b, pruned) := b.pruneLearnedCandidates node now
  match b.peers.get node with
  | none => (b, false)
  | some state =>
    let (state, byAddr, changed) := fresh.foldl (learnOne node now) (state, b.byAddr, pruned)
    let state := if changed then rebuildPeerCandidates state else state
    ({ b with peers := b.peers.insert node state, byAddr }, changed)

/-- `setDirect`, the critical section, and whether the path is emitted. -/
def setDirect (b : Bind) (node : NodePublic) (addr : AddrPort) (latency : Duration) (now : Time) :
    Bind × Bool :=
  let addr := unmapAddrPort addr
  if ¬ addr.isValid ∨ addr.addr.isUnspecified ∨ addr.addr.isMulticast ∨ addr.port = 0 then (b, false)
  else match b.peers.get node with
  | none => (b, false)
  | some state =>
    let byAddr :=
      if state.direct.isValid ∧ state.direct ≠ addr ∧ state.direct ∉ state.candidates then
        releaseOne b.byAddr node state.direct
      else b.byAddr
    ({ b with
      peers := b.peers.insert node { state with direct := addr, latency, directAt := now }
      byAddr := byAddr.insert addr node },
      state.direct ≠ addr ∨ latency ≠ state.latency)

/-- The first critical section of `probePeer`, and whether the peer is probed: the pings that are
still outstanding for it, and those of any peer older than a minute, are forgotten. -/
def probePeer (b : Bind) (node : NodePublic) (now : Time) : Bind × Bool :=
  if b.cfg.disableDiscovery then (b, false)
  else match b.peers.get node with
  | none => (b, false)
  | some state =>
    if state.config.discoKey.isZero ∨ ¬ b.isOpen ∨
        (state.lastProbe ≠ 0 ∧ now - state.lastProbe < 5 * second) then (b, false)
    else
      ({ b with
        peers := b.peers.insert node { state with lastProbe := now }
        pending := b.pending.filter fun _ ping =>
          ping.node ≠ node ∧ now - ping.sent ≤ 60 * second }, true)

/-- The record of one ping in `probePeer`. -/
def recordPing (b : Bind) (tx : TxID) (ping : PendingPing) : Bind :=
  { b with pending := b.pending.insert tx ping }

/-! ## Open and Close -/

/-- How `ListenUDP` ended: no connection, a connection whose local address does not parse, or one
with its local address. -/
inductive Listen where
  | failed
  | noAddress
  | ok (actual : AddrPort)
  deriving DecidableEq

/-- `Open`'s loop body over the peers. -/
def reopenPeer (now : Time) (b : Bind) (key : NodePublic) : Bind :=
  let b := (b.pruneLearnedCandidates key now).1
  match b.peers.get key with
  | none => b
  | some state =>
    { b with
      peers := b.peers.insert key
        { state with direct := .zero, latency := 0, directAt := 0, lastProbe := 0 }
      byAddr := claim b.byAddr key state.candidates }

/-- The address an interface address text stands for: a prefix's address, or an address. -/
def interfaceAddr (text : String) : Option Addr :=
  match parsePrefix text with
  | some p => some p.addr
  | none => parseAddr text

/-- The order of `localEndpointsLocked` and `endpointsLocked`: by address, then by type. -/
def compareCandidates (a c : EndpointCandidate) : Ordering :=
  (a.addr.compare c.addr).then (compare a.type.toNat c.type.toNat)

/-- `localEndpointsLocked`, from the texts of the interface addresses. -/
def localEndpointsFor (actual : AddrPort) (interfaces : List String) : List EndpointCandidate :=
  let add (result : List EndpointCandidate) (addr : Addr) : List EndpointCandidate :=
    let addr := addr.unmap
    let endpoint : EndpointCandidate := ⟨⟨addr, actual.port⟩, .local⟩
    if ¬ addr.isValid ∨ addr.isUnspecified ∨ addr.isLoopback ∨ addr.isMulticast ∨
        addr.isLinkLocalUnicast ∨ endpoint ∈ result then result
    else result ++ [endpoint]
  let first := if actual.addr.isValid ∧ ¬ actual.addr.isUnspecified then [actual.addr] else []
  sortBy compareCandidates ((first ++ interfaces.filterMap interfaceAddr).foldl add [])

/-- `Open`, up to its `Unlock`; `order` is the order in which it visits the peers. -/
def openBind (b : Bind) (listen : Listen) (now : Time) (order : List NodePublic)
    (interfaces : List String) : Bind :=
  if b.isOpen then b
  else
    let b := { b with closed := false }
    let install (conn : Option AddrPort) : Bind :=
      let b := { b with
        generation := b.generation + 1, conn, isOpen := true
        localPort := (conn.getD .zero).port
        stun := ∅, stunAt := ∅, stunPending := ∅, pending := ∅, byAddr := ∅ }
      let b := order.foldl (reopenPeer now) b
      { b with
        localEndpoints := match conn with
          | some actual => if b.cfg.disableDiscovery then [] else localEndpointsFor actual interfaces
          | none => [] }
    match listen with
    | .failed => if b.cfg.disableDERP then b else install none
    | .noAddress => b
    | .ok actual => install (some actual)

/-- `Close`. -/
def closeBind (b : Bind) : Bind :=
  if b.isOpen then { b with isOpen := false, closed := true, conn := none }
  else { b with closed := true }

/-! ## Endpoints -/

/-- `slices.CompactFunc` by address, from a kept element on. -/
def compactFrom (a : EndpointCandidate) : List EndpointCandidate → List EndpointCandidate
  | [] => [a]
  | b :: l => if a.addr = b.addr then compactFrom a l else a :: compactFrom b l

/-- `slices.CompactFunc` by address. -/
def compactByAddr : List EndpointCandidate → List EndpointCandidate
  | [] => []
  | a :: l => compactFrom a l

/-- `endpointsLocked`, when the STUN endpoints are visited in the given order. -/
def endpointsFrom (b : Bind) (order : List AddrPort) : List EndpointCandidate :=
  compactByAddr (sortBy compareCandidates (b.localEndpoints ++ order.filterMap b.stun.get))

/-- `endpointsLocked`. -/
def endpoints (b : Bind) : List EndpointCandidate :=
  b.endpointsFrom (b.stun.sortedKeys AddrPort.compare)

/-- `CurrentEndpoints`. -/
def currentEndpoints (b : Bind) : List EndpointCandidate :=
  if b.cfg.disableDiscovery then [] else b.endpoints

/-- The record of a STUN answer in `handleSTUN`, and whether the endpoint is new. -/
def recordSTUN (b : Bind) (mapped : AddrPort) (now : Time) : Bind × Bool :=
  ({ b with stun := b.stun.insert mapped ⟨mapped, .stun⟩, stunAt := b.stunAt.insert mapped now },
    mapped ∉ b.stun)

/-- `pruneSTUNEndpointsLocked`. -/
def pruneSTUNEndpoints (b : Bind) (now : Time) : Bind × Bool :=
  let expired (observed : Time) : Bool := stunEndpointLifetime < now - observed
  ({ b with
    stunAt := b.stunAt.filter fun _ observed => !expired observed
    stun := b.stun.filter fun a _ => !(b.stunAt.get a).any expired },
    b.stunAt.any fun _ observed => expired observed)

/-- `refreshLocalEndpoints`, its second critical section with the list computed before it, and
whether the list is installed. -/
def refreshLocalEndpoints (b : Bind) (generation : Nat) (localEndpoints : List EndpointCandidate) :
    Bind × Bool :=
  if ¬ b.isOpen ∨ b.generation ≠ generation ∨ b.localEndpoints = localEndpoints then (b, false)
  else ({ b with localEndpoints }, true)

/-- `UpdateDERPMap`, the critical section. -/
def updateDERPMap (b : Bind) (derpMap : Option DERPMap) (selfHome : Int) : Bind :=
  let copyMap := cloneDERPMap derpMap
  if b.selfDERP = selfHome ∧ b.derpMap = copyMap then b
  else { b with derpMap := copyMap, selfDERP := selfHome }

end Bind

/-! ## Attribution -/

/-- `logicalEndpoint`, what a packet is received from or sent to: a peer or a bare address. -/
inductive LogicalEndpoint where
  | node (key : NodePublic)
  | direct (addr : AddrPort)
  deriving DecidableEq

namespace Bind

/-- `readUDP`: the endpoint a datagram that is neither STUN nor DISCO is delivered with. -/
def readUDP (b : Bind) (generation : Nat) (source : AddrPort) : Option LogicalEndpoint :=
  if b.generation ≠ generation ∨ ¬ b.isOpen then none
  else match b.byAddr.get (unmapAddrPort source) with
  | some node => some (.node node)
  | none => some (.direct (unmapAddrPort source))

/-- `handleDERPPacket`: the endpoint a packet relayed for a node is delivered with. -/
def handleDERPPacket (b : Bind) (source : NodePublic) : Option LogicalEndpoint :=
  if ¬ b.isOpen ∨ source ∉ b.peers then none else some (.node source)

/-- `handleDisco`: the peer whose message a DISCO packet with this sender is taken for. Over DERP the
relay names the source. -/
def discoNode (b : Bind) (sender : DiscoPublic) (derpSource : Option NodePublic) :
    Option NodePublic :=
  match b.byDisco.get sender with
  | none => none
  | some node =>
    if node ∉ b.peers ∨ derpSource.any fun source => source ≠ node then none else some node

end Bind

/-! ## Sequences of operations -/

/-- One critical section of the bind, with what it reads from outside. -/
inductive BindOp where
  | updatePeer (config : PeerConfig)
  | removePeer (key : NodePublic)
  | setDirect (node : NodePublic) (addr : AddrPort) (latency : Duration) (now : Time)
  | addLearnedCandidates (node : NodePublic) (fresh : List AddrPort) (now : Time)
  | pruneLearnedCandidates (node : NodePublic) (now : Time)
  | openBind (listen : Bind.Listen) (now : Time) (order : List NodePublic)
      (interfaces : List String)
  | closeBind
  | probePeer (node : NodePublic) (now : Time)
  | recordPing (tx : TxID) (ping : PendingPing)

/-- One operation. `Open` visits the peers in some order of all of them. -/
def Bind.exec (b : Bind) : BindOp → Option Bind
  | .updatePeer config => some (b.updatePeer config)
  | .removePeer key => some (b.removePeer key)
  | .setDirect node addr latency now => some (b.setDirect node addr latency now).1
  | .addLearnedCandidates node fresh now => some (b.addLearnedCandidates node fresh now).1
  | .pruneLearnedCandidates node now => some (b.pruneLearnedCandidates node now).1
  | .openBind listen now order interfaces =>
    if b.peers.Listing order then some (b.openBind listen now order interfaces) else none
  | .closeBind => some b.closeBind
  | .probePeer node now => some (b.probePeer node now).1
  | .recordPing tx ping => some (b.recordPing tx ping)

/-- The bind under sequences of operations. -/
def bindSystem : System Bind BindOp := ⟨Bind.exec⟩

end WgoTailscale
