import WgoTailscale.Lib.FinMap
import WgoTailscale.Netip

/-!
# The control protocol's data

The structures of `internal/controlproto/types.go` that the client retains or reads, field by
field. A slice or map that may be nil is an option, because `reflect.DeepEqual`, on which all
change detection rests, tells nil from empty; with that reading `DeepEqual` is equality of the Lean
values. A pointer to a struct is an option too. Times are nanoseconds since Go's zero time.
-/

namespace WgoTailscale

/-! ## Go's data -/

/-- A Go slice: `none` is the nil slice. -/
abbrev Slice (α : Type) := Option (List α)

/-- The elements of a slice, none for the nil slice. -/
def Slice.list {α : Type} (s : Slice α) : List α := s.getD []

@[simp] theorem Slice.list_none {α : Type} : Slice.list (none : Slice α) = [] := rfl

@[simp] theorem Slice.list_some {α : Type} (l : List α) : Slice.list (some l : Slice α) = l := rfl

/-- A Go map: `none` is the nil map. -/
abbrev GoMap (K V : Type) := Option (FinMap K V)

/-- Lookup in a possibly nil map. -/
def GoMap.get {K V : Type} (m : GoMap K V) (k : K) : Option V := m.bind (FinMap.get · k)

/-- `time.Time`, in nanoseconds; `IsZero` is `· = 0`. -/
abbrev Time := Int

/-- `time.Duration`, in nanoseconds. -/
abbrev Duration := Int

/-- `time.Second`. -/
def second : Duration := 1000000000

/-- `json.RawMessage`. -/
abbrev RawMessage := Slice UInt8

/-! ## Keys (`key.go`) -/

structure PrivateKey where
  raw : BitVec 256
  deriving DecidableEq, Repr, Inhabited

structure NodePublic where
  raw : BitVec 256
  deriving DecidableEq, Repr, Inhabited

structure MachinePublic where
  raw : BitVec 256
  deriving DecidableEq, Repr, Inhabited

structure DiscoPublic where
  raw : BitVec 256
  deriving DecidableEq, Repr, Inhabited

def PrivateKey.isZero (k : PrivateKey) : Bool := k.raw == 0
def NodePublic.isZero (k : NodePublic) : Bool := k.raw == 0
def MachinePublic.isZero (k : MachinePublic) : Bool := k.raw == 0
def DiscoPublic.isZero (k : DiscoPublic) : Bool := k.raw == 0

/-- The 64 hexadecimal digits of a 32-byte key. -/
def hexKey (raw : BitVec 256) : String :=
  String.ofList ((List.range 64).map fun i => Nat.digitChar (raw.toNat / 16 ^ (63 - i) % 16))

/-- `NodePublic.String`. -/
def NodePublic.toText (k : NodePublic) : String := "nodekey:" ++ hexKey k.raw

/-! ## Nodes -/

/-- `controlproto.Node`. -/
structure Node where
  id : Int
  stableID : String := ""
  name : String := ""
  user : Int := 0
  sharer : Int := 0
  key : NodePublic
  keyExpiry : Time := 0
  keySignature : Slice UInt8 := none
  machine : MachinePublic := ⟨0⟩
  discoKey : DiscoPublic := ⟨0⟩
  addresses : Slice Prefix := none
  allowedIPs : Slice Prefix := none
  endpoints : Slice AddrPort := none
  legacyDERPString : String := ""
  homeDERP : Int := 0
  hostinfo : RawMessage := none
  created : Time := 0
  cap : Int := 0
  tags : Slice String := none
  primaryRoutes : Slice Prefix := none
  lastSeen : Option Time := none
  online : Option Bool := none
  machineAuthorized : Bool := false
  capabilities : Slice String := none
  capMap : GoMap String (Slice RawMessage) := none
  unsignedPeerAPIOnly : Bool := false
  computedName : String := ""
  computedNameWithHost : String := ""
  dataPlaneAuditLogID : String := ""
  expired : Bool := false
  selfNodeV4MasqAddrForThisPeer : Option Addr := none
  selfNodeV6MasqAddrForThisPeer : Option Addr := none
  isWireGuardOnly : Bool := false
  isJailed : Bool := false
  exitNodeDNSResolvers : Slice RawMessage := none
  rawJSON : RawMessage := none
  deriving DecidableEq

/-- `controlproto.PeerChange`. -/
structure PeerChange where
  nodeID : Int
  derpRegion : Int := 0
  cap : Int := 0
  capMap : GoMap String (Slice RawMessage) := none
  endpoints : Slice AddrPort := none
  key : Option NodePublic := none
  keySignature : Slice UInt8 := none
  discoKey : Option DiscoPublic := none
  online : Option Bool := none
  lastSeen : Option Time := none
  keyExpiry : Option Time := none
  deriving DecidableEq

/-! ## DERP maps -/

/-- `controlproto.DERPNode`. -/
structure DERPNode where
  name : String := ""
  regionID : Int := 0
  hostName : String := ""
  certName : String := ""
  ipv4 : String := ""
  ipv6 : String := ""
  stunPort : Int := 0
  stunOnly : Bool := false
  derpPort : Int := 0
  insecureForTests : Bool := false
  stunTestIP : String := ""
  deriving DecidableEq, Repr

/-- `controlproto.DERPRegion`. The coordinates are the rational numbers their floats denote. -/
structure DERPRegion where
  regionID : Int := 0
  regionCode : String := ""
  regionName : String := ""
  latitude : Rat := 0
  longitude : Rat := 0
  noMeasureNoHome : Bool := false
  nodes : Slice (Option DERPNode) := none
  deriving DecidableEq, Repr

/-- `controlproto.DERPMap`. -/
structure DERPMap where
  regions : GoMap Int (Option DERPRegion) := none
  omitDefaultRegions : Bool := false
  deriving DecidableEq

/-- One region of `cloneDERPMap`: nil nodes are dropped and the node list is never nil. -/
def cloneDERPRegion (region : DERPRegion) : DERPRegion :=
  { region with nodes := some ((Slice.list region.nodes).filterMap id |>.map some) }

/-- `cloneDERPMap`, which both packages define alike (`map.go`, `tailnet/bind.go`): nil regions are
dropped. -/
def cloneDERPMap (value : Option DERPMap) : Option DERPMap :=
  value.map fun m =>
    { regions := m.regions.map fun regions =>
        (regions.filter fun _ region => region.isSome).mapVals fun _ region =>
          region.map cloneDERPRegion
      omitDefaultRegions := m.omitDefaultRegions }

/-- Cloning a cloned DERP map changes nothing. -/
theorem cloneDERPMap_cloneDERPMap (value : Option DERPMap) :
    cloneDERPMap (cloneDERPMap value) = cloneDERPMap value := by
  have hregion (r : DERPRegion) : cloneDERPRegion (cloneDERPRegion r) = cloneDERPRegion r := by
    simp [cloneDERPRegion, List.filterMap_map]
  cases value with
  | none => rfl
  | some m =>
    simp only [cloneDERPMap, Option.map_some, Option.map_map, Option.some.injEq, DERPMap.mk.injEq,
      and_true]
    cases m.regions with
    | none => rfl
    | some regions =>
      simp only [Option.map_some, Function.comp_apply, Option.some.injEq]
      refine FinMap.ext_get fun k => ?_
      simp only [FinMap.get_mapVals, FinMap.get_filter]
      rcases regions.get k with _ | _ | r
      · rfl
      · rfl
      · exact congrArg (fun r => some (some r)) (hregion r)

/-! ## Packet filters, DNS and profiles -/

/-- `controlproto.PortRange`, also the public `PortRange` of `types.go`. -/
structure PortRange where
  first : UInt16
  last : UInt16
  deriving DecidableEq, Repr

/-- `controlproto.NetPortRange`. -/
structure NetPortRange where
  ip : String
  bits : Option Int := none
  ports : PortRange
  deriving DecidableEq, Repr

/-- `controlproto.FilterRule`. -/
structure FilterRule where
  srcIPs : Slice String := none
  srcBits : Slice Int := none
  dstPorts : Slice NetPortRange := none
  ipProto : Slice Int := none
  capGrant : Slice RawMessage := none
  deriving DecidableEq

/-- `controlproto.DNSRecord`, also the public `DNSRecord` of `types.go`. -/
structure DNSRecord where
  name : String
  type : String
  value : String
  deriving DecidableEq, Repr

/-- `controlproto.DNSConfig`. -/
structure DNSConfig where
  domains : Slice String := none
  proxied : Bool := false
  nameservers : Slice Addr := none
  certDomains : Slice String := none
  extraRecords : Slice DNSRecord := none
  routes : GoMap String (Slice RawMessage) := none
  resolvers : Slice RawMessage := none
  deriving DecidableEq

/-- `controlproto.UserProfile`. -/
structure UserProfile where
  id : Int
  loginName : String := ""
  displayName : String := ""
  profilePicURL : String := ""
  groups : Slice String := none
  deriving DecidableEq

/-- `controlproto.PingRequest`. -/
structure PingRequest where
  url : String
  urlIsNoise : Bool := false
  log : Bool := false
  types : String := ""
  ip : Addr := .invalid
  payload : Slice UInt8 := none
  deriving DecidableEq

/-- `controlproto.MapResponse`. -/
structure MapResponse where
  mapSessionHandle : String := ""
  seq : Int := 0
  keepAlive : Bool := false
  pingRequest : Option PingRequest := none
  popBrowserURL : String := ""
  node : Option Node := none
  derpMap : Option DERPMap := none
  peers : Slice (Option Node) := none
  peersChanged : Slice (Option Node) := none
  peersRemoved : Slice Int := none
  peersChangedPatch : Slice (Option PeerChange) := none
  peerSeenChange : GoMap Int Bool := none
  onlineChange : GoMap Int Bool := none
  dnsConfig : Option DNSConfig := none
  domain : String := ""
  packetFilter : Slice FilterRule := none
  packetFilters : GoMap String (Slice FilterRule) := none
  userProfiles : Slice UserProfile := none
  health : Slice String := none
  controlTime : Option Time := none

/-- `controlproto.EndpointType`. -/
inductive EndpointType where
  | unknown
  | local
  | stun
  | portmapped
  | stun4LocalPort
  | explicit
  deriving DecidableEq, Repr

/-- The `int` an endpoint type is. -/
def EndpointType.toNat : EndpointType → Nat
  | .unknown => 0
  | .local => 1
  | .stun => 2
  | .portmapped => 3
  | .stun4LocalPort => 4
  | .explicit => 5

end WgoTailscale
