import WgoTailscale.Acl
import WgoTailscale.Sections

/-!
# Views of the client (`views.go`)

`dnsView`, `networkView`, `aclView` and `derpView` are the views that a snapshot is made of. They loop
over maps, in an order that Go does not fix, so the order is an argument. The content of a view
is what it says apart from its revision, with records, routes and regions as sets; it depends neither
on the order (`content_dnsView`, `content_networkView`) nor on anything but a few parts of the client
(`SameDNS.content`, `networkContent_congr`).
-/

namespace WgoTailscale

open FinMap

/-! ## DNS -/

/-- `normalizeDNSName`. -/
def normalizeDNSName (value : String) : String :=
  let trimmed := value.toList.dropWhile GoText.isSpace
  let trimmed := (trimmed.reverse.dropWhile fun c => c = '.' || GoText.isSpace c).reverse
  GoText.toLower (String.ofList trimmed)

/-- `DNSView`. -/
structure DNSView where
  proxied : Bool := false
  searchDomains : Slice String := none
  certDomains : Slice String := none
  nameservers : Slice Addr := none
  resolvers : Slice RawMessage := none
  routes : GoMap String (Slice RawMessage) := none
  records : List DNSRecord
  revision : Nat

/-- The record that `dnsViewLocked` makes of an extra record. -/
def extraRecord (record : DNSRecord) : DNSRecord :=
  let typeName := GoText.toUpper record.type
  match parseAddr record.value with
  | some address =>
    if typeName = "" ∨ typeName = "A" ∨ typeName = "AAAA" then
      { name := record.name
        type := if typeName = "" ∨ address.unmap.is4 then "A" else "AAAA"
        value := address.unmap.toText }
    else { record with type := typeName }
  | none => { record with type := typeName }

/-- `addNode` of `dnsViewLocked`. -/
def nodeRecords (node : Node) : List DNSRecord :=
  if node.name = "" then []
  else (Slice.list node.addresses).map fun p =>
    let address := p.addr.unmap
    { name := node.name, type := if address.is6 then "AAAA" else "A", value := address.toText }

/-- The order of `DNSView.Records`. -/
def compareRecords (left right : DNSRecord) : Ordering :=
  (compare (normalizeDNSName left.name) (normalizeDNSName right.name)).then
    ((compare left.type right.type).then (compare left.value right.value))

instance : Std.TransCmp compareRecords :=
  inferInstanceAs (Std.TransCmp (compareLex (compareOn fun r : DNSRecord => normalizeDNSName r.name)
    (compareLex (compareOn DNSRecord.type) (compareOn DNSRecord.value))))

namespace Client

/-- The records of `dnsViewLocked` before they are sorted. -/
def dnsRecords (c : Client) (order : List Int) : List DNSRecord :=
  (c.dns.elim [] fun dns => (Slice.list dns.extraRecords).map extraRecord) ++
    c.self.elim [] nodeRecords ++ (order.filterMap c.peers.get).flatMap nodeRecords

/-- `dnsViewLocked`. -/
def dnsView (c : Client) (order : List Int) : DNSView :=
  let records := compact (sortBy compareRecords (c.dnsRecords order))
  match c.dns with
  | none => { records, revision := c.dnsRevision }
  | some dns =>
    { proxied := dns.proxied
      searchDomains := dns.domains
      certDomains := dns.certDomains
      nameservers := dns.nameservers
      resolvers := cloneRawMessages dns.resolvers
      routes := cloneCapabilityMap dns.routes
      records, revision := c.dnsRevision }

end Client

/-! ## The network configuration -/

/-- `Route`. -/
structure Route where
  target : Prefix
  peerID : String
  peerPublicKey : NodePublic
  primary : Bool
  deriving DecidableEq

/-- `NetworkConfiguration`. -/
structure NetworkConfiguration where
  interfaceName : String
  up : Bool
  mtu : Nat
  addresses : Slice Prefix
  routes : List Route
  dns : DNSView
  revision : Nat

/-- The order of `NetworkConfiguration.Routes`. An invalid prefix has length -1. -/
def compareRoutes (a b : Route) : Ordering :=
  let bits (p : Prefix) : Int := p.bits.elim (-1) fun n => n
  (a.target.addr.compare b.target.addr).then (compare (bits a.target) (bits b.target))

namespace Client

/-- Is a peer marked as applied to the device? -/
def isApplied (c : Client) (key : NodePublic) : Bool :=
  (c.peerLocal.get key).any fun localState => localState.applied

/-- The routes of one peer in `networkViewLocked`. -/
def routesOf (c : Client) (node : Node) : List Route :=
  if c.isApplied node.key then
    node.routed.map fun p =>
      { target := p, peerID := WgoTailscale.peerID node, peerPublicKey := node.key
        primary := decide (p ∈ Slice.list node.primaryRoutes) }
  else []

/-- `NetworkConfiguration.Up`. -/
def up (c : Client) : Bool := (c.self.any fun node => !node.expired) && !c.state.isStop

/-- `networkViewLocked`. -/
def networkView (c : Client) (order : List Int) : NetworkConfiguration where
  interfaceName := c.opts.interfaceName
  up := c.up
  mtu := c.opts.mtu
  addresses := c.self.bind Node.addresses
  routes := sortBy compareRoutes ((order.filterMap c.peers.get).flatMap c.routesOf)
  dns := c.dnsView order
  revision := c.networkRevision

end Client

/-! ## Packet filters -/

/-- `aclRuleView`. -/
def aclRuleView (rule : FilterRule) : ACLRule where
  sourceIPs := Slice.list rule.srcIPs
  sourceBits := Slice.list rule.srcBits
  destinations := (Slice.list rule.dstPorts).map fun d => ⟨d.ip, d.bits, d.ports⟩
  ipProtocols := Slice.list rule.ipProto
  capabilityGrants := Slice.list rule.capGrant

/-- `aclViewLocked`. -/
def Client.aclView (c : Client) : ACLView where
  rules := c.filters.map aclRuleView
  namedRules := c.namedFilters.mapVals fun _ rules => rules.map aclRuleView
  revision := c.aclRevision

/-! ## Relays -/

/-- `DERPRegion` of `types.go`. -/
structure DERPRegionView where
  id : Int
  code : String
  name : String
  latitude : Rat
  longitude : Rat
  noMeasureNoHome : Bool
  latency : Duration := 0
  latencySource : Option DERPLatencySource := none
  latencyMeasuredAt : Time := 0
  nodes : List DERPNode
  deriving DecidableEq

/-- `DERPView`. -/
structure DERPView where
  regions : List DERPRegionView
  home : Int
  revision : Nat

/-- One region of `derpViewLocked`. -/
def derpRegionView (derpLatency : FinMap Int DERPRegionLatency) (mapID : Int) (region : DERPRegion) :
    DERPRegionView :=
  let regionID := if mapID = 0 then region.regionID else mapID
  let out : DERPRegionView :=
    { id := regionID, code := region.regionCode, name := region.regionName
      latitude := region.latitude, longitude := region.longitude
      noMeasureNoHome := region.noMeasureNoHome
      nodes := (Slice.list region.nodes).filterMap id }
  match derpLatency.get regionID with
  | none => out
  | some metric =>
    { out with
      latency := metric.latency, latencySource := some metric.source
      latencyMeasuredAt := metric.time }

/-- `derpViewLocked`, when the regions are visited in the given order. -/
def Client.derpView (c : Client) (order : List Int) : DERPView where
  regions := sortBy (fun a b => compare a.id b.id) <| order.filterMap fun mapID =>
    (regionOf c.derpMap mapID).map (derpRegionView c.derpLatency mapID)
  home := c.selfDERP
  revision := c.derpRevision

/-- `order` visits the regions of the client's DERP map, if it has one. -/
def Client.RegionOrder (c : Client) (order : List Int) : Prop :=
  (c.derpMap.bind DERPMap.regions).all fun regions => decide (regions.Listing order)

/-! ## Contents -/

/-- What a DNS view says. -/
structure DNSContent where
  proxied : Bool
  searchDomains : Slice String
  certDomains : Slice String
  nameservers : Slice Addr
  resolvers : Slice RawMessage
  routes : GoMap String (Slice RawMessage)
  records : Finset DNSRecord
  deriving DecidableEq

/-- The content of a DNS view. -/
def DNSView.content (view : DNSView) : DNSContent :=
  ⟨view.proxied, view.searchDomains, view.certDomains, view.nameservers, view.resolvers,
    view.routes, view.records.toFinset⟩

/-- What an ACL view says. -/
def ACLView.content (view : ACLView) : List ACLRule × FinMap String (List ACLRule) :=
  (view.rules, view.namedRules)

/-- What a DERP view says. -/
def DERPView.content (view : DERPView) : Int × Finset DERPRegionView :=
  (view.home, view.regions.toFinset)

/-- What a network configuration says. -/
structure NetworkContent where
  up : Bool
  addresses : Slice Prefix
  routes : Finset Route
  dns : DNSContent
  deriving DecidableEq

/-- The content of a network configuration. -/
def NetworkConfiguration.content (view : NetworkConfiguration) : NetworkContent :=
  ⟨view.up, view.addresses, view.routes.toFinset, view.dns.content⟩

namespace Client

/-- The content of the network configuration, in the order of the peers' ids. -/
def networkContent (c : Client) : NetworkContent :=
  (c.networkView (c.peers.sortedKeys (compare : Int → Int → Ordering))).content

/-- The content of the DNS view, in the order of the peers' ids. -/
def dnsContent (c : Client) : DNSContent :=
  (c.dnsView (c.peers.sortedKeys (compare : Int → Int → Ordering))).content

/-- Whatever the order, the peers visited are the same. -/
theorem mem_flatMap_peers (c : Client) {order : List Int} (h : c.peers.Listing order) {β : Type}
    (f : Node → List β) (b : β) : b ∈ (order.filterMap c.peers.get).flatMap f ↔
      b ∈ ((c.peers.sortedKeys (compare : Int → Int → Ordering)).filterMap c.peers.get).flatMap f := by
  simp only [List.mem_flatMap, List.mem_filterMap, h.mem_iff, mem_sortedKeys]

/-- Visiting the peers in another order does not change the records. -/
theorem content_dnsView (c : Client) {order : List Int} (h : c.peers.Listing order) :
    (c.dnsView order).content = c.dnsContent := by
  have hrecords : (compact (sortBy compareRecords (c.dnsRecords order))).toFinset =
      (compact (sortBy compareRecords (c.dnsRecords
        (c.peers.sortedKeys (compare : Int → Int → Ordering))))).toFinset := by
    ext d
    simp only [List.mem_toFinset, mem_compact, mem_sortBy, dnsRecords, List.mem_append,
      c.mem_flatMap_peers h]
  unfold dnsContent dnsView DNSView.content
  cases c.dns <;> simp only [hrecords]

/-- Visiting the peers in another order changes neither records nor routes. -/
theorem content_networkView (c : Client) {order : List Int} (h : c.peers.Listing order) :
    (c.networkView order).content = c.networkContent := by
  have hroutes : (c.networkView order).routes.toFinset =
      (c.networkView (c.peers.sortedKeys (compare : Int → Int → Ordering))).routes.toFinset := by
    ext r
    simp only [networkView, List.mem_toFinset, mem_sortBy]
    exact c.mem_flatMap_peers h _ r
  simp only [networkContent, NetworkConfiguration.content, hroutes]
  exact congrArg _ (c.content_dnsView h)

/-- The content of the DERP view, in the order of the regions' ids. -/
def derpContent (c : Client) : Int × Finset DERPRegionView :=
  (c.derpView (((c.derpMap.bind DERPMap.regions).getD ∅).sortedKeys
    (compare : Int → Int → Ordering))).content

/-- Visiting the regions in another order does not change them. -/
theorem content_derpView (c : Client) {order : List Int} (h : c.RegionOrder order) :
    (c.derpView order).content = c.derpContent := by
  have hregions (out : DERPRegionView) : out ∈ (c.derpView order).regions ↔
      out ∈ (c.derpView (((c.derpMap.bind DERPMap.regions).getD ∅).sortedKeys
        (compare : Int → Int → Ordering))).regions := by
    simp only [derpView, mem_sortBy, List.mem_filterMap, mem_sortedKeys]
    refine exists_congr fun mapID => and_congr_left fun hout => ?_
    obtain ⟨region, hregion, -⟩ := Option.map_eq_some_iff.mp hout
    obtain ⟨m, hm, hget⟩ := Option.bind_eq_some_iff.mp hregion
    cases hmap : m.regions with
    | none =>
      rw [hmap] at hget
      cases hget
    | some regions =>
      unfold RegionOrder at h
      rw [hm, Option.bind_some, hmap, Option.all_some, decide_eq_true_eq] at h
      rw [hm, Option.bind_some, hmap, Option.getD_some, h.mem_iff]
  have hset : (c.derpView order).regions.toFinset =
      (c.derpView (((c.derpMap.bind DERPMap.regions).getD ∅).sortedKeys
        (compare : Int → Int → Ordering))).regions.toFinset :=
    Finset.ext fun out => by rw [List.mem_toFinset, List.mem_toFinset, hregions out]
  exact Prod.ext rfl hset

end Client

/-- What the views read of a peer. -/
def Node.viewed (node : Node) :=
  (node.key, node.name, node.stableID, node.addresses, node.allowedIPs, node.primaryRoutes)

/-- Peers of which the same is read are the same peers. -/
theorem keys_of_map {γ : Type} {read : Node → γ} {peers peers' : FinMap Int Node}
    (hpeers : ∀ id, (peers'.get id).map read = (peers.get id).map read) :
    peers'.keys = peers.keys := by
  refine Finset.ext fun id => ?_
  rw [mem_keys, mem_keys, ← Option.isSome_map (f := read), hpeers id,
    Option.isSome_map]

/-- What is made of the peers one by one depends on what is read of each. -/
theorem flatMap_read {β γ : Type} {read : Node → γ} {peers peers' : FinMap Int Node}
    {f g : Node → List β} (hpeers : ∀ id, (peers'.get id).map read = (peers.get id).map read)
    (hf : ∀ node node' : Node, read node' = read node → g node' = f node) (order : List Int) :
    (order.filterMap peers'.get).flatMap g = (order.filterMap peers.get).flatMap f := by
  induction order with
  | nil => rfl
  | cons id order ih =>
    have hid := hpeers id
    cases hget : peers.get id with
    | none =>
      rw [hget, Option.map_none, Option.map_eq_none_iff] at hid
      simp only [List.filterMap_cons, hget, hid, ih]
    | some node =>
      rw [hget, Option.map_some] at hid
      obtain ⟨node', hget', hread⟩ := Option.map_eq_some_iff.mp hid
      simp only [List.filterMap_cons, hget, hget', List.flatMap_cons, ih, hf node node' hread]

/-- What the DNS view reads of a node. -/
def Node.named (node : Node) := (node.name, node.addresses)

/-- The DNS view would read the same configuration and nodes. -/
structure SameDNS (c c' : Client) : Prop where
  dns : c'.dns = c.dns
  self : c'.self.map Node.named = c.self.map Node.named
  peers : ∀ id, (c'.peers.get id).map Node.named = (c.peers.get id).map Node.named

theorem nodeRecords_congr {node node' : Node} (h : node'.named = node.named) :
    nodeRecords node' = nodeRecords node := by
  obtain ⟨hname, haddresses⟩ := Prod.mk.inj h
  simp only [nodeRecords, hname, haddresses]

/-- The content of the DNS view depends on nothing else. -/
theorem SameDNS.content {c c' : Client} (h : SameDNS c c') : c'.dnsContent = c.dnsContent := by
  have horder : c'.peers.sortedKeys (compare : Int → Int → Ordering) =
      c.peers.sortedKeys (compare : Int → Int → Ordering) := by
    simp only [FinMap.sortedKeys, keys_of_map h.peers]
  have hpeers := flatMap_read h.peers (f := nodeRecords) (g := nodeRecords)
    (fun _ _ => nodeRecords_congr) (c.peers.sortedKeys (compare : Int → Int → Ordering))
  have hself : c'.self.elim [] nodeRecords = c.self.elim [] nodeRecords := by
    have hread := h.self
    cases hc : c.self with
    | none =>
      rw [hc, Option.map_none, Option.map_eq_none_iff] at hread
      rw [hread]
    | some node =>
      rw [hc, Option.map_some] at hread
      obtain ⟨node', hc', hnamed⟩ := Option.map_eq_some_iff.mp hread
      rw [hc']
      exact nodeRecords_congr hnamed
  simp only [Client.dnsContent, Client.dnsView, Client.dnsRecords, horder, hpeers, hself, h.dns,
    DNSView.content]
  cases c.dns <;> rfl

/-- The content depends on the self node, on what is read of the peers, on which of them are applied,
on the DNS configuration and on whether the network is up. -/
theorem Client.networkContent_congr {c c' : Client} (hup : c'.up = c.up) (hself : c'.self = c.self)
    (hpeers : ∀ id, (c'.peers.get id).map Node.viewed = (c.peers.get id).map Node.viewed)
    (hdns : c'.dns = c.dns) (happlied : ∀ key, c'.isApplied key = c.isApplied key) :
    c'.networkContent = c.networkContent := by
  have hroutes := flatMap_read hpeers (f := c.routesOf) (g := c'.routesOf) <| by
    intro node node' h
    simp only [Node.viewed, Prod.mk.injEq] at h
    obtain ⟨hkey, -, hid, haddresses, hallowed, hprimary⟩ := h
    simp only [routesOf, happlied, Node.routed, peerID, hkey, hid, haddresses, hallowed, hprimary]
  have hrecords := flatMap_read hpeers (f := nodeRecords) (g := nodeRecords) <| by
    intro node node' h
    simp only [Node.viewed, Prod.mk.injEq] at h
    exact nodeRecords_congr (Prod.ext h.2.1 h.2.2.2.1)
  have horder : c'.peers.sortedKeys (compare : Int → Int → Ordering) =
      c.peers.sortedKeys (compare : Int → Int → Ordering) := by
    simp only [FinMap.sortedKeys, keys_of_map hpeers]
  simp only [networkContent, networkView, NetworkConfiguration.content, horder, hroutes, hup,
    dnsView, dnsRecords, hrecords, hself, hdns, DNSView.content]
  cases c.dns <;> rfl

end WgoTailscale
