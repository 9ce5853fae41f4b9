import WgoTailscale.Program
import WgoTailscale.Views

/-!
# Snapshots (`views.go`)

`Snapshot` gathers peers, DNS records, routes and DERP regions in the order in which Go visits its
maps, which is not fixed, and sorts them with `sort.Slice`, which is a function of the list but is
not stable. So the orders (`Orders`) and the sorts (`Sorts`) are arguments of `snapshot`.

Whatever the sorts are, all snapshots of a client are the same and list no DNS record twice exactly
if each list has no ties or does not depend on the order, and no DNS record that is there twice ties
with another (`snapshot_determined_iff`). Two peers whose names differ in case alone are enough for
two different snapshots of one state with a stable sort (`snapshot_undetermined`).
-/

namespace WgoTailscale

/-! ## Nodes -/

/-- `NodeInfo`. -/
structure NodeInfo where
  id : Int
  stableID : String
  name : String
  userID : Int
  sharerID : Int
  publicKey : NodePublic
  machinePublicKey : String
  discoPublicKey : String
  addresses : Slice Prefix
  allowedIPs : Slice Prefix
  endpoints : Slice AddrPort
  homeDERP : Int
  legacyDERPString : String
  capabilityVersion : Int
  keySignature : Slice UInt8
  keyExpiry : Time
  created : Time
  lastSeen : Option Time
  online : Option Bool
  machineAuthorized : Bool
  tags : Slice String
  primaryRoutes : Slice Prefix
  capabilities : Slice String
  capabilityMap : GoMap String (Slice RawMessage)
  unsignedPeerAPIOnly : Bool
  computedName : String
  computedNameWithHost : String
  dataPlaneAuditLogID : String
  expired : Bool
  selfNodeV4MasqAddrForThisPeer : Option Addr
  selfNodeV6MasqAddrForThisPeer : Option Addr
  isWireGuardOnly : Bool
  isJailed : Bool
  exitNodeDNSResolvers : Slice RawMessage
  hostinfoJSON : RawMessage
  rawJSON : RawMessage
  deriving DecidableEq

/-- `nodeInfo` of a node that is there. -/
def nodeInfo (node : Node) : NodeInfo where
  id := node.id
  stableID := node.stableID
  name := node.name
  userID := node.user
  sharerID := node.sharer
  publicKey := node.key
  machinePublicKey := if node.machine.isZero then "" else node.machine.toText
  discoPublicKey := if node.discoKey.isZero then "" else node.discoKey.toText
  addresses := node.addresses
  allowedIPs := node.allowedIPs
  endpoints := node.endpoints
  homeDERP := WgoTailscale.homeDERP (some node)
  legacyDERPString := node.legacyDERPString
  capabilityVersion := node.cap
  keySignature := node.keySignature
  keyExpiry := node.keyExpiry
  created := node.created
  lastSeen := node.lastSeen
  online := node.online
  machineAuthorized := node.machineAuthorized
  tags := node.tags
  primaryRoutes := node.primaryRoutes
  capabilities := node.capabilities
  capabilityMap := cloneCapabilityMap node.capMap
  unsignedPeerAPIOnly := node.unsignedPeerAPIOnly
  computedName := node.computedName
  computedNameWithHost := node.computedNameWithHost
  dataPlaneAuditLogID := node.dataPlaneAuditLogID
  expired := node.expired
  selfNodeV4MasqAddrForThisPeer := node.selfNodeV4MasqAddrForThisPeer
  selfNodeV6MasqAddrForThisPeer := node.selfNodeV6MasqAddrForThisPeer
  isWireGuardOnly := node.isWireGuardOnly
  isJailed := node.isJailed
  exitNodeDNSResolvers := cloneRawMessages node.exitNodeDNSResolvers
  hostinfoJSON := node.hostinfo
  rawJSON := node.rawJSON

/-- `ConfirmationState`. -/
inductive ConfirmationState where
  | notRequired
  | awaitingConfirmation
  | confirmed
  deriving DecidableEq, Repr

/-- `PeerInfo`. -/
structure PeerInfo where
  node : NodeInfo
  peerID : String
  confirmation : ConfirmationState
  appliedToWGO : Bool := false
  path : PathKind := .unset
  direct : AddrPort := .zero
  pathLatency : Duration := 0
  pathUpdated : Time := 0
  lastError : String := ""
  deriving DecidableEq

/-- The entry of a peer in `peersViewLocked`. -/
def Client.peerInfo (c : Client) (node : Node) : PeerInfo :=
  let id := peerID node
  let confirmation :=
    if c.opts.confirmPeers then
      if id ∈ c.confirmed then .confirmed else .awaitingConfirmation
    else .notRequired
  let peer : PeerInfo := { node := nodeInfo node, peerID := id, confirmation }
  match c.peerLocal.get node.key with
  | none => peer
  | some localState =>
    { peer with
      appliedToWGO := localState.applied
      path := localState.path, direct := localState.direct
      pathLatency := localState.latency, pathUpdated := localState.pathAt
      lastError := localState.err }

/-- The order of `Snapshot.Peers`. -/
def comparePeers (a b : PeerInfo) : Ordering :=
  (compare a.node.name b.node.name).then (compare a.peerID b.peerID)

/-! ## The snapshot -/

/-- `LocalEndpoint`. -/
structure LocalEndpoint where
  address : AddrPort
  source : String
  deriving DecidableEq

/-- The source of a local endpoint. -/
def EndpointType.source : EndpointType → String
  | .local => "local"
  | .stun | .stun4LocalPort => "stun"
  | .portmapped => "port-mapped"
  | .explicit => "explicit"
  | .unknown => "unknown"

/-- `Snapshot`. -/
structure Snapshot where
  revision : Nat
  time : Time
  state : State
  lastError : String
  interaction : Option Interaction
  client : ClientInfo
  self : Option NodeInfo
  peers : List PeerInfo
  users : List UserProfile
  dns : DNSView
  acl : ACLView
  network : NetworkConfiguration
  derp : DERPView
  domain : String
  health : List String
  localEndpoints : List LocalEndpoint
  controlTime : Option Time

/-- The loop body of `aclViewLocked` over the named filters. -/
def Client.addNamedRules (c : Client) (rules : FinMap String (List ACLRule)) (name : String) :
    FinMap String (List ACLRule) :=
  match c.namedFilters.get name with
  | none => rules
  | some filters => rules.insert name (filters.map aclRuleView)

/-- The named rules of `aclViewLocked`, when the filters are visited in the given order. -/
def Client.namedRulesFrom (c : Client) (order : List String) : FinMap String (List ACLRule) :=
  order.foldl c.addNamedRules ∅

/-- The orders in which the loops of `Snapshot` visit the peers (three times), the DERP regions and
the named filters. -/
structure Orders where
  peers : List Int
  records : List Int
  routes : List Int
  regions : List Int
  named : List String

/-- The order of `DERPView.Regions`. -/
def compareRegions (a b : DERPRegionView) : Ordering := compare a.id b.id

/-- What `sort.Slice` does at its four calls: no more is known than that it sorts. -/
structure Sorts where
  peers : SliceSort comparePeers
  records : SliceSort compareRecords
  routes : SliceSort compareRoutes
  regions : SliceSort compareRegions

namespace Client

variable (c : Client)

/-- The peers before they are sorted. -/
def peersFrom (order : List Int) : List PeerInfo := (order.filterMap c.peers.get).map c.peerInfo

/-- The routes before they are sorted. -/
def routesFrom (order : List Int) : List Route :=
  (order.filterMap c.peers.get).flatMap c.routesOf

/-- The DERP regions before they are sorted. -/
def regionsFrom (order : List Int) : List DERPRegionView :=
  order.filterMap fun mapID => (regionOf c.derpMap mapID).map (derpRegionView c.derpLatency mapID)

/-- `Snapshot`. -/
def snapshot (sorts : Sorts) (orders : Orders) : Snapshot :=
  let dns := { c.dnsView [] with
    records := compact (sorts.records.run (c.dnsRecords orders.records)) }
  { revision := c.revision
    time := c.time
    state := c.state
    lastError := c.lastError
    interaction := c.interaction
    client := c.info
    self := c.self.map nodeInfo
    peers := sorts.peers.run (c.peersFrom orders.peers)
    users := c.users
    dns
    acl := { c.aclView with namedRules := c.namedRulesFrom orders.named }
    network := { c.networkView [] with
      routes := sorts.routes.run (c.routesFrom orders.routes), dns }
    derp := { c.derpView [] with regions := sorts.regions.run (c.regionsFrom orders.regions) }
    domain := c.domain
    health := c.health
    localEndpoints := c.endpoints.map fun e => ⟨e.addr, e.type.source⟩
    controlTime := c.controlTime }

/-- Each loop visits all of its map. -/
structure Visits (orders : Orders) : Prop where
  peers : c.peers.Listing orders.peers
  records : c.peers.Listing orders.records
  routes : c.peers.Listing orders.routes
  regions : c.RegionOrder orders.regions
  named : c.namedFilters.Listing orders.named

/-- A list that is gathered in one of several orders has no ties, or it is the same in all of them. -/
def Settled {α : Type} (cmp : α → α → Ordering) (Order : List Int → Prop)
    (gather : List Int → List α) : Prop :=
  ∀ order order', Order order → Order order' →
    Untied cmp (gather order) ∨ gather order = gather order'

/-- The lists of the snapshot are settled. Ties are two peers with one name and one id, two DNS
records whose names differ in their spelling alone, two routes with one prefix, or two DERP regions
with one id. -/
structure Unambiguous : Prop where
  peers : Settled comparePeers c.peers.Listing c.peersFrom
  records : Settled compareRecords c.peers.Listing c.dnsRecords
  once : ∀ order, c.peers.Listing order → RepeatsUntied compareRecords (c.dnsRecords order)
  routes : Settled compareRoutes c.peers.Listing c.routesFrom
  regions : Settled compareRegions c.RegionOrder c.regionsFrom

end Client

/-! ## Orders -/

instance : Std.TransCmp comparePeers :=
  inferInstanceAs (Std.TransCmp (compareLex (compareOn fun p : PeerInfo => p.node.name)
    (compareOn PeerInfo.peerID)))

instance : Std.TransCmp fun a b : Route => a.target.addr.compare b.target.addr where
  eq_swap := (inferInstance : Std.OrientedCmp Addr.compare).eq_swap
  isLE_trans := (inferInstance : Std.TransCmp Addr.compare).isLE_trans

instance : Std.TransCmp compareRoutes :=
  inferInstanceAs (Std.TransCmp (compareLex
    (fun a b : Route => a.target.addr.compare b.target.addr)
    (compareOn fun r : Route => (r.target.bits.elim (-1) fun n => (n : Int)))))

instance : Std.TransCmp compareRegions :=
  inferInstanceAs (Std.TransCmp (compareOn DERPRegionView.id))

namespace Client

variable {c : Client}

theorem get_addNamedRules (rules : FinMap String (List ACLRule)) (first name : String) :
    (c.addNamedRules rules first).get name =
      if name = first then (c.aclView.namedRules.get name).or (rules.get name)
      else rules.get name := by
  rw [aclView, FinMap.get_mapVals, addNamedRules]
  by_cases hname : name = first
  · subst hname
    cases c.namedFilters.get name <;> simp
  · cases c.namedFilters.get first <;> simp [hname, FinMap.get_insert]

/-- The named rules do not depend on the order of the filters. -/
theorem namedRulesFrom_eq {order : List String} (h : c.namedFilters.Listing order) :
    c.namedRulesFrom order = c.aclView.namedRules := by
  have hfold (order : List String) (rules : FinMap String (List ACLRule)) (name : String) :
      (order.foldl c.addNamedRules rules).get name =
        if name ∈ order then (c.aclView.namedRules.get name).or (rules.get name)
        else rules.get name := by
    induction order generalizing rules with
    | nil => simp
    | cons first order ih =>
      rw [List.foldl_cons, ih, get_addNamedRules]
      by_cases hname : name = first <;> by_cases hmem : name ∈ order <;>
        simp [hname, hmem, ← Option.or_assoc]
  refine FinMap.ext_get fun name => ?_
  rw [namedRulesFrom, hfold, FinMap.get_empty, Option.or_none]
  split
  · rfl
  · next hmem =>
    rw [h.mem_iff, FinMap.not_mem_iff] at hmem
    rw [aclView, FinMap.get_mapVals, hmem, Option.map_none]

/-! ## Visiting in another order -/

variable {order order' : List Int}

theorem perm_peersFrom (h : c.peers.Listing order) (h' : c.peers.Listing order') :
    (c.peersFrom order).Perm (c.peersFrom order') :=
  ((h.perm h').filterMap _).map _

theorem perm_routesFrom (h : c.peers.Listing order) (h' : c.peers.Listing order') :
    (c.routesFrom order).Perm (c.routesFrom order') :=
  ((h.perm h').filterMap _).flatMap_right _

theorem perm_dnsRecords (h : c.peers.Listing order) (h' : c.peers.Listing order') :
    (c.dnsRecords order).Perm (c.dnsRecords order') :=
  .append_left _ (((h.perm h').filterMap _).flatMap_right _)

theorem perm_regionsFrom (h : c.RegionOrder order) (h' : c.RegionOrder order') :
    (c.regionsFrom order).Perm (c.regionsFrom order') := by
  unfold RegionOrder at h h'
  cases hregions : c.derpMap.bind DERPMap.regions with
  | none =>
    have hnone (mapID : Int) : regionOf c.derpMap mapID = none := by
      unfold regionOf
      cases hmap : c.derpMap with
      | none => rfl
      | some m =>
        rw [hmap, Option.bind_some] at hregions
        rw [Option.bind_some, GoMap.get, hregions]
        rfl
    simp [regionsFrom, hnone]
  | some regions =>
    rw [hregions, Option.all_some, decide_eq_true_eq] at h h'
    exact (h.perm h').filterMap _

/-- The loops of `Snapshot` can visit the maps. -/
theorem exists_visits (c : Client) : ∃ orders, c.Visits orders := by
  obtain ⟨peers, hpeers⟩ := c.peers.exists_listing
  obtain ⟨named, hnamed⟩ := c.namedFilters.exists_listing
  have hregions : ∃ order, c.RegionOrder order := by
    unfold RegionOrder
    cases c.derpMap.bind DERPMap.regions with
    | none => exact ⟨[], rfl⟩
    | some regions => simpa using regions.exists_listing
  obtain ⟨regions, hregions⟩ := hregions
  exact ⟨⟨peers, peers, peers, regions, named⟩, hpeers, hpeers, hpeers, hregions, hnamed⟩

/-- A settled list is sorted in one way. -/
theorem Settled.run_eq {α : Type} {cmp : α → α → Ordering} [Std.TransCmp cmp]
    {Order : List Int → Prop} {gather : List Int → List α} (h : Settled cmp Order gather)
    (hperm : (gather order).Perm (gather order')) (horder : Order order) (horder' : Order order')
    (sort : SliceSort cmp) : sort.run (gather order) = sort.run (gather order') := by
  rcases h order order' horder horder' with hties | heq
  · exact (sort.sorts _).unique (sort.sorts _) hperm hties
  · rw [heq]

/-- Settled lists make one snapshot. -/
theorem Unambiguous.snapshot_eq (h : c.Unambiguous) {orders orders' : Orders}
    (ho : c.Visits orders) (ho' : c.Visits orders') (sorts : Sorts) :
    c.snapshot sorts orders = c.snapshot sorts orders' := by
  unfold snapshot
  rw [h.peers.run_eq (perm_peersFrom ho.peers ho'.peers) ho.peers ho'.peers,
    h.records.run_eq (perm_dnsRecords ho.records ho'.records) ho.records ho'.records,
    h.routes.run_eq (perm_routesFrom ho.routes ho'.routes) ho.routes ho'.routes,
    h.regions.run_eq (perm_regionsFrom ho.regions ho'.regions) ho.regions ho'.regions,
    namedRulesFrom_eq ho.named, namedRulesFrom_eq ho'.named]

/-- A sorted list leaves no element twice if elements that are there twice have no ties. -/
theorem nodup_compact_run {α : Type} [DecidableEq α] {cmp : α → α → Ordering} [Std.TransCmp cmp]
    {l : List α} (h : RepeatsUntied cmp l) (sort : SliceSort cmp) : (compact (sort.run l)).Nodup := by
  refine nodup_compact_iff.mpr fun a b hsub => ?_
  obtain ⟨hperm, hsorted⟩ := sort.sorts l
  have hpairs := hsorted.sublist hsub
  simp only [List.pairwise_cons, List.mem_cons, List.not_mem_nil, or_false, forall_eq_or_imp,
    forall_eq] at hpairs
  refine h a b (hperm.subset (hsub.subset (by simp)))
    (Std.OrientedCmp.isLE_antisymm hpairs.1.1 hpairs.2.1) ?_
  rw [← hperm.count_eq]
  refine le_trans ?_ (hsub.count_le a)
  simp [List.count_cons]

/-! ## Ties -/

/-- Where all sorts leave the same of a list in every order, it is settled. -/
theorem settled_of_run {α : Type} [DecidableEq α] {cmp : α → α → Ordering} [Std.TransCmp cmp]
    {Order : List Int → Prop} {gather : List Int → List α} {f : List α → List α}
    (hperm : ∀ order order', Order order → Order order' → (gather order').Perm (gather order))
    (hsub : ∀ s, (f s).Sublist s) (hmem : ∀ s a, a ∈ s → a ∈ f s)
    (h : ∀ (sort : SliceSort cmp) order order', Order order → Order order' →
      f (sort.run (gather order)) = f (sort.run (gather order'))) : Settled cmp Order gather :=
  fun order order' ho ho' => untied_or_eq (hperm order order' ho ho') hsub hmem
    fun sort => h sort order order' ho ho'

/-- The sorts of a client that sorts stably. -/
def stableSorts : Sorts :=
  ⟨stableSort comparePeers, stableSort compareRecords, stableSort compareRoutes,
    stableSort compareRegions⟩

theorem unambiguous_of_determined
    (h : ∀ sorts orders orders', c.Visits orders → c.Visits orders' →
      c.snapshot sorts orders = c.snapshot sorts orders' ∧
        (c.snapshot sorts orders).dns.records.Nodup) : c.Unambiguous := by
  obtain ⟨orders, hvisits⟩ := c.exists_visits
  -- what the snapshots of two orders show is the same
  have hread {α : Type} (read : Snapshot → α) (sorts : Sorts) (o o' : Orders) (ho : c.Visits o)
      (ho' : c.Visits o') : read (c.snapshot sorts o) = read (c.snapshot sorts o') :=
    congrArg read (h sorts o o' ho ho').1
  refine ⟨?_, ?_, fun order ho a b hb htie hcount => ?_, ?_, ?_⟩
  · refine settled_of_run (f := id) (fun _ _ ho ho' => perm_peersFrom ho' ho) .refl (fun _ _ => id)
      fun sort order order' ho ho' => ?_
    exact hread Snapshot.peers { stableSorts with peers := sort } { orders with peers := order }
      { orders with peers := order' } { hvisits with peers := ho } { hvisits with peers := ho' }
  · refine settled_of_run (fun _ _ ho ho' => perm_dnsRecords ho' ho) sublist_compact
      (fun _ _ => mem_compact.mpr) fun sort order order' ho ho' => ?_
    exact hread (fun s => s.dns.records) { stableSorts with records := sort }
      { orders with records := order } { orders with records := order' }
      { hvisits with records := ho } { hvisits with records := ho' }
  · by_contra hne
    obtain ⟨sort, hsub⟩ := exists_sort_between hb htie hcount hne
    have hvisits : c.Visits { orders with records := order } := { hvisits with records := ho }
    exact hne (nodup_compact_iff.mp (h { stableSorts with records := sort } _ _ hvisits hvisits).2 a b
      hsub)
  · refine settled_of_run (f := id) (fun _ _ ho ho' => perm_routesFrom ho' ho) .refl (fun _ _ => id)
      fun sort order order' ho ho' => ?_
    exact hread (fun s => s.network.routes) { stableSorts with routes := sort }
      { orders with routes := order } { orders with routes := order' }
      { hvisits with routes := ho } { hvisits with routes := ho' }
  · refine settled_of_run (f := id) (fun _ _ ho ho' => perm_regionsFrom ho' ho) .refl (fun _ _ => id)
      fun sort order order' ho ho' => ?_
    exact hread (fun s => s.derp.regions) { stableSorts with regions := sort }
      { orders with regions := order } { orders with regions := order' }
      { hvisits with regions := ho } { hvisits with regions := ho' }

end Client

/-- In every state of a client its snapshots are all the same and list no DNS record twice, whatever
orders Go visits the maps in and whatever its sort does with ties, exactly if the lists are settled
and no DNS record that is there twice has a tie. -/
theorem snapshot_determined_iff (c : Client) :
    (∀ sorts orders orders', c.Visits orders → c.Visits orders' →
      c.snapshot sorts orders = c.snapshot sorts orders' ∧
        (c.snapshot sorts orders).dns.records.Nodup) ↔ c.Unambiguous := by
  refine ⟨Client.unambiguous_of_determined, fun h sorts orders orders' ho ho' => ?_⟩
  exact ⟨h.snapshot_eq ho ho' sorts, Client.nodup_compact_run (h.once _ ho.records) sorts.records⟩

/-- A response with the self node and two peers that share an address. The names of the nodes differ
in case alone. -/
def namesakes : MapResponse :=
  let addresses := some [prefixFrom (.v4 0x64400001) 32]
  { node := some { id := 1, key := ⟨7⟩, name := "a", addresses }
    peers := some [some { id := 2, key := ⟨2⟩, name := "a", addresses },
      some { id := 3, key := ⟨3⟩, name := "A", addresses }] }

/-- The client has applied the response. -/
def receiveNamesakes : Schedule :=
  receiveFirst namesakes ++ steps 1 9

/-- The names of the records of two snapshots, and whether they visit all the maps. -/
def recordNames (cfg : Config Sys Frame) : (List String × List String) × Bool :=
  let c := cfg.shared.client
  let orders (peers : List Int) : Orders := ⟨peers, peers, peers, [], []⟩
  let names (peers : List Int) :=
    (c.snapshot Client.stableSorts (orders peers)).dns.records.map DNSRecord.name
  ((names [2, 3], names [3, 2]),
    decide (c.peers.Listing [2, 3] ∧ c.peers.Listing [3, 2] ∧ c.namedFilters.Listing []) &&
      c.derpMap.isNone)

/-- After the response the records of a snapshot depend on the order in which the peers are visited,
and in one of the orders a record is listed twice, with the sort that Go uses for short lists. -/
theorem snapshot_undetermined :
    ∃ cfg, program.Reaches .any sampleClient cfg ∧
      ¬ ∀ orders orders', cfg.shared.client.Visits orders → cfg.shared.client.Visits orders' →
        cfg.shared.client.snapshot Client.stableSorts orders =
            cfg.shared.client.snapshot Client.stableSorts orders' ∧
          (cfg.shared.client.snapshot Client.stableSorts orders).dns.records.Nodup := by
  have hrun : (program.system.runIf (Machine.Policy.any).Admits sampleClient receiveNamesakes).map
      recordNames = some ((["a", "A"], ["a", "A", "a"]), true) := by decide +kernel
  obtain ⟨cfg, hreach, hview⟩ := System.exists_reach_of_runIf hrun
  refine ⟨cfg, hreach, fun h => ?_⟩
  unfold recordNames at hview
  generalize cfg.shared.client = c at h hview
  simp only [Prod.mk.injEq, Bool.and_eq_true, decide_eq_true_eq, Option.isNone_iff_eq_none] at hview
  obtain ⟨⟨hfirst, hsecond⟩, ⟨hlist, hlist', hnamed⟩, hmap⟩ := hview
  have hregions : c.RegionOrder [] := by simp [Client.RegionOrder, hmap]
  have hsame := (h ⟨[2, 3], [2, 3], [2, 3], [], []⟩ ⟨[3, 2], [3, 2], [3, 2], [], []⟩
    ⟨hlist, hlist, hlist, hregions, hnamed⟩ ⟨hlist', hlist', hlist', hregions, hnamed⟩).1
  rw [hsame, hsecond] at hfirst
  cases hfirst

end WgoTailscale
