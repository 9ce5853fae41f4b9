import WgoTailscale.Clone

/-!
# Peers on the device (`map.go`, `device.DeviceAPI`)

A device API holds one peer specification per public key. Several controllers share it: the client
owns a peer it has written as long as the specification still carries the endpoint it wrote. The
functions here are the ones `reconcilePeers` computes with: which peers are wanted, the
specification of a wanted peer, and when a specification is the client's own.
-/

namespace WgoTailscale

/-- `device.PeerActivation`. -/
inductive PeerActivation where
  | eager
  | other
  deriving DecidableEq, Repr

/-- `device.PeerSpec`. The client sets the named fields; `rest` stands for the others, and is zero in
what the client writes. -/
structure PeerSpec where
  publicKey : NodePublic
  protocolVersion : Nat := 1
  allowedIPs : List Prefix
  endpoint : Option PeerEndpoint
  amneziaWG : Option AmneziaWGConfig := none
  activation : PeerActivation := .eager
  rest : Nat := 0
  deriving DecidableEq

/-- Who wrote a specification. -/
inductive Writer where
  | client
  | foreign
  deriving DecidableEq, Repr

/-- A specification on the device and its writer. -/
structure Published where
  writer : Writer
  spec : PeerSpec
  deriving DecidableEq

/-- One `device.DeviceAPI`. -/
structure Device where
  privateKey : PrivateKey
  closed : Bool := false
  specs : FinMap NodePublic Published := ∅

/-- `DeviceAPI.PeerSpec`. -/
def Device.peerSpec (d : Device) (key : NodePublic) : Option PeerSpec :=
  (d.specs.get key).map Published.spec

/-- What the client did on the device APIs: its calls about peers, with their results, and the
takeovers it recorded. APIs are numbered. -/
inductive DeviceCall where
  | peerSpec (api : Nat) (key : NodePublic) (result : Option PeerSpec)
  | upsert (api : Nat) (spec : PeerSpec) (ok : Bool)
  | delete (api : Nat) (key : NodePublic) (ok : Bool)
  | conflict (api : Nat) (key : NodePublic)
  deriving DecidableEq

/-! ## Wanted peers -/

/-- `desiredPeer`. -/
structure DesiredPeer where
  node : Node
  id : String
  homeDERP : Int
  path : PathKind
  direct : AddrPort
  directRecovery : Bool

/-- The condition under which `reconcilePeers` wants a node on the device. -/
def Client.wants (c : Client) (node : Node) : Bool :=
  !node.key.isZero && !node.unsignedPeerAPIOnly && !node.expired &&
    (!c.opts.confirmPeers || decide (peerID node ∈ c.confirmed))

/-- What `reconcilePeers` notes about a node it wants. -/
def Client.desiredPeer (c : Client) (node : Node) : DesiredPeer :=
  let local' := (c.peerLocal.get node.key).getD {}
  { node := cloneControlNode node
    id := peerID node
    homeDERP := if homeDERP (some node) = 0 then c.preferredDERP else homeDERP (some node)
    path := local'.path
    direct := local'.direct
    directRecovery := local'.directRecovery }

/-- One round of the loop of `reconcilePeers` over `c.peers`. -/
def Client.want (c : Client) (desired : FinMap NodePublic DesiredPeer) (node : Node) :
    FinMap NodePublic DesiredPeer :=
  if c.wants node then desired.insert node.key (c.desiredPeer node) else desired

/-- The wanted peers, when `c.peers` is visited in the given order. -/
def Client.desired (c : Client) (order : List Int) : FinMap NodePublic DesiredPeer :=
  (order.filterMap c.peers.get).foldl c.want ∅

/-- A peer is wanted under a key. -/
def Client.WantedAt (c : Client) (key : NodePublic) (wanted : DesiredPeer) : Prop :=
  ∃ id node, c.peers.get id = some node ∧ c.wants node = true ∧ node.key = key ∧
    wanted = c.desiredPeer node

/-- No two peers that are wanted have the same key. -/
def Client.DistinctKeys (c : Client) : Prop :=
  ∀ id id' node node', c.peers.get id = some node → c.peers.get id' = some node' →
    c.wants node = true → c.wants node' = true → node.key = node'.key → node = node'

section
variable {c : Client} {order : List Int} {nodes : List Node} {m : FinMap NodePublic DesiredPeer}
  {key : NodePublic} {wanted : DesiredPeer}

theorem mem_of_want (h : (nodes.foldl c.want m).get key = some wanted) :
    m.get key = some wanted ∨ ∃ node ∈ nodes, c.wants node = true ∧ node.key = key ∧
      wanted = c.desiredPeer node := by
  induction nodes generalizing m with
  | nil => exact .inl h
  | cons node nodes ih =>
    rcases ih h with hm | ⟨node', hmem, hnode⟩
    · unfold Client.want at hm
      split at hm
      · next hwants =>
        rw [FinMap.get_insert] at hm
        split at hm
        · next heq =>
          exact .inr ⟨node, List.mem_cons_self, hwants, heq.symm, (Option.some.inj hm).symm⟩
        · exact .inl hm
      · exact .inl hm
    · exact .inr ⟨node', List.mem_cons_of_mem _ hmem, hnode⟩

/-- What `reconcilePeers` wants comes from the peers. -/
theorem wanted_of_desired (h : (c.desired order).get key = some wanted) : c.WantedAt key wanted := by
  rcases mem_of_want h with hempty | ⟨node, hmem, hwanted⟩
  · cases hempty
  · obtain ⟨id, -, hget⟩ := List.mem_filterMap.mp hmem
    exact ⟨id, node, hget, hwanted⟩

theorem mem_want (h : key ∈ m ∨ ∃ node ∈ nodes, c.wants node = true ∧ node.key = key) :
    key ∈ nodes.foldl c.want m := by
  induction nodes generalizing m with
  | nil => exact h.elim id fun ⟨_, hmem, _⟩ => absurd hmem List.not_mem_nil
  | cons node nodes ih =>
    refine ih ?_
    unfold Client.want
    rcases h with hm | ⟨node', hmem, hwants, hkey⟩
    · refine .inl ?_
      split
      · exact FinMap.mem_insert.mpr (.inr hm)
      · exact hm
    · rcases List.mem_cons.mp hmem with rfl | hrest
      · rw [if_pos hwants]
        exact .inl (FinMap.mem_insert.mpr (.inl hkey.symm))
      · exact .inr ⟨node', hrest, hwants, hkey⟩

/-- Where keys are distinct, the order in which the peers are visited does not matter. -/
theorem desired_get_iff (horder : c.peers.Listing order) (hdistinct : c.DistinctKeys) :
    (c.desired order).get key = some wanted ↔ c.WantedAt key wanted := by
  refine ⟨wanted_of_desired, ?_⟩
  rintro ⟨id, node, hget, hwants, hkey, rfl⟩
  have hmem : key ∈ c.desired order := by
    refine mem_want (.inr ⟨node, List.mem_filterMap.mpr ⟨id, ?_, hget⟩, hwants, hkey⟩)
    exact horder.mem_iff.mpr (FinMap.mem_of_get hget)
  obtain ⟨wanted, hwanted⟩ := FinMap.mem_iff.mp hmem
  obtain ⟨id', node', hget', hwants', hkey', rfl⟩ := wanted_of_desired hwanted
  obtain rfl := hdistinct id id' node node' hget hget' hwants hwants' (hkey.trans hkey'.symm)
  exact hwanted

end

/-! ## Specifications -/

/-- `firstUsableEndpoint`. -/
def firstUsableEndpoint : List AddrPort → AddrPort
  | [] => .zero
  | endpoint :: rest =>
    let addr := endpoint.addr.unmap
    if ¬ addr.isValid ∨ addr.isUnspecified ∨ addr.isMulticast ∨ endpoint.port = 0 then
      firstUsableEndpoint rest
    else ⟨addr, endpoint.port⟩

/-- `peerEndpoint`. -/
def peerEndpoint (opts : Options) (peer : DesiredPeer) : PeerEndpoint :=
  let named : PeerEndpoint := ⟨opts.transportID, peer.node.key.toText⟩
  if opts.useDefaultTransportForDirectPeers then
    if peer.directRecovery then named
    else if peer.path = .direct ∧ (unmapAddrPort peer.direct).isValid then
      ⟨defaultTransportID, (unmapAddrPort peer.direct).toText⟩
    else if (peer.node.isWireGuardOnly ∨ opts.disableDERP) ∧
        (firstUsableEndpoint (Slice.list peer.node.endpoints)).isValid then
      ⟨defaultTransportID, (firstUsableEndpoint (Slice.list peer.node.endpoints)).toText⟩
    else named
  else named

/-- The prefixes routed to a node: its allowed IPs, or its addresses if there are none. -/
def Node.routed (node : Node) : List Prefix :=
  if (Slice.list node.allowedIPs).isEmpty then Slice.list node.addresses
  else Slice.list node.allowedIPs

/-- The specification `reconcilePeers` builds for a wanted peer. -/
def peerSpecFor (opts : Options) (key : NodePublic) (wanted : DesiredPeer) : PeerSpec :=
  { publicKey := key
    allowedIPs := wanted.node.routed
    endpoint := some (peerEndpoint opts wanted)
    amneziaWG := opts.obfuscation }

/-- The configuration that `reconcilePeers` gives the bind for a wanted peer. -/
def peerConfigFor (key : NodePublic) (wanted : DesiredPeer) : PeerConfig :=
  { nodeKey := key
    discoKey := wanted.node.discoKey
    endpoints := Slice.list wanted.node.endpoints
    homeDERP := wanted.homeDERP
    wireGuardOnly := wanted.node.isWireGuardOnly }

/-- The order in which `peerSpecsEqual` sorts prefixes: by their text. -/
def comparePrefixText (p q : Prefix) : Ordering := compare p.toText q.toText

/-- `peerSpecsEqual`. -/
def peerSpecsEqual (a b : PeerSpec) : Bool :=
  { a with allowedIPs := sortBy comparePrefixText a.allowedIPs } =
    { b with allowedIPs := sortBy comparePrefixText b.allowedIPs }

/-- `peerSpecStillOwned`. -/
def peerSpecStillOwned (spec : PeerSpec) (applied : AppliedPeer) : Bool :=
  match spec.endpoint, applied.endpoint with
  | none, none => true
  | some endpoint, some owned =>
    endpoint.transport = owned.transport ∧ endpoint.address = owned.address
  | _, _ => false

theorem peerSpecStillOwned_iff {spec : PeerSpec} {applied : AppliedPeer} :
    peerSpecStillOwned spec applied = true ↔ spec.endpoint = applied.endpoint := by
  unfold peerSpecStillOwned
  cases spec.endpoint with
  | none => cases applied.endpoint <;> simp
  | some endpoint =>
    cases applied.endpoint with
    | none => simp
    | some owned =>
      obtain ⟨t, a⟩ := endpoint
      obtain ⟨t', a'⟩ := owned
      simp

/-- Specifications that compare equal have the same endpoint, and the same prefixes up to order. -/
theorem of_peerSpecsEqual {a b : PeerSpec} (h : peerSpecsEqual a b = true) :
    a.endpoint = b.endpoint ∧ a.allowedIPs.Perm b.allowedIPs := by
  obtain ⟨-, -, hips, hendpoint, -⟩ := PeerSpec.mk.inj (of_decide_eq_true h)
  refine ⟨hendpoint, (perm_sortBy comparePrefixText _).symm.trans ?_⟩
  rw [hips]
  exact perm_sortBy _ _

end WgoTailscale
