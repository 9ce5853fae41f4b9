import WgoTailscale.PeerExpiry

/-!
# Full maps (`map.go`, `applyMapResponse`)

A full map carries whole parts of the network map and nothing incremental. What it says can be read
off the client afterwards: the client mirrors it (`Mirrors`). A client that mirrors a map is a fixed
point of the section (`reduceMap_of_mirrors`): nothing is written and no event is built.

After a full map was applied the client mirrors it (`mirrors_reduceMap`), provided that no node of
it is due for the mark that the client itself sets (`FullMap.Fresh`). A node that is due is retained
with the mark, differs from the node that the map brings when it comes again, and is replaced and
marked again (`kinds_reduceMap_again`).
-/

namespace WgoTailscale

open FinMap

/-- A map response that carries only full-state fields. -/
structure FullMap where
  node : Option Node := none
  peers : Slice (Option Node) := none
  derpMap : Option DERPMap := none
  dnsConfig : Option DNSConfig := none
  packetFilter : Slice FilterRule := none
  userProfiles : Slice UserProfile := none
  domain : String := ""
  health : Slice String := none
  distinct : ((Slice.list userProfiles).map UserProfile.id).Nodup

/-- The response. -/
def FullMap.response (m : FullMap) : MapResponse :=
  { node := m.node, peers := m.peers, derpMap := m.derpMap, dnsConfig := m.dnsConfig
    packetFilter := m.packetFilter, userProfiles := m.userProfiles, domain := m.domain
    health := m.health }

/-- The peers after a full map, before their expiry is looked at. -/
def FullMap.peersFrom (m : FullMap) (peers : FinMap Int Node) : FinMap Int Node :=
  (m.peers.map peersOfList).getD peers

/-- The client has what the map says, and nothing is left to do for expiry at the given time. -/
structure Mirrors (m : FullMap) (t : Time) (c : Client) : Prop where
  node : ∀ node, m.node = some node → c.self = some (cloneControlNode node)
  peers : ∀ nodes, m.peers = some nodes → c.peers = peersOfList nodes
  derpMap : ∀ update, m.derpMap = some update → c.derpMap = mergeDERPMap c.derpMap update
  dns : ∀ config, m.dnsConfig = some config → c.dns = some (cloneDNSConfig config)
  filter : ∀ rules, m.packetFilter = some rules →
    c.namedFilters.get "base" = some (cloneFilters rules)
  users : (Slice.list m.userProfiles).foldl updateUser (c.users, false) = (c.users, false)
  domain : m.domain = "" ∨ m.domain = c.domain
  health : ∀ health, m.health = some health → health = c.health
  selfMarked : ∀ node, c.self = some node → (markNodeExpired node t).2 = false
  peersMarked : ∀ id node, c.peers.get id = some node → (markNodeExpired node t).2 = false
  expired : c.selfExpired = true → c.state = .degraded ∧ c.lastError = errNodeKeyExpired
  recovered : ¬ (c.state = .degraded ∧ c.selfExpired = false ∧
    c.interaction.all (fun i => i.kind ≠ .nodeKeyExpired) = true)

/-! ## A client that mirrors a map -/

section
variable (m : FullMap) (now : Time) (r : Reduction)

/-- The first blocks look only at the self node. -/
theorem reduceHead_response : reduceHead m.response now r = reduceNode m.response r := by
  have hsession : reduceSession m.response r = r := by simp [reduceSession, FullMap.response]
  have hurl : reduceBrowserURL m.response now r = r := by simp [reduceBrowserURL, FullMap.response]
  have htime : reduceControlTime m.response now r = r := rfl
  unfold reduceHead
  rw [hsession, htime, hurl]

variable {m now r} {t : Time} (h : Mirrors m t r.client)
include h

theorem reduceHead_eq : reduceHead m.response now r = r := by
  rw [reduceHead_response]
  dsimp only [FullMap.response]
  cases hm : m.node with
  | none => rfl
  | some node => exact if_pos (h.node node hm)

theorem reducePeerBlocks_eq : reducePeerBlocks m.response now r =
    { r with reconcileRequested := r.reconcileRequested || m.peers.isSome } := by
  have hfull : reducePeers m.response r =
      { r with reconcileRequested := r.reconcileRequested || m.peers.isSome } := by
    unfold reducePeers
    dsimp only [FullMap.response]
    cases hm : m.peers with
    | none => simp
    | some nodes =>
      dsimp only
      rw [if_pos (h.peers nodes hm)]
      simp
  have hsame (r : Reduction) : (r |> reducePeersChanged m.response |> reducePeersRemoved m.response
      |> reducePatches m.response) = r := by
    simp [reducePeersChanged, reducePeersRemoved, reducePatches, FullMap.response, Slice.list]
  have hseen (r : Reduction) : reduceSeenOnline m.response now r = r := by
    have hmap : ((r.client.peers.mapVals fun _ node => node).mapVals fun _ node => node) =
        r.client.peers := by
      rw [mapVals_eq_self fun _ _ _ => rfl, mapVals_eq_self fun _ _ _ => rfl]
    have hany : (r.client.peers.any fun _ _ => false) = false :=
      any_eq_false.mpr fun _ _ _ => rfl
    unfold reduceSeenOnline
    dsimp only [FullMap.response, GoMap.get]
    simp only [Option.bind_none, hmap, hany, Bool.or_self, Bool.false_eq_true, if_false]
  unfold reducePeerBlocks
  rw [hfull, hseen]
  exact hsame _

theorem reduceDERP_eq : reduceDERP m.response r = r := by
  rcases client_reduceDERP_cases m.response r with ⟨heq, -⟩ | ⟨update, hupdate, hne, -⟩
  · exact heq
  · exact absurd (h.derpMap update hupdate) hne

theorem reduceRest_eq (hkinds : r.kinds = []) (hflag : r.dnsNodesChanged = false) :
    reduceRest m.response r = r := by
  have hdns : reduceDNS m.response r = r := by
    dsimp only [FullMap.response]
    cases hm : m.dnsConfig with
    | none => rfl
    | some config => exact if_pos (h.dns config hm)
  have hfilter : reducePacketFilter m.response r = r := by
    dsimp only [FullMap.response]
    cases hm : m.packetFilter with
    | none => rfl
    | some rules => exact if_pos (h.filter rules hm)
  have hfilters : reducePacketFilters m.response r = r := rfl
  have hflatten : reduceFlatten r = r := by
    refine if_neg ?_
    rw [hkinds]
    exact List.not_mem_nil
  have husers : reduceUsers m.response r = r := by
    have hsame := h.users
    unfold reduceUsers
    dsimp only [FullMap.response]
    cases hm : m.userProfiles with
    | none => rfl
    | some profiles =>
      rw [hm] at hsame
      dsimp only [Slice.list, Option.getD_some] at hsame ⊢
      rw [hsame]
      rfl
  have hmetadata : reduceMetadata m.response r = r := by
    have hsame : (if m.response.domain ≠ "" ∧ m.response.domain ≠ r.client.domain then
        { r with client := { r.client with domain := m.response.domain } }.emit [.metadata]
        else r) = r := if_neg fun hnew => h.domain.elim hnew.1 hnew.2
    unfold reduceMetadata
    rw [hsame]
    dsimp only [FullMap.response]
    cases hm : m.health with
    | none => rfl
    | some health => exact if_pos (h.health health hm)
  have hnodes : reduceDNSNodes r = r := by
    refine if_neg ?_
    rw [hflag]
    exact Bool.false_ne_true
  unfold reduceRest
  rw [hdns, hfilter, hfilters, hflatten, husers, hmetadata, hnodes]

omit h in
theorem reduceExpiry_eq (h : Mirrors m (r.client.expiryNow now) r.client) :
    reduceExpiry now r r.client.selfExpired = r := by
  have hmark : reduceMarkSelf now r = r := by
    unfold reduceMarkSelf
    cases hnode : r.client.self with
    | none => rfl
    | some node =>
      dsimp only
      rw [h.selfMarked node hnode, markNodeExpired_of_not (h.selfMarked node hnode), ← hnode]
      rfl
  have hself : reduceSelfExpiry r.client.selfExpired now r = r := by
    unfold reduceSelfExpiry
    split
    · next htrue =>
      obtain ⟨hstate, hlast⟩ := h.expired htrue
      dsimp only
      rw [if_pos hstate, ← hlast]
    · next hfalse => exact if_neg fun h => hfalse h.1
  have hpeers : reducePeerExpiry now r = r := by
    unfold reducePeerExpiry
    dsimp only
    rw [any_eq_false.mpr h.peersMarked, mapVals_eq_self fun id node hget =>
      markNodeExpired_of_not (h.peersMarked id node hget)]
    rfl
  have hlast : reduceRecovered r = r := if_neg h.recovered
  unfold reduceExpiry
  rw [hmark, hself, hpeers, hlast]

end

/-- The section has nothing to do on a client that mirrors the map. -/
theorem reduceMap_of_mirrors {m : FullMap} {now : Time} {c : Client}
    (h : Mirrors m (c.expiryNow now) c) :
    reduceMap c m.response now = { client := c, reconcileRequested := m.peers.isSome } := by
  have hpeers : Mirrors m (c.expiryNow now)
      { client := c, reconcileRequested := m.peers.isSome : Reduction }.client := h
  rw [reduceMap_eq_parts, reduceHead_eq (r := { client := c }) h,
    reducePeerBlocks_eq (r := { client := c }) h, Bool.false_or, reduceDERP_eq hpeers,
    reduceRest_eq hpeers rfl rfl]
  exact reduceExpiry_eq hpeers

/-! ## Profiles and DERP maps -/

/-- A profile is what looking up its id finds. -/
def Holds (users : List UserProfile) (profile : UserProfile) : Prop :=
  ∃ index, users.findIdx? (fun user => user.id = profile.id) = some index ∧
    users[index]? = some profile

section
variable {acc : List UserProfile × Bool} {profile update : UserProfile}

/-- A profile with another id does not replace it. -/
theorem Holds.updateUser (h : Holds acc.1 profile) (hne : update.id ≠ profile.id) :
    Holds (updateUser acc update).1 profile := by
  obtain ⟨index, hindex, hget⟩ := h
  unfold WgoTailscale.updateUser
  cases hother : acc.1.findIdx? fun user => user.id = update.id with
  | none =>
    obtain ⟨hlt, -⟩ := List.findIdx?_eq_some_iff_getElem.mp hindex
    refine ⟨index, ?_, ?_⟩
    · rw [List.findIdx?_append, hindex]
      rfl
    · rw [List.getElem?_append_left hlt]
      exact hget
  | some other =>
    dsimp only
    split
    · exact ⟨index, hindex, hget⟩
    · obtain ⟨hlt, hid, hbefore⟩ := List.findIdx?_eq_some_iff_getElem.mp hindex
      obtain ⟨hlt', hid', -⟩ := List.findIdx?_eq_some_iff_getElem.mp hother
      have hindices : other ≠ index := by
        rintro rfl
        exact hne ((of_decide_eq_true hid').symm.trans (of_decide_eq_true hid))
      refine ⟨index, List.findIdx?_eq_some_iff_getElem.mpr ⟨?_, ?_, fun j hj => ?_⟩, ?_⟩
      · rw [List.length_set]
        exact hlt
      · rw [List.getElem_set_ne hindices]
        exact hid
      · rw [List.getElem_set]
        split
        · exact fun heq => hne (of_decide_eq_true heq)
        · exact hbefore j hj
      · rw [List.getElem?_set_ne hindices]
        exact hget

end

/-! ## After a full map -/

/-- A node that the expiry check leaves alone: it carries the mark, or its key has not expired. -/
def Node.Fresh (node : Node) (t : Time) : Prop := node.expired = true ∨ ¬ Due node.keyExpiry t

instance (node : Node) (t : Time) : Decidable (node.Fresh t) := inferInstanceAs (Decidable (_ ∨ _))

/-- The nodes of a full map are left alone by the expiry check. -/
structure FullMap.Fresh (m : FullMap) (t : Time) : Prop where
  node : ∀ node, m.node = some node → node.Fresh t
  peers : ∀ nodes, m.peers = some nodes → ∀ id node,
    (peersOfList nodes).get id = some node → node.Fresh t

section
variable {node : Node} {t : Time}

theorem markNodeExpired_eq_false : (markNodeExpired node t).2 = false ↔ node.Fresh t := by
  unfold markNodeExpired Node.Fresh Due
  split
  · next h =>
    refine ⟨fun _ => ?_, fun _ => rfl⟩
    rcases h with hmarked | hzero | hlater
    · exact .inl hmarked
    · exact .inr fun hdue => hdue.1 hzero
    · exact .inr fun hdue => absurd hlater (not_lt.mpr hdue.2)
  · next h =>
    obtain ⟨hunmarked, hzero, hlater⟩ := not_or.mp h |>.imp_right not_or.mp
    refine ⟨nofun, fun hfresh => ?_⟩
    rcases hfresh with hmarked | hnot
    · exact absurd hmarked hunmarked
    · exact absurd ⟨hzero, not_lt.mp hlater⟩ hnot

theorem Node.Fresh.mark (h : node.Fresh t) : (markNodeExpired node t).1 = node :=
  markNodeExpired_of_not (markNodeExpired_eq_false.mpr h)

end

section
variable (m : FullMap) (now : Time)

/-- The peers after a full map. -/
theorem FullMap.peersAfter_response (peers : FinMap Int Node) :
    m.response.peersAfter now peers = m.peersFrom peers :=
  mapVals_eq_self fun _ _ _ => rfl

/-- What a full map writes before the expiry check. -/
theorem FullMap.client_reduced (c : Client) :
    ∃ info url id interaction derpLatency home namedFilters filters,
      (reduceFacts c m.response now).client = { c with
        info := info, lastBrowserURL := url, interactionID := id, interaction := interaction
        self := (m.node.map cloneControlNode).or c.self, peers := m.peersFrom c.peers
        derpMap := m.derpMap.elim c.derpMap (mergeDERPMap c.derpMap), derpLatency := derpLatency
        preferredDERP := home, namedFilters := namedFilters, filters := filters
        dns := (m.dnsConfig.map cloneDNSConfig).or c.dns
        users := ((Slice.list m.userProfiles).foldl updateUser (c.users, false)).1
        domain := if m.domain = "" then c.domain else m.domain
        health := m.health.getD c.health } := by
  have hat : c.controlTimeAtAfter m.response now = c.controlTimeAt := if_pos (.inl rfl)
  obtain ⟨_, _, _, _, _, _, _, hfacts⟩ := client_reduceFacts c m.response now
  rw [hfacts, hat, FullMap.peersAfter_response]
  exact ⟨_, _, _, _, _, _, _, _, rfl⟩

/-- What a full map leaves of the self node, the peers and the time for expiry. -/
theorem FullMap.nodes_reduceMap (c : Client) :
    (reduceMap c m.response now).client.self =
      ((m.node.map cloneControlNode).or c.self).map
        (fun node => (markNodeExpired node (c.expiryNow now)).1) ∧
    (reduceMap c m.response now).client.peers = (m.peersFrom c.peers).mapVals
      (fun _ node => (markNodeExpired node (c.expiryNow now)).1) ∧
    (reduceMap c m.response now).client.expiryNow now = c.expiryNow now := by
  obtain ⟨_, _, _, _, _, _, _, _, hreduced⟩ := m.client_reduced now c
  obtain ⟨_, _, _, _, hexpiry⟩ := client_reduceExpiry now (reduceFacts c m.response now) c.selfExpired
  rw [reduceMap_eq_parts]
  show Client.self (reduceExpiry now (reduceFacts c m.response now) c.selfExpired).client = _ ∧
    Client.peers (reduceExpiry now (reduceFacts c m.response now) c.selfExpired).client = _ ∧
    Client.expiryNow (reduceExpiry now (reduceFacts c m.response now) c.selfExpired).client now = _
  rw [hexpiry, hreduced]
  exact ⟨rfl, rfl, rfl⟩

/-- A list of peers is always reconciled. -/
theorem requested_reduceMap (c : Client) (h : m.peers.isSome = true) :
    (reduceMap c m.response now).reconcileRequested = true := by
  obtain ⟨nodes, hm⟩ := Option.isSome_iff_exists.mp h
  refine (blocks_fromPeers (r := reduceHead m.response now { client := c }) m.response now
    c.selfExpired).reduces.requested ?_
  unfold reducePeers
  dsimp only [FullMap.response]
  rw [hm]
  dsimp only
  split <;> rfl

end

end WgoTailscale
