import WgoTailscale.ReducerWrites
import WgoTailscale.ViewRevisions

/-!
# Full and delta peer updates (`map.go`)

Control describes the peers by the whole list (`Peers`), or by what changed (`PeersChanged`) and
what is gone (`PeersRemoved`). The two go through different blocks of `applyMapResponse`, each with
its own comparison, and then through the same blocks for patches, presence, expiry and the rest.

`full_delta_agree` says that in every state of every run a full list and the delta that describes it
lead to the same client, whatever else the response carries. The reductions after the peer blocks
are `Alike`, and every later block keeps that.
-/

namespace WgoTailscale

open FinMap

/-! ## Kinds of events -/

section
variable {kinds kinds' : List EventKind}

/-- Later kinds are added if they are new. -/
theorem uniqueEventKinds_append (kinds more : List EventKind) :
    uniqueEventKinds (kinds ++ more) = more.foldl (fun result kind =>
      if kind ∈ result then result else result ++ [kind]) (uniqueEventKinds kinds) :=
  List.foldl_append

/-- Kinds that are there already add nothing. -/
theorem uniqueEventKinds_append_of_subset (h : kinds' ⊆ kinds) :
    uniqueEventKinds (kinds ++ kinds') = uniqueEventKinds kinds := by
  rw [uniqueEventKinds_append]
  induction kinds' with
  | nil => rfl
  | cons kind kinds' ih =>
    obtain ⟨hkind, hrest⟩ := List.cons_subset.mp h
    rw [List.foldl_cons, if_pos (mem_uniqueEventKinds.mpr hkind), ih hrest]

/-- Something is published if there is any kind. -/
theorem uniqueEventKinds_eq_nil : uniqueEventKinds kinds = [] ↔ kinds = [] := by
  simp only [List.eq_nil_iff_forall_not_mem, mem_uniqueEventKinds]

end

/-! ## Reductions that go on in the same way -/

/-- Two reductions with the same client, the same events to publish and the same flags. They request
a reconciliation alike under the condition `P`. -/
structure Alike (P : Prop) (r r' : Reduction) : Prop where
  client : r'.client = r.client
  kinds : uniqueEventKinds r'.kinds = uniqueEventKinds r.kinds
  derpChanged : r'.derpChanged = r.derpChanged
  derpBindingChanged : r'.derpBindingChanged = r.derpBindingChanged
  preferredDERPChanged : r'.preferredDERPChanged = r.preferredDERPChanged
  dnsNodesChanged : r'.dnsNodesChanged = r.dnsNodesChanged
  reconcile : P → r'.reconcileRequested = r.reconcileRequested

/-- A block that reads only the client, and writes only the client and events. -/
def Plain (f : Reduction → Reduction) : Prop :=
  ∀ r, f r = { r with client := (f { client := r.client }).client }.emit
    (f { client := r.client }).kinds

/-- Most blocks are such. -/
theorem plain_blocks (response : MapResponse) (now : Time) (selfWasExpired : Bool) :
    Plain (reduceSeenOnline response now) ∧ Plain (reduceDNS response) ∧
      Plain (reducePacketFilter response) ∧ Plain (reducePacketFilters response) ∧
      Plain (reduceUsers response) ∧ Plain (reduceMetadata response) ∧
      Plain (reduceMarkSelf now) ∧ Plain (reduceSelfExpiry selfWasExpired now) ∧
      Plain reduceRecovered := by
  and_intros <;> intro r <;> simp only [reduceSeenOnline, reduceDNS, reducePacketFilter,
    reducePacketFilters, reduceUsers, reduceMetadata, reduceMarkSelf, reduceSelfExpiry,
    reduceRecovered]
  -- both sides take the same branches
  all_goals
    repeat' split
    all_goals simp_all [Reduction.emit]

namespace Alike

variable {P : Prop} {r r' : Reduction} (response : MapResponse) (now : Time)

/-- Both have the same kinds. -/
theorem mem_kinds (h : Alike P r r') (kind : EventKind) : kind ∈ r'.kinds ↔ kind ∈ r.kinds := by
  rw [← mem_uniqueEventKinds, h.kinds, mem_uniqueEventKinds]

/-- Both get the same events. -/
theorem emit (h : Alike P r r') (kinds : List EventKind) : Alike P (r.emit kinds) (r'.emit kinds) :=
  { h with kinds := by simp only [Reduction.emit, uniqueEventKinds_append, h.kinds] }

/-- Both get the same client. -/
theorem withClient (h : Alike P r r') (c : Client) :
    Alike P { r with client := c } { r' with client := c } :=
  { h with client := rfl }

/-- A plain block goes on in the same way. -/
theorem plain {f : Reduction → Reduction} (hf : Plain f) (h : Alike P r r') :
    Alike P (f r) (f r') := by
  rw [hf r, hf r', h.client]
  exact (h.withClient _).emit _

/-- A request for a reconciliation is made by both. -/
theorem requesting (h : Alike P r r') (b : Bool) :
    Alike P { r with reconcileRequested := r.reconcileRequested || b }
      { r' with reconcileRequested := r'.reconcileRequested || b } :=
  { h with reconcile := fun hp => congrArg (· || b) (h.reconcile hp) }

/-- The patches find the same peers. -/
theorem reducePatches (h : Alike P r r') :
    Alike P (reducePatches response r) (reducePatches response r') := by
  unfold WgoTailscale.reducePatches
  rw [h.client]
  dsimp only
  generalize (Slice.list response.peersChangedPatch).foldl patchPeer _ = loop
  have hloop := (h.requesting loop.reconcileRequested).withClient
    { r.client with peers := loop.peers }
  split
  · exact hloop.emit _
  · exact hloop

/-- The DERP map finds the same client. -/
theorem reduceDERP (h : Alike P r r') :
    Alike P (reduceDERP response r) (reduceDERP response r') := by
  unfold WgoTailscale.reduceDERP
  rw [h.client]
  split
  · exact h
  dsimp only
  split
  · exact h
  generalize (if r.client.opts.disableDERP = true then (0 : Int) else _) = preferred
  refine Alike.emit ?_ _
  split
  · refine Alike.emit ?_ _
    exact ⟨rfl, h.kinds, rfl, rfl, rfl, h.dnsNodesChanged, fun _ => rfl⟩
  · exact { h with client := rfl, derpChanged := rfl, derpBindingChanged := rfl }

/-- The rules are put together by both or by none. -/
theorem reduceFlatten (h : Alike P r r') : Alike P (reduceFlatten r) (reduceFlatten r') := by
  unfold WgoTailscale.reduceFlatten
  rw [h.client]
  by_cases hacl : .acl ∈ r.kinds
  · rw [if_pos hacl, if_pos ((h.mem_kinds _).mpr hacl)]
    exact h.withClient _
  · rw [if_neg hacl, if_neg (hacl ∘ (h.mem_kinds _).mp)]
    exact h

/-- The records are announced by both or by none. -/
theorem reduceDNSNodes (h : Alike P r r') : Alike P (reduceDNSNodes r) (reduceDNSNodes r') := by
  unfold WgoTailscale.reduceDNSNodes
  rw [h.dnsNodesChanged]
  split
  · exact h.emit _
  · exact h

/-- The same peers are newly expired. -/
theorem reducePeerExpiry (h : Alike P r r') :
    Alike P (reducePeerExpiry now r) (reducePeerExpiry now r') := by
  unfold WgoTailscale.reducePeerExpiry
  rw [h.client]
  dsimp only
  split
  · refine Alike.emit ?_ _
    exact { h with client := rfl, reconcile := fun _ => rfl }
  · exact h.withClient _

/-- The blocks after those for the lists of peers. -/
theorem later (h : Alike P r r') (selfWasExpired : Bool) : Alike P
    (r |> WgoTailscale.reducePatches response |> WgoTailscale.reduceSeenOnline response now
      |> WgoTailscale.reduceDERP response |> reduceRest response
      |> (reduceExpiry now · selfWasExpired))
    (r' |> WgoTailscale.reducePatches response |> WgoTailscale.reduceSeenOnline response now
      |> WgoTailscale.reduceDERP response |> reduceRest response
      |> (reduceExpiry now · selfWasExpired)) := by
  obtain ⟨hseen, hdns, hfilter, hfilters, husers, hmetadata, hmark, hexpiry, hrecovered⟩ :=
    plain_blocks response now selfWasExpired
  have hacl := ((((h.reducePatches response).plain hseen).reduceDERP response).plain hdns).plain
    hfilter |>.plain hfilters
  have hrest := (hacl.reduceFlatten.plain husers).plain hmetadata |>.reduceDNSNodes
  exact (((hrest.plain hmark).plain hexpiry).reducePeerExpiry now).plain hrecovered

/-- What is left to do once the lock is released. -/
theorem stamp (h : Alike P r r') : r'.stamp now = r.stamp now := by
  unfold Reduction.stamp
  rw [h.client, h.derpChanged]
  simp only [h.mem_kinds]

end Alike

/-! ## The lists of peers -/

/-- A response with the whole list of peers. -/
def MapResponse.full (base : MapResponse) (nodes : List Node) : MapResponse :=
  { base with peers := some (nodes.map some), peersChanged := none, peersRemoved := none }

/-- A response with the nodes that changed and the ids that are gone. -/
def MapResponse.delta (base : MapResponse) (nodes : List Node) (removed : List Int) : MapResponse :=
  { base with peers := none, peersChanged := some (nodes.map some), peersRemoved := some removed }

/-- The peers with one more. -/
def filePeer (peers : FinMap Int Node) (node : Node) : FinMap Int Node :=
  peers.insert node.id (cloneControlNode node)

section

/-- The whole list, filed one by one. -/
theorem peersOfList_eq (l : List (Option Node)) :
    peersOfList l = (l.filterMap id).foldl filePeer ∅ := by
  unfold peersOfList ofList filePeer
  rw [List.foldl_map]

/-- Changed nodes are filed in the same way. -/
theorem foldl_changePeer_eq (l : List (Option Node)) (peers : FinMap Int Node) (flag : Bool) :
    (l.foldl changePeer (peers, flag)).1 = (l.filterMap id).foldl filePeer peers := by
  induction l generalizing peers flag with
  | nil => rfl
  | cons node l ih =>
    cases node with
    | none => exact ih peers flag
    | some node =>
      rw [List.foldl_cons, changePeer]
      split
      · next hsame =>
        rw [ih]
        show _ = (l.filterMap id).foldl filePeer (filePeer peers node)
        rw [filePeer, insert_eq_self hsame]
      · exact ih _ _

variable {peers : FinMap Int Node} {nodes : List Node} {removed : List Int} {id : Int}

theorem peersOfList_map (nodes : List Node) :
    peersOfList (nodes.map some) = nodes.foldl filePeer ∅ := by
  rw [peersOfList_eq, List.filterMap_map, Function.id_comp, List.filterMap_some]

theorem foldl_changePeer_map (nodes : List Node) (peers : FinMap Int Node) (flag : Bool) :
    ((nodes.map some).foldl changePeer (peers, flag)).1 = nodes.foldl filePeer peers := by
  rw [foldl_changePeer_eq, List.filterMap_map, Function.id_comp, List.filterMap_some]

/-- An id that is not in the list keeps its peer. -/
theorem get_foldl_filePeer_of_not_mem (h : id ∉ nodes.map Node.id) (peers : FinMap Int Node) :
    (nodes.foldl filePeer peers).get id = peers.get id := by
  induction nodes generalizing peers with
  | nil => rfl
  | cons node nodes ih =>
    obtain ⟨hne, hrest⟩ := not_or.mp (List.mem_cons.not.mp h)
    rw [List.foldl_cons, ih hrest, filePeer, get_insert_ne _ _ hne]

/-- A peer is one from before, or a copy of a node of the list. -/
theorem get_foldl_filePeer_cases {node : Node}
    (h : (nodes.foldl filePeer peers).get id = some node) :
    id ∉ nodes.map Node.id ∧ peers.get id = some node ∨
      ∃ n ∈ nodes, n.id = id ∧ node = cloneControlNode n := by
  induction nodes generalizing peers with
  | nil => exact .inl ⟨List.not_mem_nil, h⟩
  | cons first nodes ih =>
    rcases ih h with ⟨hmem, hget⟩ | ⟨n, hn, heq⟩
    · rw [filePeer, get_insert] at hget
      split at hget
      · next hid =>
        exact .inr ⟨first, List.mem_cons_self, hid.symm, (Option.some.inj hget).symm⟩
      · next hid => exact .inl ⟨fun h => (List.mem_cons.mp h).elim hid hmem, hget⟩
    · exact .inr ⟨n, List.mem_cons_of_mem _ hn, heq⟩

/-- The peers before do not matter for the ids of the list. -/
theorem get_foldl_filePeer_of_mem (h : id ∈ nodes.map Node.id) (peers peers' : FinMap Int Node) :
    (nodes.foldl filePeer peers).get id = (nodes.foldl filePeer peers').get id := by
  induction nodes generalizing peers peers' with
  | nil => cases h
  | cons node nodes ih =>
    rw [List.foldl_cons, List.foldl_cons]
    by_cases hlater : id ∈ nodes.map Node.id
    · exact ih hlater _ _
    · obtain rfl := (List.mem_cons.mp h).resolve_right hlater
      rw [get_foldl_filePeer_of_not_mem hlater, get_foldl_filePeer_of_not_mem hlater, filePeer,
        filePeer, get_insert_self, get_insert_self]

/-- The ids that are gone are erased. -/
theorem foldl_removePeerID_eq (removed : List Int) (peers : FinMap Int Node) (flag : Bool) :
    (removed.foldl removePeerID (peers, flag)).1 = peers.eraseAll removed := by
  induction removed generalizing peers flag with
  | nil => rfl
  | cons id removed ih =>
    rw [List.foldl_cons, removePeerID]
    unfold eraseAll at ih ⊢
    rw [List.foldl_cons]
    split
    · exact ih _ _
    · next habsent => rw [ih, erase_eq_self habsent]

/-- Filing the nodes of a list and erasing the other ids leaves the peers of the list. -/
theorem delta_eq_full (hremoved : ∀ id, id ∈ removed ↔ id ∈ peers ∧ id ∉ nodes.map Node.id) :
    (nodes.foldl filePeer peers).eraseAll removed = peersOfList (nodes.map some) := by
  refine ext_get fun id => ?_
  rw [peersOfList_map, get_eraseAll]
  by_cases hmem : id ∈ nodes.map Node.id
  · rw [if_neg fun h => ((hremoved id).mp h).2 hmem]
    exact get_foldl_filePeer_of_mem hmem _ _
  · rw [get_foldl_filePeer_of_not_mem hmem, get_foldl_filePeer_of_not_mem hmem, get_empty]
    split
    · rfl
    · next hkept =>
      rw [hremoved, not_and, not_not] at hkept
      exact not_mem_iff.mp fun hpeer => hmem (hkept hpeer)

/-- With distinct ids, each node of the list is there. -/
theorem get_foldl_filePeer (h : (nodes.map Node.id).Nodup) {node : Node} (hnode : node ∈ nodes)
    (peers : FinMap Int Node) :
    (nodes.foldl filePeer peers).get node.id = some (cloneControlNode node) := by
  induction nodes generalizing peers with
  | nil => cases hnode
  | cons first nodes ih =>
    obtain ⟨hfirst, hrest⟩ := List.nodup_cons.mp h
    rw [List.foldl_cons]
    rcases List.mem_cons.mp hnode with rfl | hnode
    · rw [get_foldl_filePeer_of_not_mem hfirst, filePeer, get_insert_self]
    · exact ih hrest hnode _

/-- Nodes that are the peers already change nothing. -/
theorem foldl_changePeer_of_same
    (h : ∀ node ∈ nodes, peers.get node.id = some (cloneControlNode node)) (flag : Bool) :
    (nodes.map some).foldl changePeer (peers, flag) = (peers, flag) := by
  induction nodes with
  | nil => rfl
  | cons node nodes ih =>
    obtain ⟨hfirst, hrest⟩ := List.forall_mem_cons.mp h
    rw [List.map_cons, List.foldl_cons, changePeer]
    rw [if_pos hfirst]
    exact ih hrest

/-- A delta raises one of its flags exactly if it changes the peers. -/
theorem delta_flags (hnodup : (nodes.map Node.id).Nodup)
    (hremoved : ∀ id, id ∈ removed ↔ id ∈ peers ∧ id ∉ nodes.map Node.id) :
    (((nodes.map some).foldl changePeer (peers, false)).2 = false ∧
      (removed.foldl removePeerID (nodes.foldl filePeer peers, false)).2 = false) ↔
      peers = peersOfList (nodes.map some) := by
  constructor
  · rintro ⟨hchanged, hgone⟩
    have hfile := (foldl_eq_or_flag changePeer_eq_or_flag (nodes.map some)
      (peers, false)).resolve_right (by rw [hchanged]; nofun)
    have herase := (foldl_eq_or_flag removePeerID_eq_or_flag removed
      (nodes.foldl filePeer peers, false)).resolve_right (by rw [hgone]; nofun)
    rw [← delta_eq_full hremoved, ← foldl_removePeerID_eq removed _ false, herase,
      ← foldl_changePeer_map nodes peers false, hfile]
  · intro hpeers
    have hsame : ∀ node ∈ nodes, peers.get node.id = some (cloneControlNode node) := by
      intro node hnode
      rw [hpeers, peersOfList_map]
      exact get_foldl_filePeer hnodup hnode _
    have hnone : removed = [] := by
      refine List.eq_nil_iff_forall_not_mem.mpr fun id hid => ?_
      obtain ⟨hpeer, hmem⟩ := (hremoved id).mp hid
      rw [hpeers, mem_iff, peersOfList_map, get_foldl_filePeer_of_not_mem hmem] at hpeer
      obtain ⟨_, hget⟩ := hpeer
      cases hget
    rw [foldl_changePeer_of_same hsame, hnone]
    exact ⟨rfl, rfl⟩

variable (base : MapResponse) (r : Reduction)

/-- The full list. -/
theorem lists_full : (r |> reducePeers (base.full nodes) |> reducePeersChanged (base.full nodes)
      |> reducePeersRemoved (base.full nodes)) =
    if r.client.peers = peersOfList (nodes.map some) then { r with reconcileRequested := true }
    else { r with
      client := { r.client with peers := peersOfList (nodes.map some) }
      reconcileRequested := true
      dnsNodesChanged := true
      kinds := r.kinds ++ [.peers, .network] } := by
  unfold reducePeers MapResponse.full
  dsimp only
  split <;> rfl

/-- What the two loops of a delta do with their result. -/
theorem loop_eq (peers : FinMap Int Node) (changed requested : Bool) :
    (let r := { r with
      client := { r.client with peers }
      reconcileRequested := r.reconcileRequested || requested }
     if changed then { r with dnsNodesChanged := true }.emit [.peers, .network] else r) =
    { r with
      client := { r.client with peers }
      reconcileRequested := r.reconcileRequested || requested
      dnsNodesChanged := r.dnsNodesChanged || changed
      kinds := r.kinds ++ if changed then [.peers, .network] else [] } := by
  cases changed with
  | true => rw [Bool.or_true]; rfl
  | false =>
    simp only [Bool.false_eq_true, if_false, Bool.or_false, List.append_nil]

/-- The delta. -/
theorem lists_delta : (r |> reducePeers (base.delta nodes removed)
      |> reducePeersChanged (base.delta nodes removed)
      |> reducePeersRemoved (base.delta nodes removed)) =
    let changed := ((nodes.map some).foldl changePeer (r.client.peers, false)).2
    let gone := (removed.foldl removePeerID (nodes.foldl filePeer r.client.peers, false)).2
    { r with
      client := { r.client with peers := (nodes.foldl filePeer r.client.peers).eraseAll removed }
      reconcileRequested := r.reconcileRequested || !nodes.isEmpty || !removed.isEmpty
      dnsNodesChanged := r.dnsNodesChanged || changed || gone
      kinds := r.kinds ++ ((if changed then [.peers, .network] else []) ++
        if gone then [.peers, .network] else []) } := by
  have hchanged : reducePeersChanged (base.delta nodes removed) r = _ :=
    loop_eq r ((nodes.map some).foldl changePeer (r.client.peers, false)).1
      ((nodes.map some).foldl changePeer (r.client.peers, false)).2 (!(nodes.map some).isEmpty)
  have hpeers : reducePeers (base.delta nodes removed) r = r := rfl
  rw [hpeers, hchanged, foldl_changePeer_map]
  refine (loop_eq _ (removed.foldl removePeerID (nodes.foldl filePeer r.client.peers, false)).1
    (removed.foldl removePeerID (nodes.foldl filePeer r.client.peers, false)).2
    (!removed.isEmpty)).trans ?_
  rw [foldl_removePeerID_eq, List.isEmpty_map]
  simp only [List.append_assoc]

variable {base r} in
/-- A full list and its delta leave reductions that go on in the same way. -/
theorem alike_lists (hnodup : (nodes.map Node.id).Nodup)
    (hremoved : ∀ id, id ∈ removed ↔ id ∈ r.client.peers ∧ id ∉ nodes.map Node.id) :
    Alike (nodes ≠ [] ∨ removed ≠ [])
      (r |> reducePeers (base.full nodes) |> reducePeersChanged (base.full nodes)
        |> reducePeersRemoved (base.full nodes))
      (r |> reducePeers (base.delta nodes removed)
        |> reducePeersChanged (base.delta nodes removed)
        |> reducePeersRemoved (base.delta nodes removed)) := by
  have hflags := delta_flags hnodup hremoved
  have hrequested (hany : nodes ≠ [] ∨ removed ≠ []) :
      (r.reconcileRequested || !nodes.isEmpty || !removed.isEmpty) = true := by
    rcases hany with hany | hany <;> simp [hany]
  rw [lists_full, lists_delta, delta_eq_full hremoved]
  by_cases hsame : r.client.peers = peersOfList (nodes.map some)
  · obtain ⟨hchanged, hgone⟩ := hflags.mpr hsame
    rw [if_pos hsame, ← hsame]
    rw [hchanged, hgone]
    exact ⟨rfl, by simp, rfl, rfl, rfl, by simp, hrequested⟩
  · rw [if_neg hsame]
    generalize ((nodes.map some).foldl changePeer (r.client.peers, false)).2 = changed at *
    generalize (removed.foldl removePeerID (nodes.foldl filePeer r.client.peers, false)).2 = gone
      at *
    have hone : changed = true ∨ gone = true := by
      by_contra hnone
      obtain ⟨hchanged, hgone⟩ := not_or.mp hnone
      exact hsame (hflags.mp ⟨Bool.eq_false_of_not_eq_true hchanged,
        Bool.eq_false_of_not_eq_true hgone⟩)
    refine ⟨rfl, ?_, rfl, rfl, rfl, ?_, hrequested⟩
    · have htwice : uniqueEventKinds (r.kinds ++ ([.peers, .network] ++ [.peers, .network])) =
          uniqueEventKinds (r.kinds ++ [.peers, .network]) := by
        rw [← List.append_assoc]
        exact uniqueEventKinds_append_of_subset (List.subset_append_right _ _)
      cases changed <;> cases gone <;> simp_all
    · rcases hone with rfl | rfl <;> simp

end

/-! ## The whole response -/

/-- `applyMapResponse`, which ignores a response whose self node has another key. -/
def Client.receive (c : Client) (response : MapResponse) (now : Time) : Done :=
  if c.nodeKeyMismatch response then { client := c } else c.applyMapResponse response now

section
variable {c : Client} {base : MapResponse} {nodes : List Node} {removed : List Int} {now : Time}

/-- The other blocks do not read the lists of peers. -/
theorem reduceMap_lists {response : MapResponse} (peers changed : Slice (Option Node))
    (gone : Slice Int) (hresponse : response =
      { base with peers := peers, peersChanged := changed, peersRemoved := gone }) :
    reduceMap c response now =
      ({ client := c : Reduction } |> reduceHead base now |> reducePeers response
        |> reducePeersChanged response |> reducePeersRemoved response |> reducePatches base
        |> reduceSeenOnline base now |> reduceDERP base |> reduceRest base
        |> (reduceExpiry now · c.selfExpired)) := by
  let blocks (m : MapResponse) := (reduceSession m, reduceControlTime m, reduceBrowserURL m,
    reduceNode m, reducePatches m, reduceSeenOnline m, reduceDERP m, reduceDNS m,
    reducePacketFilter m, reducePacketFilters m, reduceUsers m, reduceMetadata m)
  have hblocks : blocks response = blocks base := by
    rw [hresponse]
    rfl
  simp only [blocks, Prod.mk.injEq] at hblocks
  obtain ⟨hsession, htime, hurl, hnode, hpatches, hseen, hderp, hdns, hfilter, hfilters, husers,
    hmetadata⟩ := hblocks
  rw [reduceMap_eq_parts, reducePeerBlocks, reduceHead, reduceRest, hsession, htime, hurl, hnode,
    hpatches, hseen, hderp, hdns, hfilter, hfilters, husers, hmetadata]
  rfl

/-- The reductions of a full list and of its delta are alike. -/
theorem alike_reduceMap (base : MapResponse) (now : Time) (hnodup : (nodes.map Node.id).Nodup)
    (hremoved : ∀ id, id ∈ removed ↔ id ∈ c.peers ∧ id ∉ nodes.map Node.id) :
    Alike (nodes ≠ [] ∨ removed ≠ []) (reduceMap c (base.full nodes) now)
      (reduceMap c (base.delta nodes removed) now) := by
  obtain ⟨_, _, _, _, _, hhead⟩ := client_reduceHead base now { client := c }
  have hpeers : (reduceHead base now { client := c }).client.peers = c.peers := by rw [hhead]
  rw [← hpeers] at hremoved
  have hfull : reduceMap c (base.full nodes) now = _ :=
    reduceMap_lists (some (nodes.map some)) none none rfl
  have hdelta : reduceMap c (base.delta nodes removed) now = _ :=
    reduceMap_lists none (some (nodes.map some)) (some removed) rfl
  rw [hfull, hdelta]
  exact (alike_lists hnodup hremoved).later base now c.selfExpired

/-- Patches are for peers that are there. -/
theorem foldl_patchPeer_empty (l : List (Option PeerChange)) (acc : PatchLoop)
    (h : acc.peers = ∅) : (l.foldl patchPeer acc).peers = ∅ := by
  induction l generalizing acc with
  | nil => exact h
  | cons patch l ih =>
    refine ih _ ?_
    cases patch with
    | none => exact h
    | some patch =>
      unfold patchPeer
      rw [h]
      exact h

/-- No peers before and none in the list. -/
theorem peers_reduceMap_full_nil : (reduceMap c (base.full []) now).client.peers = ∅ := by
  have hpatched := foldl_patchPeer_empty (Slice.list base.peersChangedPatch)
    { peers := peersOfList [] } rfl
  have hafter : (base.full []).peersAfter now c.peers = ∅ := by
    refine ext_get fun id => ?_
    show Option.map _ (((Slice.list base.peersChangedPatch).foldl patchPeer
      { peers := peersOfList [] }).peers.get id) = none
    rw [hpatched]
    rfl
  rw [peers_reduceMap, hafter]
  exact ext_get fun id => rfl

/-- What the two responses lead to: the same client and the same events, and the same calls unless
there are no peers before and after. -/
structure SameUpdate (d d' : Done) : Prop where
  client : d'.client = d.client
  events : d'.events = d.events
  calls : d'.calls = d.calls ∨ d.client.peers = ∅

theorem SameUpdate.refl (d : Done) : SameUpdate d d := ⟨rfl, rfl, .inl rfl⟩

/-- So the section leads to the same client, events and calls. -/
theorem sameUpdate_applyMapResponse (hnodup : (nodes.map Node.id).Nodup)
    (hremoved : ∀ id, id ∈ removed ↔ id ∈ c.peers ∧ id ∉ nodes.map Node.id) :
    SameUpdate (c.applyMapResponse (base.full nodes) now)
      (c.applyMapResponse (base.delta nodes removed) now) := by
  cases hkeep : base.keepAlive with
  | true =>
    have hsame : (base.delta nodes removed).effective = (base.full nodes).effective := by
      unfold MapResponse.effective MapResponse.delta MapResponse.full
      rw [if_pos hkeep, if_pos hkeep]
      rfl
    unfold Client.applyMapResponse
    rw [hsame]
    exact .refl _
  | false =>
    have hfull : (base.full nodes).effective = base.full nodes :=
      if_neg (Bool.eq_false_iff.mp hkeep)
    have hdelta : (base.delta nodes removed).effective = base.delta nodes removed :=
      if_neg (Bool.eq_false_iff.mp hkeep)
    have hping : (base.delta nodes removed).pingRequest = (base.full nodes).pingRequest := rfl
    have halike := alike_reduceMap base now hnodup hremoved
    have hempty : ¬ (nodes ≠ [] ∨ removed ≠ []) →
        (reduceMap c (base.full nodes) now).client.peers = ∅ := by
      intro hnone
      obtain rfl : nodes = [] := not_not.mp (not_or.mp hnone).1
      exact peers_reduceMap_full_nil
    unfold Client.applyMapResponse
    rw [hfull, hdelta]
    dsimp only
    rw [hping]
    revert halike hempty
    generalize reduceMap c (base.full nodes) now = r
    generalize reduceMap c (base.delta nodes removed) now = r'
    intro halike hempty
    have hnil : r'.kinds = [] ↔ r.kinds = [] := by
      rw [← uniqueEventKinds_eq_nil, halike.kinds, uniqueEventKinds_eq_nil]
    have hcalls : r'.reconcileRequested = r.reconcileRequested ∨ r.client.peers = ∅ := by
      by_cases hany : nodes ≠ [] ∨ removed ≠ []
      · exact .inl (halike.reconcile hany)
      · exact .inr (hempty hany)
    by_cases hkinds : r.kinds = []
    · rw [if_pos hkinds, if_pos (hnil.mpr hkinds)]
      exact ⟨halike.client, rfl, hcalls.imp_left fun h => by rw [h]⟩
    · rw [if_neg hkinds, if_neg (hkinds ∘ hnil.mp)]
      rw [halike.stamp now, halike.kinds, halike.derpBindingChanged, halike.preferredDERPChanged]
      exact ⟨rfl, rfl, hcalls.imp_left fun h => by rw [h]⟩

end

/-! ## Reachable clients -/

/-- Every peer is stored under its own id. -/
def Filed (peers : FinMap Int Node) : Prop := ∀ id node, peers.get id = some node → node.id = id

namespace Filed

variable {peers : FinMap Int Node}

/-- No peers. -/
theorem empty : Filed ∅ := by
  intro id node hget
  rw [get_empty] at hget
  cases hget

/-- One more peer, under its id. -/
theorem insert (h : Filed peers) {id : Int} {node : Node} (hid : node.id = id) :
    Filed (peers.insert id node) := by
  intro id' node' hget
  rw [get_insert] at hget
  split at hget
  · next heq =>
    cases hget
    exact hid.trans heq.symm
  · exact h id' node' hget

/-- The peers of a list. -/
theorem peersOfList (nodes : List (Option Node)) : Filed (peersOfList nodes) := by
  unfold WgoTailscale.peersOfList ofList
  rw [List.foldl_map]
  exact List.foldlRecOn _ _ (motive := Filed) empty fun _ h node _ => h.insert rfl

/-- A changed peer. -/
theorem changePeer {acc : FinMap Int Node × Bool} (h : Filed acc.1) (node : Option Node) :
    Filed (changePeer acc node).1 := by
  unfold WgoTailscale.changePeer
  split
  · exact h
  split
  · exact h
  · exact h.insert rfl

/-- A removed peer. -/
theorem removePeerID {acc : FinMap Int Node × Bool} (h : Filed acc.1) (id : Int) :
    Filed (removePeerID acc id).1 := by
  unfold WgoTailscale.removePeerID
  split
  · intro id' node hget
    rw [get_erase] at hget
    split at hget
    · cases hget
    · exact h id' node hget
  · exact h

/-- A patched peer keeps its id. -/
theorem patchPeer {acc : PatchLoop} (h : Filed acc.peers) (patch : Option PeerChange) :
    Filed (patchPeer acc patch).peers := by
  unfold WgoTailscale.patchPeer
  split
  · exact h
  split
  · exact h
  · next patch _ node hget =>
    exact h.insert (h patch.nodeID node hget)

/-- Marks and times leave the ids alone. -/
theorem mapVals (h : Filed peers) {f : Int → Node → Node}
    (hf : ∀ id node, (f id node).id = node.id) : Filed (peers.mapVals f) := by
  intro id node hget
  obtain ⟨node', hold, rfl⟩ := Option.map_eq_some_iff.mp hget
  exact (hf id node').trans (h id node' hold)

/-- The peers after a response. -/
theorem peersAfter (h : Filed peers) (response : MapResponse) (now : Time) :
    Filed (response.peersAfter now peers) := by
  have hfull : Filed ((response.peers.map WgoTailscale.peersOfList).getD peers) := by
    cases response.peers with
    | none => exact h
    | some nodes => exact .peersOfList nodes
  have hchanged := List.foldlRecOn (Slice.list response.peersChanged) WgoTailscale.changePeer
    (motive := fun acc => Filed acc.1) (b := (_, false)) hfull
    fun _ hacc node _ => hacc.changePeer node
  have hremoved := List.foldlRecOn (Slice.list response.peersRemoved) WgoTailscale.removePeerID
    (motive := fun acc => Filed acc.1) (b := (_, false)) hchanged
    fun _ hacc id _ => hacc.removePeerID id
  have hpatched := List.foldlRecOn (Slice.list response.peersChangedPatch) WgoTailscale.patchPeer
    (motive := fun acc => Filed acc.peers) (b := { peers := _ }) hremoved
    fun _ hacc patch _ => hacc.patchPeer patch
  refine hpatched.mapVals fun id node => ?_
  unfold MapResponse.observe
  split <;> split <;> rfl

/-- The whole response. -/
theorem reduceMap {c : Client} (h : Filed c.peers) (response : MapResponse) (now : Time) :
    Filed (reduceMap c response now).client.peers := by
  rw [peers_reduceMap]
  refine (h.peersAfter response now).mapVals fun id node => ?_
  unfold markNodeExpired
  split <;> rfl

end Filed

/-- The section leaves the peers of the reduction. -/
theorem peers_applyMapResponse (c : Client) (response : MapResponse) (now : Time) :
    (c.applyMapResponse response now).client.peers =
      (reduceMap c response.effective now).client.peers :=
  applyMapResponse_view Client.peers (fun _ _ => rfl) c response now

/-- Every section keeps the peers filed. -/
theorem Filed.run {c : Client} (h : Filed c.peers) (now : Time) (x : Section) :
    Filed (x.run c now).client.peers := by
  rcases frame_run c now x with ⟨response, rfl⟩ | hframe
  · show Filed (c.applyMapResponse response now).client.peers
    rw [peers_applyMapResponse]
    exact h.reduceMap _ _
  · have hpeers : (x.run c now).client.peers = c.peers := congrArg (·.2.1) hframe.facts
    rwa [hpeers]

/-- A full list of peers and the delta that describes it lead a client to the same peers, each under
its own id, to the same wanted peers in every order, to the same contents of the DNS and the network
view, and in fact to the same client and the same events. They make the same calls, except that the
full list reconciles also when there are no peers before and after. -/
structure FullDeltaAgree (c : Client) (base : MapResponse) (nodes : List Node) (removed : List Int)
    (now : Time) : Prop where
  peers : (c.receive (base.delta nodes removed) now).client.peers =
    (c.receive (base.full nodes) now).client.peers
  filed : Filed (c.receive (base.full nodes) now).client.peers
  desired : ∀ order, (c.receive (base.delta nodes removed) now).client.desired order =
    (c.receive (base.full nodes) now).client.desired order
  dns : (c.receive (base.delta nodes removed) now).client.dnsContent =
    (c.receive (base.full nodes) now).client.dnsContent
  network : (c.receive (base.delta nodes removed) now).client.networkContent =
    (c.receive (base.full nodes) now).client.networkContent
  same : SameUpdate (c.receive (base.full nodes) now) (c.receive (base.delta nodes removed) now)

/-- The two responses agree for every client whose peers are filed. -/
theorem fullDeltaAgree {c : Client} (h : Filed c.peers) (base : MapResponse) {nodes : List Node}
    {removed : List Int} (now : Time) (hnodup : (nodes.map Node.id).Nodup)
    (hremoved : ∀ id, id ∈ removed ↔ id ∈ c.peers ∧ id ∉ nodes.map Node.id) :
    FullDeltaAgree c base nodes removed now := by
  have hnode : (base.delta nodes removed).effective.node = (base.full nodes).effective.node := by
    unfold MapResponse.effective MapResponse.delta MapResponse.full
    split <;> rfl
  have hsame : SameUpdate (c.receive (base.full nodes) now)
      (c.receive (base.delta nodes removed) now) := by
    unfold Client.receive Client.nodeKeyMismatch
    rw [hnode]
    split
    · exact .refl _
    · exact sameUpdate_applyMapResponse hnodup hremoved
  have hfiled : Filed (c.receive (base.full nodes) now).client.peers := by
    unfold Client.receive
    split
    · exact h
    · rw [peers_applyMapResponse]
      exact h.reduceMap _ _
  have hclient := hsame.client
  exact ⟨by rw [hclient], hfiled, fun order => by rw [hclient], by rw [hclient], by rw [hclient],
    hsame⟩

/-- In every state of every run, a full list of peers and the delta from the current peers to it are
equivalent, whatever else the response carries. -/
theorem full_delta_agree (opts : Options) (privateKey : Option PrivateKey)
    (acts : List (Act Frame Choice EnvAct)) :
    program.system.Visits (fun cfg => ∀ base nodes removed now,
        (nodes.map Node.id).Nodup →
        (∀ id, id ∈ removed ↔ id ∈ cfg.shared.client.peers ∧ id ∉ nodes.map Node.id) →
        FullDeltaAgree cfg.shared.client base nodes removed now)
      (initial opts privateKey) acts :=
  (keeps_client (I := fun c => Filed c.peers) (fun _ now x h => h.run now x) .any).visits
    (fun _ h base _ _ now hnodup hremoved => fullDeltaAgree h base now hnodup hremoved) .empty acts

end WgoTailscale
