import WgoTailscale.Flow
import WgoTailscale.SectionFacts

/-!
# Revisions of the DNS, ACL and DERP views

A view carries the revision of the client at which its content last changed, and the change is
published as an event. `Reflects` is what the blocks of `applyMapResponse` promise about it, and
`reflects_reduceMap` that the whole section keeps the promise. From it follow that a response never
changes the DNS or the ACL view silently, in any reachable state (`dns_acl_views_announced`), and in
which responses it does change the DERP view silently: those that move the self node's home region
while no region is preferred (`derp_view_announced_iff`).
-/

namespace WgoTailscale

open FinMap

/-! ## The promise -/

/-- The revisions. -/
def Client.revisions (c : Client) := (c.revision, c.dnsRevision, c.aclRevision, c.derpRevision)

/-- The DERP view would read the same map, measurements and preferred region. -/
def SameRelays (c c' : Client) : Prop :=
  c'.derpMap = c.derpMap ∧ c'.derpLatency = c.derpLatency ∧ c'.preferredDERP = c.preferredDERP

/-- The same chunks of filter rules. -/
def SameFilters (c c' : Client) : Prop :=
  c'.namedFilters = c.namedFilters ∧ c'.filters = c.filters

/-- What a sequence of blocks promises about the views; with `calm`, that it also leaves the relays
alone. -/
structure Reflects (calm : Bool) (r r' : Reduction) : Prop where
  revisions : r'.client.revisions = r.client.revisions
  kinds : r.kinds ⊆ r'.kinds
  nodes : r.dnsNodesChanged = true → r'.dnsNodesChanged = true
  dns : .dns ∈ r'.kinds ∨ r'.dnsNodesChanged = true ∨ SameDNS r.client r'.client
  acl : .acl ∈ r'.kinds ∨ SameFilters r.client r'.client
  calm : calm = true → r'.derpChanged = r.derpChanged ∧ SameRelays r.client r'.client

section
variable {calm : Bool} {r r' r'' : Reduction}

theorem SameDNS.trans {c c' c'' : Client} (h : SameDNS c c') (h' : SameDNS c' c'') : SameDNS c c'' :=
  ⟨h'.dns.trans h.dns, h'.self.trans h.self, fun id => (h'.peers id).trans (h.peers id)⟩

namespace Reflects

theorem trans (h : Reflects calm r r') (h' : Reflects calm r' r'') : Reflects calm r r'' where
  revisions := h'.revisions.trans h.revisions
  kinds := List.Subset.trans h.kinds h'.kinds
  nodes hn := h'.nodes (h.nodes hn)
  dns := by
    rcases h'.dns with hdns | hnodes | hsame'
    · exact .inl hdns
    · exact .inr (.inl hnodes)
    rcases h.dns with hdns | hnodes | hsame
    · exact .inl (h'.kinds hdns)
    · exact .inr (.inl (h'.nodes hnodes))
    · exact .inr (.inr (hsame.trans hsame'))
  acl := by
    rcases h'.acl with hacl | hsame'
    · exact .inl hacl
    rcases h.acl with hacl | hsame
    · exact .inl (h'.kinds hacl)
    · exact .inr ⟨hsame'.1.trans hsame.1, hsame'.2.trans hsame.2⟩
  calm hcalm := by
    obtain ⟨hflag, hmap, hlatency, hpreferred⟩ := h.calm hcalm
    obtain ⟨hflag', hmap', hlatency', hpreferred'⟩ := h'.calm hcalm
    exact ⟨hflag'.trans hflag, hmap'.trans hmap, hlatency'.trans hlatency,
      hpreferred'.trans hpreferred⟩

/-- A block that keeps more. -/
theorem weaken (h : Reflects true r r') : Reflects false r r' :=
  { h with calm := fun hcalm => absurd hcalm Bool.false_ne_true }

end Reflects

/-- Every block keeps the promise. -/
theorem Block.reflects (h : Block calm r r') : Reflects calm r r' := by
  cases h with
  | aside huntouched hup hdata hkinds hrequested hnodes hderp hflags =>
    have hrevision : r'.client.revision = r.client.revision :=
      congrArg (fun data => data.2.1) huntouched
    simp only [Client.viewData, Prod.mk.injEq] at hdata
    obtain ⟨hself, hpeers, hdns, hnamed, hfilters, hmap, hlatency, hpreferred, hrest⟩ := hdata
    exact ⟨Prod.ext hrevision (by simp [Client.revisions, hrest]), hkinds, hnodes.trans,
      .inr (.inr ⟨hdns, by rw [hself], fun id => by rw [hpeers]⟩), .inr ⟨hnamed, hfilters⟩,
      fun _ => ⟨hderp, hmap, hlatency, hpreferred⟩⟩
  | self node =>
    exact ⟨rfl, by simp [Reduction.emit], fun _ => rfl, .inr (.inl rfl), .inr ⟨rfl, rfl⟩,
      fun _ => ⟨rfl, rfl, rfl, rfl⟩⟩
  | @markSelf _ _ node t hself =>
    have hnamed : (some (markNodeExpired node t).1).map Node.named =
        r.client.self.map Node.named := by
      rw [hself, Option.map_some, Option.map_some, named_markNodeExpired]
    exact ⟨rfl, by simp [Reduction.emit], id, .inr (.inr ⟨rfl, hnamed, fun _ => rfl⟩),
      .inr ⟨rfl, rfl⟩, fun _ => ⟨rfl, rfl, rfl, rfl⟩⟩
  | peers hclient hkinds hderp hflags hrequested hwanted hviewed hnamed =>
    refine ⟨by rw [hclient]; rfl, hkinds, fun h => hnamed.elim id fun hsame => hsame.1.trans h,
      .inr (hnamed.imp_right fun h => ?_), .inr ?_, fun _ => ⟨hderp, ?_⟩⟩
    · rw [hclient]
      exact ⟨rfl, rfl, h.2⟩
    · rw [hclient]
      exact ⟨rfl, rfl⟩
    · rw [hclient]
      exact ⟨rfl, rfl, rfl⟩
  | derp | home =>
    exact ⟨rfl, by simp [Reduction.emit], id, .inr (.inr ⟨rfl, rfl, fun _ => rfl⟩), .inr ⟨rfl, rfl⟩,
      fun h => absurd h Bool.false_ne_true⟩
  | dns dns =>
    exact ⟨rfl, by simp [Reduction.emit], id, .inl (by simp [Reduction.emit]), .inr ⟨rfl, rfl⟩,
      fun _ => ⟨rfl, rfl, rfl, rfl⟩⟩
  | chunks namedFilters =>
    exact ⟨rfl, by simp [Reduction.emit], id, .inr (.inr ⟨rfl, rfl, fun _ => rfl⟩),
      .inl (by simp [Reduction.emit]), fun _ => ⟨rfl, rfl, rfl, rfl⟩⟩
  | flatten filters hacl =>
    exact ⟨rfl, List.Subset.refl _, id, .inr (.inr ⟨rfl, rfl, fun _ => rfl⟩), .inl hacl,
      fun _ => ⟨rfl, rfl, rfl, rfl⟩⟩

theorem Blocks.reflects (h : Blocks calm r r') : Reflects calm r r' := by
  induction h with
  | refl => exact (Block.same r).reflects
  | tail _ hlast ih => exact ih.trans hlast.reflects

/-! ## The whole section -/

variable (response : MapResponse) (now : Time)

/-- Does a response bring another DERP map? -/
def Client.NewDERPMap (c : Client) (response : MapResponse) : Prop :=
  ∃ update, response.derpMap = some update ∧ mergeDERPMap c.derpMap update ≠ c.derpMap

/-- The block about relays does something, and says so, exactly if the map changes. -/
theorem reduceDERP_spec :
    ¬ r.client.NewDERPMap response ∧ reduceDERP response r = r ∨
      r.client.NewDERPMap response ∧ (reduceDERP response r).derpChanged = true ∧
        .derp ∈ (reduceDERP response r).kinds := by
  unfold reduceDERP
  cases hmap : response.derpMap with
  | none =>
    refine .inl ⟨?_, rfl⟩
    rintro ⟨update, hupdate, -⟩
    cases hmap.symm.trans hupdate
  | some update =>
    dsimp only
    split
    · next hsame =>
      refine .inl ⟨?_, rfl⟩
      rintro ⟨update', hupdate, hnew⟩
      cases hmap.symm.trans hupdate
      exact hnew hsame.symm
    · next hnew =>
      refine .inr ⟨⟨update, hmap, Ne.symm hnew⟩, ?_⟩
      generalize (if r.client.opts.disableDERP = true then (0 : Int) else _) = preferred
      split <;> exact ⟨rfl, by simp [Reduction.emit]⟩

/-- The blocks before `PacketFilters` is looked at. -/
def reduceBeforeChunks (c : Client) : Reduction :=
  { client := c : Reduction } |> reduceHead response now |> reducePeerBlocks response now
    |> reduceDERP response |> reduceDNS response |> reducePacketFilter response

/-- The blocks after that. -/
def reduceAfterChunks (selfWasExpired : Bool) (r : Reduction) : Reduction :=
  r |> reduceFlatten |> reduceUsers response |> reduceMetadata response |> reduceDNSNodes
    |> reduceMarkSelf now |> reduceSelfExpiry selfWasExpired now |> reducePeerExpiry now
    |> reduceRecovered

/-- The view's rules are the named chunks in the order of their names. -/
def Client.Flat (c : Client) : Prop := c.filters = flattenFilters c.namedFilters

/-- What the section promises: content and filters, once nodes that changed are announced. -/
structure ReducesViews (response : MapResponse) (c : Client) (r : Reduction) : Prop where
  revisions : r.client.revisions = c.revisions
  dns : .dns ∈ r.kinds ∨ SameDNS c r.client
  acl : .acl ∈ r.kinds ∨ SameFilters c r.client
  derp : c.NewDERPMap response ∧ r.derpChanged = true ∧ .derp ∈ r.kinds ∨
    ¬ c.NewDERPMap response ∧ r.derpChanged = false ∧ SameRelays c r.client
  flat : c.Flat → r.client.Flat

/-- The blocks about expiry leave alone what the DNS view reads of the nodes. -/
theorem sameDNS_reduceExpiry (selfWasExpired : Bool) :
    SameDNS r.client (reduceExpiry now r selfWasExpired).client := by
  obtain ⟨_, _, _, _, hexpiry⟩ := client_reduceExpiry now r selfWasExpired
  rw [hexpiry]
  refine ⟨rfl, ?_, sameRead_mapVals (fun _ node => named_markNodeExpired node _) _⟩
  rw [Option.map_map]
  exact congrArg (fun g => r.client.self.map g) (funext fun node => named_markNodeExpired node _)

theorem reflects_reduceMap (c : Client) :
    ReducesViews response c (reduceMap c response now) := by
  -- the states before and after the relays, before the filters are flattened, before nodes that
  -- changed are announced, and at the end
  obtain ⟨r₁, hr₁⟩ : ∃ r, r = ({ client := c : Reduction } |> reduceHead response now
      |> reducePeerBlocks response now) := ⟨_, rfl⟩
  obtain ⟨r₂, hr₂⟩ : ∃ r, r = reduceDERP response r₁ := ⟨_, rfl⟩
  obtain ⟨r₃, hr₃⟩ : ∃ r, r = (r₂ |> reduceDNS response |> reducePacketFilter response
      |> reducePacketFilters response) := ⟨_, rfl⟩
  obtain ⟨r₄, hr₄⟩ : ∃ r, r = (reduceFlatten r₃ |> reduceUsers response |> reduceMetadata response) :=
    ⟨_, rfl⟩
  obtain ⟨r₅, hr₅⟩ : ∃ r, r = reduceExpiry now (reduceDNSNodes r₄) c.selfExpired := ⟨_, rfl⟩
  have heq : reduceMap c response now = r₅ := by
    rw [hr₅, hr₄, hr₃, hr₂, hr₁]
    rfl
  rw [heq]
  obtain ⟨husers, hmetadata, hnodesBlock⟩ := block_metadata response true
  have h₁ : Reflects true { client := c } r₁ := by
    rw [hr₁]
    exact Blocks.reflects ((blocks_head response now).trans
      (.head (block_peers response) (blocks_afterPeers response now)))
  have h₂ : Reflects false r₁ r₂ := hr₂ ▸ (block_derp response).reflects
  have h₃ : Reflects true r₂ r₃ := by
    rw [hr₃]
    exact (block_dns response).reflects.trans
      ((block_packetFilter response).reflects.trans (block_packetFilters response).reflects)
  have h₄ : Reflects true r₃ r₄ := by
    rw [hr₄]
    exact block_flatten.reflects.trans ((husers _).reflects.trans (hmetadata _).reflects)
  have h₅ : Reflects true (reduceDNSNodes r₄) r₅ :=
    hr₅ ▸ (blocks_expiry now c.selfExpired).reflects
  have hlate := h₃.trans (h₄.trans ((hnodesBlock r₄).reflects.trans h₅))
  have hfilters := h₁.weaken.trans (h₂.trans h₃.weaken)
  have hnodes := hfilters.trans h₄.weaken
  have hall := h₁.weaken.trans (h₂.trans hlate.weaken)
  have hdns : SameDNS r₄.client r₅.client := by
    rw [hr₅, ← client_reduceDNSNodes]
    exact sameDNS_reduceExpiry now c.selfExpired
  obtain ⟨_, _, _, _, hexpiry⟩ := client_reduceExpiry now (reduceDNSNodes r₄) c.selfExpired
  refine ⟨hall.revisions, ?_, hall.acl, ?_, fun hflat => ?_⟩
  · rcases hnodes.dns with hkind | hchanged | hsame
    · exact .inl (h₅.kinds ((hnodesBlock r₄).reflects.kinds hkind))
    · refine .inl (h₅.kinds ?_)
      simp [reduceDNSNodes, hchanged, Reduction.emit]
    · exact .inr (hsame.trans hdns)
  · obtain ⟨hflag, hsame⟩ := h₁.calm rfl
    obtain ⟨hflag', hsame'⟩ := hlate.calm rfl
    have hmap : r₁.client.NewDERPMap response ↔ c.NewDERPMap response := by
      rw [Client.NewDERPMap, hsame.1]
      rfl
    rcases reduceDERP_spec response (r := r₁) with ⟨hold, hkept⟩ | ⟨hnew, hchanged, hkind⟩
    · obtain rfl : r₂ = r₁ := hr₂.trans hkept
      exact .inr ⟨mt hmap.mpr hold, hflag'.trans hflag, hsame'.1.trans hsame.1,
        hsame'.2.1.trans hsame.2.1, hsame'.2.2.trans hsame.2.2⟩
    · rw [← hr₂] at hchanged hkind
      exact .inl ⟨hmap.mp hnew, hflag'.trans hchanged, hlate.kinds hkind⟩
  · have hflatten : (reduceFlatten r₃).client.Flat := by
      unfold reduceFlatten
      split
      · rfl
      · next hacl =>
        obtain ⟨hnamed, hsame⟩ := hfilters.acl.resolve_left hacl
        rw [Client.Flat, hnamed, hsame]
        exact hflat
    rw [hr₅, hexpiry, client_reduceDNSNodes, hr₄, client_reduceMetadata, client_reduceUsers]
    exact hflatten

theorem mem_uniqueEventKinds {kinds : List EventKind} {kind : EventKind} :
    kind ∈ uniqueEventKinds kinds ↔ kind ∈ kinds := by
  have hfold (kinds result : List EventKind) : kind ∈ kinds.foldl
      (fun result kind => if kind ∈ result then result else result ++ [kind]) result ↔
      kind ∈ result ∨ kind ∈ kinds := by
    induction kinds generalizing result with
    | nil => simp
    | cons k kinds ih =>
      rw [List.foldl_cons, ih, List.mem_cons]
      split
      · next hk => exact ⟨fun h => h.imp_right .inr, fun h => h.elim .inl fun h =>
          h.elim (fun h => .inl (h ▸ hk)) .inr⟩
      · simp [or_assoc]
  exact (hfold kinds []).trans (by simp)

end

/-! ## Chunks of filter rules -/

/-- The chunks that the loop over `PacketFilters` starts from: none after a wildcard. -/
def startingFilters (filters : FinMap String (Slice FilterRule))
    (namedFilters : FinMap String (List FilterRule)) : FinMap String (List FilterRule) × Bool :=
  if filters.get "*" = some none ∧ namedFilters.keys ≠ ∅ then (∅, true) else (namedFilters, false)

/-- The loop over `PacketFilters`, when they are visited in the given order. -/
def packetFiltersFrom (order : List String) (filters : FinMap String (Slice FilterRule))
    (namedFilters : FinMap String (List FilterRule)) : FinMap String (List FilterRule) × Bool :=
  order.foldl (updateFilter filters) (startingFilters filters namedFilters)

/-- `reducePacketFilters`, when the chunks are visited in the given order. -/
def reducePacketFiltersFrom (order : List String) (response : MapResponse) (r : Reduction) :
    Reduction :=
  match response.packetFilters with
  | none => r
  | some filters =>
    let (namedFilters, filtersChanged) := packetFiltersFrom order filters r.client.namedFilters
    let r := { r with client := { r.client with namedFilters } }
    if filtersChanged then r.emit [.acl] else r

/-- `reduceMap`, when the chunks are visited in the given order. -/
def reduceMapFrom (order : List String) (c : Client) (response : MapResponse) (now : Time) :
    Reduction :=
  reduceAfterChunks response now c.selfExpired
    (reducePacketFiltersFrom order response (reduceBeforeChunks response now c))

/-- What a response makes of one chunk. -/
def chunkAfter (filters : FinMap String (Slice FilterRule)) (name : String)
    (old : Option (List FilterRule)) : Option (List FilterRule) :=
  match filters.get name with
  | none => old
  | some value => if name = "*" then old else value.map cloneFilters

/-- A round sets its own chunk, and the flag if that changes the chunk. -/
theorem updateFilter_spec (filters : FinMap String (Slice FilterRule))
    (acc : FinMap String (List FilterRule) × Bool) (name : String) :
    (∀ k, (updateFilter filters acc name).1.get k =
      if k = name then chunkAfter filters name (acc.1.get name) else acc.1.get k) ∧
      (updateFilter filters acc name).2 =
        (acc.2 || decide (chunkAfter filters name (acc.1.get name) ≠ acc.1.get name)) := by
  have hsame (hchunk : chunkAfter filters name (acc.1.get name) = acc.1.get name) :
      (∀ k, acc.1.get k = if k = name then chunkAfter filters name (acc.1.get name)
        else acc.1.get k) ∧
      acc.2 = (acc.2 || decide (chunkAfter filters name (acc.1.get name) ≠ acc.1.get name)) := by
    refine ⟨fun k => ?_, by simp [hchunk]⟩
    split
    · next hk => rw [hk, hchunk]
    · rfl
  unfold updateFilter
  split
  · next hget => exact hsame (by simp [chunkAfter, hget])
  next value hget =>
  split
  · next hstar => exact hsame (by simp only [chunkAfter, hget, if_pos hstar])
  next hstar =>
  cases value with
  | none =>
    have hchunk : chunkAfter filters name (acc.1.get name) = none := by
      simp [chunkAfter, hget, hstar]
    dsimp only
    split
    · next hmem =>
      obtain ⟨rules, hrules⟩ := mem_iff.mp hmem
      refine ⟨fun k => ?_, ?_⟩
      · rw [get_erase, hchunk]
      · rw [hchunk, hrules]
        exact (Bool.or_true _).symm
    · next hmem => exact hsame (hchunk.trans (not_mem_iff.mp hmem).symm)
  | some rules =>
    have hchunk : chunkAfter filters name (acc.1.get name) = some (cloneFilters rules) := by
      simp [chunkAfter, hget, hstar]
    dsimp only
    split
    · next hold => exact hsame (hchunk.trans hold.symm)
    · next hnew =>
      refine ⟨fun k => ?_, by simp [hchunk, Ne.symm hnew]⟩
      rw [get_insert, hchunk]

/-- The loop over different names sets their chunks, and the flag if one of them changes. -/
theorem foldl_updateFilter_spec (filters : FinMap String (Slice FilterRule)) {order : List String}
    (hnodup : order.Nodup) (acc : FinMap String (List FilterRule) × Bool) :
    (∀ k, (order.foldl (updateFilter filters) acc).1.get k =
      if k ∈ order then chunkAfter filters k (acc.1.get k) else acc.1.get k) ∧
      ((order.foldl (updateFilter filters) acc).2 = true ↔
        acc.2 = true ∨ ∃ k ∈ order, chunkAfter filters k (acc.1.get k) ≠ acc.1.get k) := by
  induction order generalizing acc with
  | nil => simp
  | cons name order ih =>
    obtain ⟨hname, hrest⟩ := List.nodup_cons.mp hnodup
    obtain ⟨hchunk, hflag⟩ := updateFilter_spec filters acc name
    obtain ⟨ihchunk, ihflag⟩ := ih hrest (updateFilter filters acc name)
    have hother {k : String} (hk : k ∈ order) : (updateFilter filters acc name).1.get k =
        acc.1.get k := by
      rw [hchunk k, if_neg fun heq : k = name => hname (heq ▸ hk)]
    rw [List.foldl_cons]
    refine ⟨fun k => ?_, ?_⟩
    · rw [ihchunk k]
      by_cases hk : k ∈ order
      · rw [if_pos hk, hother hk, if_pos (List.mem_cons_of_mem _ hk)]
      · rw [if_neg hk, hchunk k]
        by_cases heq : k = name
        · rw [if_pos heq, heq, if_pos List.mem_cons_self]
        · rw [if_neg heq, if_neg fun hmem => hk (List.mem_of_ne_of_mem heq hmem)]
    · rw [ihflag, hflag, Bool.or_eq_true, decide_eq_true_eq, or_assoc]
      refine or_congr Iff.rfl ?_
      rw [List.exists_mem_cons_iff]
      refine or_congr Iff.rfl (exists_congr fun k => and_congr_right fun hk => ?_)
      rw [hother hk]

/-- The order in which the chunks of a response are visited does not matter. -/
theorem packetFiltersFrom_perm (filters : FinMap String (Slice FilterRule))
    (namedFilters : FinMap String (List FilterRule)) {order order' : List String}
    (h : filters.Listing order) (h' : filters.Listing order') :
    packetFiltersFrom order filters namedFilters = packetFiltersFrom order' filters namedFilters := by
  have hmem (k : String) : k ∈ order ↔ k ∈ order' := h.mem_iff.trans h'.mem_iff.symm
  have hspec := foldl_updateFilter_spec filters h.nodup (startingFilters filters namedFilters)
  have hspec' := foldl_updateFilter_spec filters h'.nodup (startingFilters filters namedFilters)
  obtain ⟨hchunk, hflag⟩ := hspec
  obtain ⟨hchunk', hflag'⟩ := hspec'
  unfold packetFiltersFrom
  refine Prod.ext (ext_get fun k => ?_) (Bool.eq_iff_iff.mpr ?_)
  · rw [hchunk k, hchunk' k]
    simp only [hmem k]
  · rw [hflag, hflag']
    simp only [hmem]

theorem reduceMapFrom_eq {order : List String} (c : Client) {response : MapResponse} (now : Time)
    (h : ∀ filters, response.packetFilters = some filters → filters.Listing order) :
    reduceMapFrom order c response now = reduceMap c response now := by
  show _ = reduceAfterChunks response now c.selfExpired
    (reducePacketFilters response (reduceBeforeChunks response now c))
  rw [reduceMapFrom]
  congr 1
  generalize reduceBeforeChunks response now c = r
  cases hfilters : response.packetFilters with
  | none => simp only [reducePacketFiltersFrom, reducePacketFilters, hfilters]
  | some filters =>
    have hsorted := filters.listing_sortedKeys (compare : String → String → Ordering)
    have hperm := packetFiltersFrom_perm filters r.client.namedFilters (h filters hfilters) hsorted
    simp only [reducePacketFiltersFrom, reducePacketFilters, hfilters, hperm]
    rfl

/-- `ACLView.Rules` as the named chunks, in ascending order of their names. -/
def ACLView.concatenation (view : ACLView) : List ACLRule :=
  (view.namedRules.sortedKeys (compare : String → String → Ordering)).flatMap fun name =>
    (view.namedRules.get name).getD []

theorem Client.Flat.rules {c : Client} (h : c.Flat) : c.aclView.rules = c.aclView.concatenation := by
  have hkeys : c.aclView.namedRules.sortedKeys (compare : String → String → Ordering) =
      c.namedFilters.sortedKeys (compare : String → String → Ordering) := by
    simp only [FinMap.sortedKeys, Client.aclView, keys_mapVals]
  rw [ACLView.concatenation, hkeys]
  show c.filters.map aclRuleView = _
  rw [h, flattenFilters, List.map_flatMap]
  refine List.flatMap_congr fun name _ => ?_
  simp only [Client.aclView, get_mapVals]
  cases c.namedFilters.get name with
  | none => rfl
  | some rules =>
    simp only [Option.getD_some, Option.map_some, cloneFilters, List.map_map]
    rfl

/-! ## Sections -/

/-- The content of a view changed, and with it its revision, and an event says so. -/
def Announced (kind : EventKind) (before after : Nat) (events : List Event) : Prop :=
  before < after ∧ ∃ e ∈ events, e.kind = kind

/-- What holds of the views between sections. -/
structure ViewsOK (c : Client) : Prop where
  dnsRevision : c.dnsRevision ≤ c.revision
  aclRevision : c.aclRevision ≤ c.revision
  derpRevision : c.derpRevision ≤ c.revision
  flat : c.Flat

section
variable {c : Client} (hc : ViewsOK c) (response : MapResponse) (now : Time)
include hc

/-- What `applyMapResponse` does to the views. -/
structure MapViews (response : MapResponse) (c : Client) (r : Reduction) (d : Done) : Prop where
  ok : ViewsOK d.client
  dns : SameDNS c d.client ∨ Announced .dns c.dnsRevision d.client.dnsRevision d.events
  acl : SameFilters c d.client ∨ Announced .acl c.aclRevision d.client.aclRevision d.events
  derp : ¬ c.NewDERPMap response ∧ SameRelays c d.client ∧
      d.client.derpRevision = c.derpRevision ∨
    c.NewDERPMap response ∧ Announced .derp c.derpRevision d.client.derpRevision d.events
  self : d.client.self = r.client.self

theorem mapViews_applyMapResponse : MapViews response.effective c
    (reduceMap c response.effective now) (c.applyMapResponse response now) := by
  have hred := reflects_reduceMap response.effective now c
  unfold Client.applyMapResponse
  dsimp only
  generalize reduceMap c response.effective now = r at hred ⊢
  have hrevisions := hred.revisions
  simp only [Client.revisions, Prod.mk.injEq] at hrevisions
  obtain ⟨hrevision, hdns, hacl, hderp⟩ := hrevisions
  split
  · next hkinds =>
    have hnone (kind : EventKind) : kind ∉ r.kinds := by simp [hkinds]
    refine ⟨⟨?_, ?_, ?_, hred.flat hc.flat⟩, .inl (hred.dns.resolve_left (hnone _)),
      .inl (hred.acl.resolve_left (hnone _)), .inl ⟨?_, ?_, hderp⟩, rfl⟩
    · rw [hdns, hrevision]
      exact hc.dnsRevision
    · rw [hacl, hrevision]
      exact hc.aclRevision
    · rw [hderp, hrevision]
      exact hc.derpRevision
    · exact (hred.derp.resolve_left fun h => hnone _ h.2.2).1
    · exact (hred.derp.resolve_left fun h => hnone _ h.2.2).2.2
  · have hevent {kind : EventKind} (hkind : kind ∈ r.kinds) :
        ∃ e ∈ (uniqueEventKinds r.kinds).map fun kind => (r.stamp now).event kind, e.kind = kind :=
      ⟨_, List.mem_map_of_mem (mem_uniqueEventKinds.mpr hkind), rfl⟩
    -- a stamped revision is the new one, any other the old one
    have hstamp {p : Prop} [Decidable p] {old : Nat} (hold : old ≤ c.revision) :
        (if p then r.client.revision + 1 else old) ≤ r.client.revision + 1 := by
      split <;> omega
    have hnew {p : Prop} [Decidable p] {old rev : Nat} (hold : old ≤ c.revision) (hp : p) :
        old < if p then r.client.revision + 1 else rev := by
      rw [if_pos hp]
      omega
    refine ⟨⟨?_, ?_, ?_, hred.flat hc.flat⟩, ?_, ?_, ?_, rfl⟩
    · exact hstamp (hdns ▸ hc.dnsRevision)
    · exact hstamp (hacl ▸ hc.aclRevision)
    · exact hstamp (hderp ▸ hc.derpRevision)
    · rcases hred.dns with hkind | hsame
      · exact .inr ⟨hnew hc.dnsRevision hkind, hevent hkind⟩
      · exact .inl ⟨hsame.dns, hsame.self, hsame.peers⟩
    · rcases hred.acl with hkind | hsame
      · exact .inr ⟨hnew hc.aclRevision hkind, hevent hkind⟩
      · exact .inl hsame
    · rcases hred.derp with ⟨hmap, hflag, hkind⟩ | ⟨hmap, hflag, hsame⟩
      · exact .inr ⟨hmap, hnew hc.derpRevision hflag, hevent hkind⟩
      · refine .inl ⟨hmap, hsame, ?_⟩
        show (if r.derpChanged = true then _ else r.client.derpRevision) = _
        rw [hflag, if_neg Bool.false_ne_true, hderp]

omit hc in
theorem recordLatency_eq_or_flag (derpMap : Option DERPMap)
    (acc : FinMap Int DERPRegionLatency × Bool) (metric : DERPRegionLatency) :
    Client.recordLatency derpMap acc metric = acc ∨
      (Client.recordLatency derpMap acc metric).2 = true := by
  unfold Client.recordLatency
  split
  · exact .inl rfl
  split
  · exact .inl rfl
  · exact .inr rfl

/-- What `onDERPLatency` does to the views. -/
theorem views_onDERPLatency (report : DERPLatencyReport) :
    ViewsOK (c.onDERPLatency report now).client ∧
      (c.onDERPLatency report now).client.self = c.self ∧
      (SameRelays c (c.onDERPLatency report now).client ∨
        Announced .derp c.derpRevision (c.onDERPLatency report now).client.derpRevision
          (c.onDERPLatency report now).events) := by
  unfold Client.onDERPLatency
  split
  · exact ⟨hc, rfl, .inl ⟨rfl, rfl, rfl⟩⟩
  dsimp only
  generalize hstart : (if report.full = true ∧ c.derpLatency.keys ≠ ∅ then (∅, true)
    else (c.derpLatency, false) : FinMap Int DERPRegionLatency × Bool) = start
  have hloop := foldl_eq_or_flag (recordLatency_eq_or_flag c.derpMap) report.regions start
  generalize report.regions.foldl _ start = measured at hloop ⊢
  generalize (if c.opts.disableDERP = true then (0 : Int) else _) = preferred
  obtain ⟨hdns, hacl, hderp, hflat⟩ := hc
  by_cases hchanged : measured.2 = true ∨ preferred ≠ c.preferredDERP
  · rw [if_neg (not_not.mpr hchanged)]
    split
    all_goals
      exact ⟨⟨hdns.trans (Nat.le_succ _), hacl.trans (Nat.le_succ _), le_rfl, hflat⟩, rfl,
        .inr ⟨Nat.lt_succ_of_le hderp, _, List.mem_cons_self, rfl⟩⟩
  · rw [if_pos hchanged]
    obtain ⟨hflag, hpreferred⟩ := not_or.mp hchanged
    rw [not_not] at hpreferred
    obtain rfl := hloop.resolve_right hflag
    have hsame : measured = (c.derpLatency, false) := by
      split at hstart
      · exact absurd (hstart ▸ rfl) hflag
      · exact hstart.symm
    subst hsame hpreferred
    rw [if_neg (not_not.mpr rfl)]
    exact ⟨⟨hdns, hacl, hderp, hflat⟩, rfl, .inl ⟨rfl, rfl, rfl⟩⟩

/-- Every section keeps the views in order. -/
theorem viewsOK_run (x : Section) : ViewsOK (x.run c now).client := by
  rcases frame_run c now x with ⟨response, rfl⟩ | hframe
  · exact (mapViews_applyMapResponse hc response now).ok
  by_cases hlatency : ∃ report, x = .onDERPLatency report
  · obtain ⟨report, rfl⟩ := hlatency
    exact (views_onDERPLatency hc now report).1
  have hdata := (hframe.views (not_exists.mp hlatency)).1
  have hrevision := (sectionStep_run c now x).revision
  simp only [Client.viewData, Prod.mk.injEq] at hdata
  obtain ⟨-, -, -, hnamed, hfilters, -, -, -, hdns, hacl, hderp⟩ := hdata
  refine ⟨hdns ▸ hc.dnsRevision.trans hrevision, hacl ▸ hc.aclRevision.trans hrevision,
    hderp ▸ hc.derpRevision.trans hrevision, ?_⟩
  rw [Client.Flat, hnamed, hfilters]
  exact hc.flat

end

/-- The invariant of the views. -/
theorem keeps_viewsOK : program.Keeps .any fun s _ => ViewsOK s.client :=
  keeps_client (I := ViewsOK) (fun _ now x hc => viewsOK_run hc now x) .any

theorem viewsOK_initial (opts : Options) (privateKey : Option PrivateKey) :
    ViewsOK (initial opts privateKey).shared.client :=
  ⟨le_rfl, le_rfl, le_rfl, rfl⟩

/-! ## DNS and packet filters -/

/-- A response that changes what the DNS or the ACL view of a client says announces it; the ACL view
lists its chunks in the order of their names, and the chunks do not depend on the order in which a
response is read. -/
structure MapResponsesAnnounced (c : Client) : Prop where
  rules : c.aclView.rules = c.aclView.concatenation
  dns : ∀ response now order order', c.peers.Listing order →
    (c.applyMapResponse response now).client.peers.Listing order' →
    ((c.applyMapResponse response now).client.dnsView order').content ≠ (c.dnsView order).content →
    Announced .dns (c.dnsView order).revision
      ((c.applyMapResponse response now).client.dnsView order').revision
      (c.applyMapResponse response now).events
  acl : ∀ response now,
    (c.applyMapResponse response now).client.aclView.content ≠ c.aclView.content →
    Announced .acl c.aclView.revision (c.applyMapResponse response now).client.aclView.revision
      (c.applyMapResponse response now).events
  chunks : ∀ response now order,
    (∀ filters, response.effective.packetFilters = some filters → filters.Listing order) →
    (reduceMapFrom order c response.effective now).client.namedFilters =
      (c.applyMapResponse response now).client.namedFilters

theorem revision_dnsView (c : Client) (order : List Int) :
    (c.dnsView order).revision = c.dnsRevision := by
  unfold Client.dnsView
  cases c.dns <;> rfl

theorem ViewsOK.announced {c : Client} (hc : ViewsOK c) : MapResponsesAnnounced c := by
  refine ⟨hc.flat.rules, fun response now order order' horder horder' hdiff => ?_,
    fun response now hdiff => ?_, fun response now order horder => ?_⟩
  · rw [revision_dnsView, revision_dnsView]
    rw [Client.content_dnsView _ horder, Client.content_dnsView _ horder'] at hdiff
    exact (mapViews_applyMapResponse hc response now).dns.resolve_left fun h => hdiff h.content
  · refine (mapViews_applyMapResponse hc response now).acl.resolve_left fun h => hdiff ?_
    simp only [ACLView.content, Client.aclView, h.1, h.2]
  · rw [reduceMapFrom_eq c now horder]
    exact (applyMapResponse_view Client.namedFilters (fun _ _ => rfl) c response now).symm

/-- In every state of every run of the program. -/
theorem dns_acl_views_announced (opts : Options) (privateKey : Option PrivateKey)
    (acts : List (Act Frame Choice EnvAct)) :
    program.system.Visits (fun cfg => MapResponsesAnnounced cfg.shared.client)
      (initial opts privateKey) acts :=
  keeps_viewsOK.visits (fun _ hcfg => hcfg.announced) (viewsOK_initial opts privateKey) acts

/-! ## Relays -/

/-- A section that changes what the DERP view says announces it. -/
def DERPAnnounced (c : Client) (d : Done) : Prop :=
  ∀ order order', c.RegionOrder order → d.client.RegionOrder order' →
    (d.client.derpView order').content ≠ (c.derpView order).content →
    Announced .derp (c.derpView order).revision (d.client.derpView order').revision d.events

/-- A response moves the self node's home region while no region is preferred, and does not change
the DERP map. -/
def Client.HomeMoves (c : Client) (response : MapResponse) : Prop :=
  c.preferredDERP = 0 ∧ homeDERP (c.selfAfter response) ≠ homeDERP c.self ∧
    ¬ c.NewDERPMap response.effective

theorem exists_regionOrder (c : Client) : ∃ order, c.RegionOrder order := by
  unfold Client.RegionOrder
  cases c.derpMap.bind DERPMap.regions with
  | none => exact ⟨[], rfl⟩
  | some regions =>
    obtain ⟨order, horder⟩ := regions.exists_listing
    exact ⟨order, decide_eq_true horder⟩

theorem SameRelays.content {c c' : Client} (h : SameRelays c c') (hhome : c'.selfDERP = c.selfDERP) :
    c'.derpContent = c.derpContent := by
  obtain ⟨hmap, hlatency, -⟩ := h
  simp only [Client.derpContent, Client.derpView, DERPView.content, hmap, hlatency, hhome]

/-- The home region that a response leaves the self node with. -/
theorem homeDERP_reduceMap (c : Client) (response : MapResponse) (now : Time) :
    homeDERP (reduceMap c response.effective now).client.self = homeDERP (c.selfAfter response) := by
  obtain ⟨_, _, _, _, hexpiry⟩ :=
    client_reduceExpiry now (reduceFacts c response.effective now) c.selfExpired
  refine (congrArg (fun c : Client => homeDERP c.self) hexpiry).trans ?_
  rw [← (reduceFacts_spec c response now).2.1]
  generalize (reduceFacts c response.effective now).client.self = self
  cases self with
  | none => rfl
  | some node => exact homeDERP_markNodeExpired node _

/-- Which of the sections that touch the relays announce a change of the DERP view. -/
structure RelaysAnnounced (c : Client) : Prop where
  latency : ∀ report now, DERPAnnounced c (c.onDERPLatency report now)
  response : ∀ response now,
    DERPAnnounced c (c.applyMapResponse response now) ↔ ¬ c.HomeMoves response

theorem ViewsOK.relaysAnnounced {c : Client} (hc : ViewsOK c) : RelaysAnnounced c := by
  refine ⟨fun report now order order' horder horder' hdiff => ?_, fun response now => ?_⟩
  · rw [Client.content_derpView _ horder, Client.content_derpView _ horder'] at hdiff
    obtain ⟨-, hself, hstep⟩ := views_onDERPLatency hc now report
    refine hstep.resolve_left fun hsame => hdiff (hsame.content ?_)
    simp only [Client.selfDERP, hsame.2.2, hself]
  have hviews := mapViews_applyMapResponse hc response now
  have hhome : homeDERP (c.applyMapResponse response now).client.self =
      homeDERP (c.selfAfter response) := by
    rw [hviews.self, homeDERP_reduceMap]
  constructor
  · rintro hannounced ⟨hpreferred, hmoves, hmap⟩
    obtain ⟨-, hsame, hrevision⟩ := hviews.derp.resolve_right fun h => hmap h.1
    obtain ⟨order, horder⟩ := exists_regionOrder c
    obtain ⟨order', horder'⟩ := exists_regionOrder (c.applyMapResponse response now).client
    have hdiff : (c.applyMapResponse response now).client.selfDERP ≠ c.selfDERP := by
      rw [Client.selfDERP, Client.selfDERP, hsame.2.2, if_pos hpreferred, if_pos hpreferred, hhome]
      exact hmoves
    have hlt := (hannounced order order' horder horder' fun h => hdiff (congrArg Prod.fst h)).1
    have hrevision' : ((c.applyMapResponse response now).client.derpView order').revision =
        (c.derpView order).revision := hrevision
    omega
  · intro hmoves order order' horder horder' hdiff
    rw [Client.content_derpView _ horder, Client.content_derpView _ horder'] at hdiff
    refine (hviews.derp.resolve_left ?_).2
    rintro ⟨hmap, hsame, -⟩
    refine hdiff (hsame.content ?_)
    rw [Client.selfDERP, Client.selfDERP, hsame.2.2, hhome]
    by_cases hpreferred : c.preferredDERP = 0
    · rw [if_pos hpreferred, if_pos hpreferred]
      exact not_ne_iff.mp fun hne => hmoves ⟨hpreferred, hne, hmap⟩
    · rw [if_neg hpreferred, if_neg hpreferred]

/-- In every state of every run, a measurement that changes the DERP view announces it, and a
response does exactly if it does not only move the self node's home region. -/
theorem derp_view_announced_iff (opts : Options) (privateKey : Option PrivateKey)
    (acts : List (Act Frame Choice EnvAct)) :
    program.system.Visits (fun cfg => RelaysAnnounced cfg.shared.client)
      (initial opts privateKey) acts :=
  keeps_viewsOK.visits (fun _ hcfg => hcfg.relaysAnnounced) (viewsOK_initial opts privateKey) acts

/-- A response that only brings the self node, with a home region. -/
def selfResponse (home : Int) : MapResponse :=
  { node := some { id := 1, key := ⟨7⟩, homeDERP := home } }

/-- The client has applied its first response and waits for the next one. -/
def receiveSelf : Schedule :=
  receiveFirst (selfResponse 1) ++ steps 1 9

/-- The home region and the revision of the DERP view, before and after a second response. -/
def homeAndRevision (cfg : Config Sys Frame) : (Int × Nat) × (Int × Nat) × Bool :=
  let c := cfg.shared.client
  let c' := (c.applyMapResponse (selfResponse 2) 0).client
  ((c.selfDERP, c.derpRevision), (c'.selfDERP, c'.derpRevision),
    c.derpMap.isNone && c'.derpMap.isNone)

/-- The self node moves from home region 1 to 2; the DERP view says so, under its old revision. -/
theorem home_moves_unannounced :
    ∃ cfg, program.Reaches .any sampleClient cfg ∧
      ¬ DERPAnnounced cfg.shared.client
        (cfg.shared.client.applyMapResponse (selfResponse 2) 0) := by
  have hrun : (program.system.runIf (Machine.Policy.any).Admits sampleClient receiveSelf).map
      homeAndRevision = some ((1, 0), (2, 0), true) := by decide +kernel
  obtain ⟨cfg, hreach, hview⟩ := System.exists_reach_of_runIf hrun
  refine ⟨cfg, hreach, ?_⟩
  unfold homeAndRevision at hview
  dsimp only at hview
  generalize cfg.shared.client = c at hview ⊢
  generalize c.applyMapResponse (selfResponse 2) 0 = d at hview ⊢
  simp only [Prod.mk.injEq, Bool.and_eq_true, Option.isNone_iff_eq_none] at hview
  obtain ⟨⟨hhome, hrevision⟩, ⟨hhome', hrevision'⟩, hmap, hmap'⟩ := hview
  intro hannounced
  have horder : c.RegionOrder [] := by simp [Client.RegionOrder, hmap]
  have horder' : d.client.RegionOrder [] := by simp [Client.RegionOrder, hmap']
  have hdiff : d.client.selfDERP ≠ c.selfDERP := by
    rw [hhome, hhome']
    decide
  have hlt : c.derpRevision < d.client.derpRevision :=
    (hannounced [] [] horder horder' fun h => hdiff (congrArg Prod.fst h)).1
  omega

end WgoTailscale
