import Mathlib.Data.Prod.Lex
import WgoTailscale.DerpChoice
import WgoTailscale.Netcheck

/-!
# Which regions a netcheck round measures

`selectDERPProbeTargets` collects the regions that can be a home, orders them and, for an
incremental round, keeps three; `limitDERPProbeTargets` cuts a selection down to a limit. Both keep
the home region if they cut (`Shortlist`). The order is a linear order of keys (`probeRank`), so the
selection does not depend on the order in which the map is visited. `probe_target_selection` is the
result.
-/

namespace WgoTailscale

open List

/-! ## The regions that can be measured -/

/-- One node of the loop that makes a target of a region. -/
def addProbeNode (regionID : Int) (target : DerpProbeTarget) (node : Option DERPNode) :
    DerpProbeTarget :=
  match node with
  | none => target
  | some node =>
    let node := if node.regionID = 0 then { node with regionID } else node
    { target with
      stun := if target.stun.isNone ∧ 0 ≤ node.stunPort then some node else target.stun
      https := if target.https.isNone ∧ ¬ node.stunOnly then some node else target.https }

section
variable {derpMap : Option DERPMap} {latest : FinMap Int DERPRegionLatency}
  {id mapID regionID : Int} {region : DERPRegion} {target : DerpProbeTarget} {order : List Int}

theorem probeTarget_eq (mapID : Int) (region : DERPRegion) : probeTarget mapID region =
    let regionID := if mapID = 0 then region.regionID else mapID
    (Slice.list region.nodes).foldl (addProbeNode regionID) { regionID } := rfl

/-- A node that relays makes the target one that can be measured. -/
theorem https_addProbeNode (target : DerpProbeTarget) (node : DERPNode) :
    (addProbeNode regionID target (some node)).https.isSome = true ↔
      target.https.isSome = true ∨ (!node.stunOnly) = true := by
  have hkept : (if node.regionID = 0 then { node with regionID } else node).stunOnly =
      node.stunOnly := by
    split <;> rfl
  unfold addProbeNode
  dsimp only
  rw [hkept]
  cases htarget : target.https with
  | some _ => simp
  | none => cases node.stunOnly <;> simp

theorem foldl_addProbeNode (regionID : Int) (nodes : List (Option DERPNode))
    (target : DerpProbeTarget) :
    (nodes.foldl (addProbeNode regionID) target).regionID = target.regionID ∧
      ((nodes.foldl (addProbeNode regionID) target).https.isSome = true ↔
        target.https.isSome = true ∨
          (nodes.any fun node => node.any fun node => !node.stunOnly) = true) := by
  induction nodes generalizing target with
  | nil => simp
  | cons node nodes ih =>
    obtain ⟨hid, hhttps⟩ := ih (addProbeNode regionID target node)
    rw [foldl_cons, hid, hhttps, any_cons, Bool.or_eq_true]
    cases node with
    | none => exact ⟨rfl, by simp [addProbeNode]⟩
    | some node =>
      rw [https_addProbeNode, or_assoc]
      exact ⟨rfl, Iff.rfl⟩

/-- A region keyed by its id is measured under that id. -/
theorem regionID_probeTarget (h : mapID ≠ 0) : (probeTarget mapID region).regionID = mapID := by
  rw [probeTarget_eq, if_neg h]
  exact (foldl_addProbeNode _ _ _).1

/-- The regions that can be measured are those that can be a home. -/
theorem https_probeTarget (mapID : Int) (region : DERPRegion) :
    (region.noMeasureNoHome = true ∨ (probeTarget mapID region).https.isNone = true) ↔
      usableDERPRegion (some region) = false := by
  have hhttps := (foldl_addProbeNode (if mapID = 0 then region.regionID else mapID)
    (Slice.list region.nodes) { regionID := if mapID = 0 then region.regionID else mapID }).2
  rw [← probeTarget_eq] at hhttps
  unfold usableDERPRegion
  rw [Bool.and_eq_false_iff, Bool.not_eq_false', ← Bool.not_eq_true (List.any _ _),
    ← Option.not_isSome, Bool.not_eq_true', ← Bool.not_eq_true, hhttps]
  simp

theorem probeTargetsFrom_eq (order : List Int) (derpMap : Option DERPMap) :
    probeTargetsFrom order derpMap = order.filterMap fun id =>
      (regionOf derpMap id).bind fun region =>
        if usableDERPRegion (some region) = true then some (probeTarget id region) else none := by
  refine filterMap_congr fun id _ => congrArg _ (funext fun region => ?_)
  simp only [https_probeTarget]
  cases usableDERPRegion (some region) <;> rfl

/-- The targets, before they are ordered. -/
theorem mem_probeTargetsFrom : target ∈ probeTargetsFrom order derpMap ↔ ∃ id ∈ order,
    ∃ region, regionOf derpMap id = some region ∧ Usable derpMap id ∧
      target = probeTarget id region := by
  rw [probeTargetsFrom_eq, mem_filterMap]
  refine exists_congr fun id => and_congr_right fun _ => ?_
  rw [Option.bind_eq_some_iff]
  refine exists_congr fun region => and_congr_right fun hregion => ?_
  rw [Usable, hregion]
  split
  · next husable => simp [husable, eq_comm]
  · next hnot => simp [hnot]

/-- Their ids, if no region is keyed 0. -/
theorem map_regionID_probeTargetsFrom (hzero : regionOf derpMap 0 = none) (order : List Int) :
    (probeTargetsFrom order derpMap).map (·.regionID) =
      order.filter fun id => usableDERPRegion (regionOf derpMap id) := by
  rw [probeTargetsFrom_eq, map_filterMap, ← filterMap_eq_filter]
  refine filterMap_congr fun id _ => ?_
  show _ = if usableDERPRegion (regionOf derpMap id) = true then some id else none
  cases hregion : regionOf derpMap id with
  | none => rfl
  | some region =>
    have hne : id ≠ 0 := by
      rintro rfl
      rw [hzero] at hregion
      cases hregion
    rw [Option.bind_some, apply_ite (Option.map _), Option.map_some, regionID_probeTarget hne]
    rfl

/-! ## The order -/

/-- The place of a region in the order: measured regions first, by latency, then by id. -/
def probeRank (latest : FinMap Int DERPRegionLatency) (id : Int) : Bool ×ₗ Duration ×ₗ Int :=
  toLex ((latest.get id).isNone, toLex (((latest.get id).map (·.latency)).getD 0, id))

theorem probeRank_injective (latest : FinMap Int DERPRegionLatency) :
    Function.Injective (probeRank latest) :=
  fun _ _ h => congrArg (fun p => (ofLex (ofLex p).2).2) h

theorem compareTargets_eq (latest : FinMap Int DERPRegionLatency) (a c : DerpProbeTarget) :
    compareTargets latest a c =
      compare (probeRank latest a.regionID) (probeRank latest c.regionID) := by
  have hlex : compare (probeRank latest a.regionID) (probeRank latest c.regionID) =
      (compare (latest.get a.regionID).isNone (latest.get c.regionID).isNone).then
        ((compare (((latest.get a.regionID).map (·.latency)).getD 0)
          (((latest.get c.regionID).map (·.latency)).getD 0)).then
            (compare a.regionID c.regionID)) := rfl
  rw [hlex]
  unfold compareTargets
  cases latest.get a.regionID <;> cases latest.get c.regionID <;> rfl

/-- The targets in order. -/
def orderedTargets (order : List Int) (derpMap : Option DERPMap)
    (latest : FinMap Int DERPRegionLatency) : List DerpProbeTarget :=
  sortBy (compareTargets latest) (probeTargetsFrom order derpMap)

/-- `order` is one in which a loop over the regions may visit them. -/
def VisitsRegions (derpMap : Option DERPMap) (order : List Int) : Prop :=
  ∀ m, derpMap = some m → (m.regions.getD ∅).Listing order

theorem VisitsRegions.nodup_probeTargetsFrom (h : VisitsRegions derpMap order)
    (hzero : regionOf derpMap 0 = none) :
    ((probeTargetsFrom order derpMap).map (·.regionID)).Nodup := by
  rw [map_regionID_probeTargetsFrom hzero]
  cases derpMap with
  | none =>
    have hnil : order.filter (fun id => usableDERPRegion (regionOf none id)) = [] := by
      rw [filter_eq_nil_iff]
      exact fun _ _ => nofun
    rw [hnil]
    exact nodup_nil
  | some m => exact (h m rfl).nodup.filter _

/-- The order is strict. -/
theorem pairwise_orderedTargets (h : VisitsRegions derpMap order)
    (hzero : regionOf derpMap 0 = none) : (orderedTargets order derpMap latest).Pairwise
      fun a c => probeRank latest a.regionID < probeRank latest c.regionID := by
  have hcompare : compareTargets latest = fun a c =>
      compare (probeRank latest a.regionID) (probeRank latest c.regionID) :=
    funext₂ (compareTargets_eq latest)
  unfold orderedTargets
  rw [hcompare]
  refine pairwise_lt_sortBy (fun target : DerpProbeTarget => probeRank latest target.regionID) ?_
  have hnodup := (h.nodup_probeTargetsFrom hzero).map (probeRank_injective latest)
  rwa [map_map] at hnodup

/-- The order in which the map is visited does not matter. -/
theorem orderedTargets_eq (latest : FinMap Int DERPRegionLatency) {order' : List Int}
    (h : VisitsRegions derpMap order) (h' : VisitsRegions derpMap order')
    (hzero : regionOf derpMap 0 = none) :
    orderedTargets order derpMap latest = orderedTargets order' derpMap latest := by
  have hperm : (probeTargetsFrom order derpMap).Perm (probeTargetsFrom order' derpMap) := by
    cases derpMap with
    | none => simp [probeTargetsFrom_eq, regionOf]
    | some m => exact ((h m rfl).perm (h' m rfl)).filterMap _
  refine List.Perm.eq_of_pairwise (fun a b _ _ hab hba => absurd hab (lt_asymm hba))
    (pairwise_orderedTargets h hzero) (pairwise_orderedTargets h' hzero) ?_
  exact (perm_sortBy _ _).trans (hperm.trans (perm_sortBy _ _).symm)

/-- What a full selection is. -/
structure FullSelection (derpMap : Option DERPMap) (latest : FinMap Int DERPRegionLatency)
    (targets : List DerpProbeTarget) : Prop where
  mem : ∀ target, target ∈ targets ↔ ∃ id region, regionOf derpMap id = some region ∧
    Usable derpMap id ∧ target = probeTarget id region
  ids : ∀ id, id ∈ targets.map (·.regionID) ↔ Usable derpMap id
  ordered : targets.Pairwise fun a c => probeRank latest a.regionID < probeRank latest c.regionID

theorem fullSelection (latest : FinMap Int DERPRegionLatency) (h : VisitsRegions derpMap order)
    (hzero : regionOf derpMap 0 = none) :
    FullSelection derpMap latest (orderedTargets order derpMap latest) := by
  have hvisited (id : Int) (husable : Usable derpMap id) : id ∈ order := by
    cases derpMap with
    | none => cases husable
    | some m => exact (h m rfl).mem_iff.mpr husable.mem
  refine ⟨fun target => ?_, fun id => ?_, pairwise_orderedTargets h hzero⟩
  · rw [orderedTargets, mem_sortBy, mem_probeTargetsFrom]
    constructor
    · rintro ⟨id, -, region, hregion⟩
      exact ⟨id, region, hregion⟩
    · rintro ⟨id, region, hregion, husable, htarget⟩
      exact ⟨id, hvisited id husable, region, hregion, husable, htarget⟩
  · have hids := ((perm_sortBy (compareTargets latest) (probeTargetsFrom order derpMap)).map
      (·.regionID)).mem_iff (a := id)
    rw [map_regionID_probeTargetsFrom hzero, mem_filter] at hids
    exact hids.trans ⟨And.right, fun husable => ⟨hvisited id husable, husable⟩⟩

end

/-! ## Cutting a selection -/

/-- `selected` keeps at most `limit` of the targets: the home region, and of the others the first
ones. -/
structure Shortlist (home : Int) (limit : Nat) (targets selected : List DerpProbeTarget) :
    Prop where
  length : selected.length = min limit targets.length
  nodup : (selected.map (·.regionID)).Nodup
  subset : selected ⊆ targets
  keeps : home ∈ targets.map (·.regionID) → home ∈ selected.map (·.regionID)
  others : selected.filter (·.regionID ≠ home) <+: targets.filter (·.regionID ≠ home)

section
variable {home : Int} {limit : Nat} {targets : List DerpProbeTarget} {target : DerpProbeTarget}

theorem any_regionID : (targets.any (·.regionID = home)) = true ↔
    home ∈ targets.map (·.regionID) := by
  simp [any_eq_true, mem_map]

/-- The first targets, if the home region is one of them or no target at all. -/
theorem shortlist_take (hnodup : (targets.map (·.regionID)).Nodup)
    (hhome : home ∈ targets.map (·.regionID) → home ∈ (targets.take limit).map (·.regionID)) :
    Shortlist home limit targets (targets.take limit) where
  length := length_take
  nodup := hnodup.sublist ((take_sublist _ _).map _)
  subset := take_subset _ _
  keeps := hhome
  others := (List.take_prefix _ _).filter _

/-- All targets, if there are not more than the limit. -/
theorem shortlist_all (hnodup : (targets.map (·.regionID)).Nodup) (hle : targets.length ≤ limit) :
    Shortlist home limit targets targets := by
  have hall : Shortlist home limit targets (targets.take limit) :=
    shortlist_take hnodup (by rw [take_of_length_le hle]; exact id)
  rwa [take_of_length_le hle] at hall

/-- The first targets with the last one replaced by the home region. -/
theorem shortlist_replace (hnodup : (targets.map (·.regionID)).Nodup) (hpos : 0 < limit)
    (hlt : limit < targets.length) (htarget : target ∈ targets) (hid : target.regionID = home)
    (hnot : home ∉ (targets.take limit).map (·.regionID)) :
    Shortlist home limit targets ((targets.take limit).dropLast ++ [target]) := by
  have hfirst : (targets.take limit).dropLast <+: targets.take limit := dropLast_prefix _
  refine ⟨?_, ?_, ?_, fun _ => ?_, ?_⟩
  · rw [length_append, length_dropLast, length_take, length_singleton]
    omega
  · rw [map_append, nodup_append']
    refine ⟨hnodup.sublist ((hfirst.sublist.trans (take_sublist _ _)).map _),
      nodup_singleton _, ?_⟩
    rw [map_singleton, disjoint_singleton, hid]
    exact fun hmem => hnot ((hfirst.map _).subset hmem)
  · rw [append_subset]
    exact ⟨(hfirst.trans (List.take_prefix _ _)).subset, by simpa using htarget⟩
  · exact mem_map.mpr ⟨target, mem_append_right _ (mem_singleton_self _), hid⟩
  · have hnone : [target].filter (·.regionID ≠ home) = [] := by simp [hid]
    rw [filter_append, hnone, append_nil]
    exact (hfirst.trans (List.take_prefix _ _)).filter _

/-- What both functions leave of more targets than the limit: the first ones, with the last of them
replaced by the home region if it is found among `rest` only. -/
def cutTargets (targets rest : List DerpProbeTarget) (home : Int) (limit : Nat) :
    List DerpProbeTarget :=
  let selected := targets.take limit
  if home = 0 ∨ selected.any (·.regionID = home) then selected
  else match rest.find? (·.regionID = home) with
    | none => selected
    | some target => selected.dropLast ++ [target]

theorem shortlist_cutTargets {rest : List DerpProbeTarget}
    (hnodup : (targets.map (·.regionID)).Nodup) (hpos : 0 < limit) (hlt : limit < targets.length)
    (hhome : home ≠ 0 ∨ home ∉ targets.map (·.regionID)) (hsubset : rest ⊆ targets)
    (hrest : targets.drop limit ⊆ rest) :
    Shortlist home limit targets (cutTargets targets rest home limit) := by
  unfold cutTargets
  dsimp only
  split
  · next hkept =>
    refine shortlist_take hnodup fun hmem => ?_
    exact any_regionID.mp (hkept.resolve_left fun h0 => hhome.elim (· h0) (· hmem))
  · next hout =>
    obtain ⟨-, hout⟩ := not_or.mp hout
    split
    · next hfind =>
      refine shortlist_take hnodup fun hmem => ?_
      obtain ⟨target, htarget, hid⟩ := mem_map.mp hmem
      rw [← take_append_drop limit targets] at htarget
      rcases mem_append.mp htarget with hfirst | hlast
      · exact mem_map.mpr ⟨target, hfirst, hid⟩
      · exact absurd (by simpa using hid) (List.find?_eq_none.mp hfind target (hrest hlast))
    · next target hfind =>
      refine shortlist_replace hnodup hpos hlt (hsubset (mem_of_find?_eq_some hfind)) ?_ ?_
      · simpa using List.find?_some hfind
      · exact fun hmem => hout (any_regionID.mpr hmem)

/-- `limitDERPProbeTargets` cuts the targets down to a shortlist. -/
theorem shortlist_limit (hnodup : (targets.map (·.regionID)).Nodup) (hpos : 0 < limit)
    (hhome : home ≠ 0 ∨ home ∉ targets.map (·.regionID)) :
    Shortlist home limit targets (limitDERPProbeTargets targets home limit) := by
  unfold limitDERPProbeTargets
  rw [if_neg hpos.ne']
  split
  · next hle => exact shortlist_all hnodup hle
  · next hlt =>
    exact shortlist_cutTargets hnodup hpos (not_le.mp hlt) hhome (drop_subset _ _)
      (List.Subset.refl _)

end

section
variable {derpMap : Option DERPMap} {latest : FinMap Int DERPRegionLatency} {order : List Int}

/-- An incremental selection is, up to its order, a shortlist of the full one. -/
theorem shortlist_incremental (h : VisitsRegions derpMap order)
    (hzero : regionOf derpMap 0 = none) (home : Int) :
    ∃ selected,
      Shortlist home maxIncrementalDERPRegions (orderedTargets order derpMap latest) selected ∧
      (selectDERPProbeTargetsFrom order derpMap home latest false).Perm selected := by
  have hfull := fullSelection latest h hzero
  have hnodup : ((orderedTargets order derpMap latest).map (·.regionID)).Nodup := by
    rw [List.Nodup, pairwise_map]
    exact hfull.ordered.imp fun hlt heq => hlt.ne (congrArg _ heq)
  have hhome : home ≠ 0 ∨ home ∉ (orderedTargets order derpMap latest).map (·.regionID) := by
    refine or_iff_not_imp_left.mpr fun h0 => ?_
    rw [not_not.mp h0, hfull.ids, Usable, hzero]
    exact Bool.false_ne_true
  have hpos : 0 < maxIncrementalDERPRegions := by decide
  unfold selectDERPProbeTargetsFrom
  rw [← orderedTargets]
  dsimp only
  generalize orderedTargets order derpMap latest = all at hnodup hhome
  split
  · next hall =>
    exact ⟨all, shortlist_all hnodup (hall.resolve_left Bool.false_ne_true), .refl _⟩
  · next hmore =>
    have hlt := not_le.mp (not_or.mp hmore).2
    refine ⟨cutTargets all all home maxIncrementalDERPRegions, shortlist_cutTargets hnodup hpos hlt
      hhome (List.Subset.refl _) (drop_subset _ _), ?_⟩
    unfold cutTargets
    dsimp only
    split
    · exact .refl _
    · cases all.find? (·.regionID = home) with
      | none => exact .refl _
      | some target => exact perm_sortBy _ _

end

/-- What is to be said of a selection for a map, a home region and measurements: it does not depend
on the order in which the map is visited; a full one has the regions that can be a home, in the
order of `probeRank`; an incremental one is a shortlist of that; and what `limitDERPProbeTargets`
makes of any targets is a shortlist. -/
structure ProbeSelection (derpMap : Option DERPMap) (home : Int)
    (latest : FinMap Int DERPRegionLatency) (order : List Int) : Prop where
  anyOrder : ∀ order' full, VisitsRegions derpMap order' →
    selectDERPProbeTargetsFrom order' derpMap home latest full =
      selectDERPProbeTargetsFrom order derpMap home latest full
  full : FullSelection derpMap latest (selectDERPProbeTargetsFrom order derpMap home latest true)
  incremental : ∃ selected, Shortlist home 3
      (selectDERPProbeTargetsFrom order derpMap home latest true) selected ∧
    (selectDERPProbeTargetsFrom order derpMap home latest false).Perm selected
  limited : ∀ targets limit, (targets.map (·.regionID)).Nodup → 0 < limit →
    (home ≠ 0 ∨ home ∉ targets.map (·.regionID)) →
    Shortlist home limit targets (limitDERPProbeTargets targets home limit)

/-- Every selection is such, for every map without a region keyed 0. -/
theorem probe_target_selection (derpMap : Option DERPMap) (home : Int)
    (latest : FinMap Int DERPRegionLatency) (order : List Int) (hzero : regionOf derpMap 0 = none)
    (horder : VisitsRegions derpMap order) : ProbeSelection derpMap home latest order where
  anyOrder order' full horder' := by
    have heq := orderedTargets_eq latest horder' horder hzero
    unfold selectDERPProbeTargetsFrom
    rw [← orderedTargets, ← orderedTargets, heq]
  full := fullSelection latest horder hzero
  incremental := shortlist_incremental horder hzero home
  limited _ _ := shortlist_limit

/-- Four regions that relay, each farther than the one before it. -/
def fourRegions : DERPMap where
  regions := some (FinMap.ofList ([1, 2, 3, 4].map fun id =>
    (id, some { regionID := id, nodes := some [some {}] })))

/-- Their measurements. -/
def fourLatencies : FinMap Int DERPRegionLatency :=
  FinMap.ofList ([1, 2, 3, 4].map fun id =>
    (id, { regionID := id, latency := id * (second / 1000), source := .stun, time := 0 }))

/-- The home region is the farthest of the four, and takes the place of the third. -/
theorem probe_target_selection_home_last :
    (selectDERPProbeTargetsFrom [4, 2, 3, 1] (some fourRegions) 4 fourLatencies false).map
        (·.regionID) = [1, 2, 4] ∧
      ProbeSelection (some fourRegions) 4 fourLatencies [4, 2, 3, 1] :=
  ⟨by decide +kernel, probe_target_selection (some fourRegions) 4 fourLatencies [4, 2, 3, 1] rfl
    fun m h => Option.some.inj h ▸ (by decide)⟩

end WgoTailscale
