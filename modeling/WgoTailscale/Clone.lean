import WgoTailscale.Client

/-!
# Retained copies (`map.go`)

The deep copies that the client makes of what control sends. They are not plain copies: addresses
are unmapped, prefixes and endpoints lose their duplicates, and some nil slices become empty ones.
The client detects a change by comparing what it retains with a new copy, so it matters that a copy
of a copy is the copy, and that the lists of a copied node are in the order in which their members
first occur, each once (`retained_copies_canonical`).
-/

namespace WgoTailscale

open List

/-! ## Normalised lists -/

section
variable {α : Type} [DecidableEq α] (f : α → α)

/-- The loop of `normalizePrefixes` and `normalizeAddrPorts`; the values seen are those of `out`. -/
def normalizeLoop : List α → List α → List α
  | [], out => out
  | value :: values, out =>
    if f value ∈ out then normalizeLoop values out else normalizeLoop values (out ++ [f value])

/-- The values of a slice after `f`, each once. -/
def normalize (values : Slice α) : Slice α := values.map fun l => normalizeLoop f l []

variable {f}

/-- The result extends `out` by distinct values that `f` fixes. -/
theorem normalizeLoop_spec (hf : ∀ a, f (f a) = f a) (l out : List α) :
    ∃ new, normalizeLoop f l out = out ++ new ∧ (out.Nodup → (out ++ new).Nodup) ∧
      ∀ a ∈ new, f a = a := by
  induction l generalizing out with
  | nil => exact ⟨[], by simp [normalizeLoop], by simp, by simp⟩
  | cons value values ih =>
    simp only [normalizeLoop]
    split
    · exact ih out
    · next hnew =>
      obtain ⟨new, heq, hnodup, hfix⟩ := ih (out ++ [f value])
      rw [append_assoc] at heq hnodup
      refine ⟨f value :: new, heq, fun hout => hnodup ?_, ?_⟩
      · exact nodup_append.mpr ⟨hout, nodup_singleton _, by
          intro a ha b hb
          obtain rfl := mem_singleton.mp hb
          exact fun h => hnew (h ▸ ha)⟩
      · intro a ha
        cases ha with
        | head => exact hf value
        | tail _ ha => exact hfix a ha

/-- Distinct values that `f` fixes are kept as they are. -/
theorem normalizeLoop_of_nodup (l out : List α) (hnodup : (out ++ l).Nodup)
    (hfix : ∀ a ∈ l, f a = a) : normalizeLoop f l out = out ++ l := by
  induction l generalizing out with
  | nil => simp [normalizeLoop]
  | cons a l ih =>
    have ha : f a = a := hfix a mem_cons_self
    have hnew : a ∉ out := fun h => (nodup_append.mp hnodup).2.2 a h a mem_cons_self rfl
    simp only [normalizeLoop, ha, if_neg hnew]
    rw [ih (out ++ [a]) (by simpa using hnodup) fun b hb => hfix b (mem_cons_of_mem _ hb)]
    simp

/-- Normalising twice is normalising once. -/
theorem normalize_normalize (hf : ∀ a, f (f a) = f a) (values : Slice α) :
    normalize f (normalize f values) = normalize f values := by
  cases values with
  | none => rfl
  | some l =>
    obtain ⟨new, heq, hnodup, hfix⟩ := normalizeLoop_spec hf l []
    have hnew : (([] : List α) ++ new).Nodup := hnodup nodup_nil
    simp only [normalize, Option.map_some, heq, nil_append]
    rw [normalizeLoop_of_nodup new [] hnew hfix, nil_append]

/-- The loop is the library's removal of later duplicates. -/
theorem normalizeLoop_eq (l out : List α) :
    normalizeLoop f l out = List.eraseDupsBy.loop (· == ·) (l.map f) out.reverse := by
  induction l generalizing out with
  | nil => exact (reverse_reverse out).symm
  | cons value values ih =>
    have hseen : out.reverse.any (f value == ·) = decide (f value ∈ out) := by
      rw [Bool.eq_iff_iff]
      simp
    rw [normalizeLoop, map_cons, List.eraseDupsBy.loop, hseen]
    split
    · next hmem => rw [decide_eq_true hmem, ih]
    · next hmem => rw [decide_eq_false hmem, ih, reverse_append, reverse_singleton,
        singleton_append]

/-- A list of a copy: the values of the original after `f`, in the order in which they first occur,
each once, and none of them mapped. -/
structure Slice.Canonical (f : α → α) (mapped : α → Prop) (values copy : Slice α) : Prop where
  order : copy = values.map fun l => (l.map f).eraseDups
  distinct : (Slice.list copy).Nodup
  unmapped : ∀ a ∈ Slice.list copy, ¬ mapped a

theorem canonical_normalize {mapped : α → Prop} (hf : ∀ a, f (f a) = f a)
    (hmapped : ∀ a, f a = a → ¬ mapped a) (values : Slice α) :
    Slice.Canonical f mapped values (normalize f values) := by
  have horder : normalize f values = values.map fun l => (l.map f).eraseDups :=
    congrArg (Option.map · values) (funext fun l => normalizeLoop_eq l [])
  cases values with
  | none => exact ⟨horder, nodup_nil, nofun⟩
  | some l =>
    obtain ⟨new, heq, hnodup, hfix⟩ := normalizeLoop_spec hf l []
    have hlist : Slice.list (normalize f (some l)) = new := heq
    refine ⟨horder, ?_, fun a ha => hmapped a (hfix a ?_)⟩
    · rw [hlist]
      exact hnodup nodup_nil
    · rwa [hlist] at ha

end

/-- `normalizePrefixes`. -/
def normalizePrefixes : Slice Prefix → Slice Prefix := normalize unmapPrefix

/-- `normalizeAddrPorts`. -/
def normalizeAddrPorts : Slice AddrPort → Slice AddrPort := normalize unmapAddrPort

theorem unmapAddrPort_unmapAddrPort (a : AddrPort) :
    unmapAddrPort (unmapAddrPort a) = unmapAddrPort a := by
  unfold unmapAddrPort
  split <;> simp_all [Addr.unmap_unmap]

/-- A mapped prefix becomes an IPv4 one. -/
theorem is4In6_unmapPrefix {p : Prefix} {b : Nat} (hbits : p.bits = some b)
    (hmapped : p.addr.is4In6 = true ∧ 96 ≤ b) : (unmapPrefix p).addr.is4In6 = false := by
  obtain ⟨v, hv⟩ := Addr.unmap_of_mapped hmapped.1
  have hb : b ≤ 128 := by
    have hle := (p.bits_le b hbits).2
    have hlen : p.addr.bitLen ≤ 128 := by cases p.addr <;> simp [Addr.bitLen]
    omega
  obtain ⟨haddr, hlen⟩ := prefixFrom_spec (a := .v4 v) (by simp) rfl
    (show b - 96 ≤ (Addr.v4 v).bitLen by simp [Addr.bitLen]; omega)
  have hcast : ((b : Int) - 96) = ((b - 96 : Nat) : Int) := by omega
  simp only [unmapPrefix, hbits, if_pos hmapped, hv, hcast]
  rw [(Prefix.masked_spec hlen).1, haddr]
  rfl

theorem unmapPrefix_unmapPrefix (p : Prefix) : unmapPrefix (unmapPrefix p) = unmapPrefix p := by
  cases hbits : p.bits with
  | none => simp only [unmapPrefix, hbits]
  | some b =>
    by_cases hmapped : p.addr.is4In6 = true ∧ 96 ≤ b
    · have h4 := is4In6_unmapPrefix hbits hmapped
      generalize unmapPrefix p = q at h4
      cases hq : q.bits with
      | none => simp only [unmapPrefix, hq]
      | some n => simp [unmapPrefix, hq, h4]
    · simp only [unmapPrefix, hbits, if_neg hmapped]

/-! ## Copies -/

/-- `cloneRawMessages`: the result is never nil. -/
def cloneRawMessages (values : Slice RawMessage) : Slice RawMessage := some (Slice.list values)

/-- `cloneCapabilityMap`, and `cloneRawMessageMap`, which does the same. -/
def cloneCapabilityMap (value : GoMap String (Slice RawMessage)) :
    GoMap String (Slice RawMessage) :=
  value.map (FinMap.mapVals fun _ => cloneRawMessages)

/-- `cloneControlNode`, of a node that is not nil. -/
def cloneControlNode (node : Node) : Node :=
  { node with
    addresses := normalizePrefixes node.addresses
    allowedIPs := normalizePrefixes node.allowedIPs
    endpoints := normalizeAddrPorts node.endpoints
    primaryRoutes := normalizePrefixes node.primaryRoutes
    capMap := cloneCapabilityMap node.capMap
    exitNodeDNSResolvers := cloneRawMessages node.exitNodeDNSResolvers
    selfNodeV4MasqAddrForThisPeer := node.selfNodeV4MasqAddrForThisPeer.map Addr.unmap
    selfNodeV6MasqAddrForThisPeer := node.selfNodeV6MasqAddrForThisPeer.map Addr.unmap }

/-- `cloneDNSConfig`, of a configuration that is not nil. -/
def cloneDNSConfig (value : DNSConfig) : DNSConfig :=
  { value with
    nameservers := value.nameservers.map (List.map Addr.unmap)
    routes := cloneCapabilityMap value.routes
    resolvers := cloneRawMessages value.resolvers }

/-- One rule of `cloneFilters`. -/
def cloneFilterRule (rule : FilterRule) : FilterRule :=
  { rule with
    dstPorts := some (Slice.list rule.dstPorts)
    capGrant := cloneRawMessages rule.capGrant }

/-- `cloneFilters`: the result is never nil. -/
def cloneFilters (value : List FilterRule) : List FilterRule := value.map cloneFilterRule

/-- `mergeDERPMap`, where `update` is not nil. -/
def mergeDERPMap (previous : Option DERPMap) (update : DERPMap) : Option DERPMap :=
  (cloneDERPMap (some update)).map fun out =>
    match out.regions, cloneDERPMap previous with
    | none, some previous => { out with regions := previous.regions }
    | _, _ => out

theorem cloneCapabilityMap_cloneCapabilityMap (value : GoMap String (Slice RawMessage)) :
    cloneCapabilityMap (cloneCapabilityMap value) = cloneCapabilityMap value := by
  cases value with
  | none => rfl
  | some m =>
    simp only [cloneCapabilityMap, Option.map_some, Option.some.injEq]
    refine FinMap.mapVals_eq_self fun k v hv => ?_
    obtain ⟨w, -, rfl⟩ := Option.map_eq_some_iff.mp hv
    rfl

/-- What is merged is a copy. -/
theorem cloneDERPMap_mergeDERPMap (previous : Option DERPMap) (update : DERPMap) :
    cloneDERPMap (mergeDERPMap previous update) = mergeDERPMap previous update := by
  have hcopy := cloneDERPMap_cloneDERPMap (some update)
  have hprevious := cloneDERPMap_cloneDERPMap previous
  unfold mergeDERPMap
  cases hout : cloneDERPMap (some update) with
  | none => rfl
  | some out =>
    rw [hout] at hcopy
    rw [Option.map_some]
    split
    · next previous' _ hold =>
      -- the old regions are a copy already
      rw [hold] at hprevious
      have hregions := congrArg DERPMap.regions (Option.some.inj hprevious)
      exact congrArg some (DERPMap.mk.injEq .. ▸ ⟨hregions, rfl⟩)
    · exact hcopy

/-- A DERP map that was merged is there already. -/
theorem mergeDERPMap_mergeDERPMap (previous : Option DERPMap) (update : DERPMap) :
    mergeDERPMap (mergeDERPMap previous update) update = mergeDERPMap previous update := by
  have hcopy := cloneDERPMap_mergeDERPMap previous update
  conv_lhs => rw [mergeDERPMap, hcopy]
  unfold mergeDERPMap
  cases cloneDERPMap (some update) with
  | none => rfl
  | some out =>
    rw [Option.map_some, Option.map_some]
    cases out.regions with
    | some regions => rfl
    | none => cases cloneDERPMap previous <;> rfl

/-- `mergeDERPMap`, where the update may be nil. -/
def mergeDERPMaps (previous update : Option DERPMap) : Option DERPMap :=
  match update with
  | none => cloneDERPMap previous
  | some update => mergeDERPMap previous update

theorem unmap_comp_unmap : Addr.unmap ∘ Addr.unmap = Addr.unmap := funext Addr.unmap_unmap

/-- A retained node is its own copy. -/
theorem cloneControlNode_cloneControlNode (node : Node) :
    cloneControlNode (cloneControlNode node) = cloneControlNode node := by
  have hprefixes := normalize_normalize unmapPrefix_unmapPrefix
  have haddrs := normalize_normalize unmapAddrPort_unmapAddrPort
  simp only [cloneControlNode, normalizePrefixes, normalizeAddrPorts, hprefixes, haddrs,
    cloneCapabilityMap_cloneCapabilityMap, Option.map_map, unmap_comp_unmap]
  rfl

theorem cloneDNSConfig_cloneDNSConfig (value : DNSConfig) :
    cloneDNSConfig (cloneDNSConfig value) = cloneDNSConfig value := by
  have hnameservers : (value.nameservers.map (List.map Addr.unmap)).map (List.map Addr.unmap) =
      value.nameservers.map (List.map Addr.unmap) := by
    rw [Option.map_map, map_comp_map, unmap_comp_unmap]
  simp only [cloneDNSConfig, hnameservers, cloneCapabilityMap_cloneCapabilityMap]
  rfl

/-- An IPv4-mapped address with at least 96 bits. -/
def Prefix.IsMapped (p : Prefix) : Prop := p.addr.is4In6 = true ∧ ∃ b, p.bits = some b ∧ 96 ≤ b

theorem not_isMapped_of_fixed (p : Prefix) (h : unmapPrefix p = p) : ¬ p.IsMapped := by
  rintro ⟨hmapped, b, hbits, hb⟩
  have hnot := is4In6_unmapPrefix hbits ⟨hmapped, hb⟩
  rw [h, hmapped] at hnot
  cases hnot

theorem is4In6_of_fixed (a : AddrPort) (h : unmapAddrPort a = a) : ¬ a.addr.is4In6 = true := by
  rw [← h, unmapAddrPort]
  split
  · exact Bool.eq_false_iff.mp (Addr.is4In6_unmap a.addr)
  · next hinvalid =>
    intro hmapped
    cases haddr : a.addr with
    | invalid =>
      rw [haddr] at hmapped
      cases hmapped
    | _ => exact hinvalid (by rw [AddrPort.isValid, haddr]; rfl)

/-- Copies of copies are the copies, a DERP map that was merged is there already, and the lists of a
copied node are canonical. -/
theorem retained_copies_canonical :
    (∀ node, cloneControlNode (cloneControlNode node) = cloneControlNode node) ∧
      (∀ dns, cloneDNSConfig (cloneDNSConfig dns) = cloneDNSConfig dns) ∧
      (∀ rules, cloneFilters (cloneFilters rules) = cloneFilters rules) ∧
      (∀ derpMap, cloneDERPMap (cloneDERPMap derpMap) = cloneDERPMap derpMap) ∧
      (∀ previous update, mergeDERPMaps (mergeDERPMaps previous update) update =
        mergeDERPMaps previous update) ∧
      ∀ node,
        Slice.Canonical unmapPrefix Prefix.IsMapped node.addresses
          (cloneControlNode node).addresses ∧
        Slice.Canonical unmapPrefix Prefix.IsMapped node.allowedIPs
          (cloneControlNode node).allowedIPs ∧
        Slice.Canonical unmapPrefix Prefix.IsMapped node.primaryRoutes
          (cloneControlNode node).primaryRoutes ∧
        Slice.Canonical unmapAddrPort (fun a => a.addr.is4In6 = true) node.endpoints
          (cloneControlNode node).endpoints := by
  have hprefixes := canonical_normalize unmapPrefix_unmapPrefix not_isMapped_of_fixed
  have haddrs := canonical_normalize unmapAddrPort_unmapAddrPort is4In6_of_fixed
  refine ⟨cloneControlNode_cloneControlNode, cloneDNSConfig_cloneDNSConfig, fun rules => ?_,
    cloneDERPMap_cloneDERPMap, fun previous update => ?_, fun node =>
      ⟨hprefixes _, hprefixes _, hprefixes _, haddrs _⟩⟩
  · rw [cloneFilters, cloneFilters, map_map]
    rfl
  · cases update with
    | none => exact cloneDERPMap_cloneDERPMap previous
    | some update => exact mergeDERPMap_mergeDERPMap previous update

end WgoTailscale
