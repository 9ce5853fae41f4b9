import WgoTailscale.AclRanges

/-!
# The two evaluators of a packet filter agree

`firewallHostSelectors_spec` is the agreement for one selector: the host texts the translation
emits contain exactly the addresses that `matchesIP` matches, form by form of the selector grammar.
The form with work in it is the range, whose prefixes contain exactly its addresses
(`RangeTiles.contains_iff`). Texts are read back through the round trips of `NetipText`. The
agreement is then carried through rules (`ruleInclude_spec`) to views
(`aclAllows_iff_firewall_admits`).
-/

namespace WgoTailscale

open List

/-! ## One selector -/

/-- No address that `netip` reads from a selector, or from the two ends of a range, has a zone. -/
def zoneFree (raw : String) : Bool :=
  let free (s : String) : Bool := (parseAddr s).all fun a => !a.hasZone
  free raw && (cut raw '-').all fun (first, last) => free first && free last

variable {p : Prefix} {rule : ACLRule}

/-- The text of a prefix is read as the prefix. -/
theorem selectorContains_prefixText (h : p.isValid = true) (a : Addr) :
    selectorContains p.toText a = p.contains a := by
  have hstar : p.toText ≠ "*" := by
    intro h0
    have := slash_mem_toText h
    rw [h0] at this
    exact absurd this (by decide)
  simp only [selectorContains, if_neg hstar, if_pos (slash_mem_toText h), parsePrefix_toText h]

/-- The text of an address is read as the address. -/
theorem selectorContains_addr {b : Addr} (hvalid : b.isValid = true) (hzone : b.hasZone = false)
    (a : Addr) : selectorContains b.toText a = decide (b = a) := by
  have hparse := parseAddr_toText hvalid
  have hstar : b.toText ≠ "*" := by
    intro h0
    have hnone : parseAddr "*" = none := by decide
    rw [h0, hnone] at hparse
    cases hparse
  simp only [selectorContains, if_neg hstar, if_neg (slash_not_mem_toText hvalid hzone), hparse,
    Option.some.injEq]

/-- The prefixes of a range as the firewall translation uses them: for every number of iterations
that can be needed the result is one list, which contains exactly the range. -/
theorem addressRangePrefixes_spec {start stop : Addr} (hvalid : start.isValid = true)
    (hz : start.zone = "") (hz' : stop.zone = "") (hmap : start.unmap = start)
    (hmap' : stop.unmap = stop) (hfamily : start.bitLen = stop.bitLen)
    (hle : start.toNat ≤ stop.toNat) :
    ∃ ps, (∀ fuel, 2 ^ 128 ≤ fuel → addressRangePrefixes fuel start stop = some ps) ∧
      (∀ p ∈ ps, p.isValid = true) ∧
      ∀ a : Addr, a.zone = "" → ((∃ p ∈ ps, p.contains a = true) ↔
        a.bitLen = stop.bitLen ∧ start.toNat ≤ a.toNat ∧ a.toNat ≤ stop.toNat) := by
  have hgt : start.compare stop ≠ .gt := by
    rw [ne_eq, Addr.compare_gt_iff hz hz' hfamily]
    exact not_lt.mpr hle
  obtain ⟨ps, hps, htiles⟩ := addressRangePrefixes_tiles start stop
    (by rwa [hmap]) (by rwa [hmap]) (by rwa [hmap']) (by rwa [hmap, hmap']) (by rwa [hmap, hmap'])
  rw [hmap, hmap'] at htiles
  exact ⟨ps, hps, fun p hp => htiles.isValid p hp, fun a ha => htiles.contains_iff hz' ha⟩

theorem isValid_of_parsePrefix {s : String} (h : parsePrefix s = some p) : p.isValid = true := by
  unfold parsePrefix at h
  dsimp only at h
  split at h
  · cases h
  · simp only [Option.bind_eq_bind, Option.bind_eq_some_iff] at h
    obtain ⟨ip, hip, h⟩ := h
    split at h
    · cases h
    · next hzone =>
      obtain ⟨b, -, h⟩ := Option.bind_eq_some_iff.mp h
      split at h
      · next hle =>
        have hne := Addr.ne_invalid_of_isValid (isValid_of_parseAddr hip)
        have hz := Addr.zone_of_hasZone (by simpa using hzone)
        cases h
        rw [Prefix.isValid, (prefixFrom_spec hne hz hle).2]
        rfl
      · cases h

theorem isValid_of_toPrefix {a : Addr} (hvalid : a.isValid = true) {b : Int}
    (h : a.toPrefix b = some p) : p.isValid = true := by
  have hne := Addr.ne_invalid_of_isValid hvalid
  unfold Addr.toPrefix at h
  split at h
  · cases h
  split at h
  · cases h
  · next hpos hle =>
    have hkeep : a.keepTop b.toNat ≠ .invalid := by
      intro h0
      have hlen := a.bitLen_keepTop b.toNat
      rw [h0] at hlen
      exact hne (Addr.bitLen_eq_zero.mp hlen.symm)
    cases h
    rw [Prefix.isValid, prefixFrom,
      dif_pos ⟨hkeep, by omega, by rw [a.bitLen_keepTop]; omega⟩]
    rfl

theorem isValid_unmapPrefix (h : p.isValid = true) : (unmapPrefix p).isValid = true := by
  obtain ⟨b, hb⟩ := Option.isSome_iff_exists.mp h
  obtain ⟨-, hle⟩ := p.bits_le b hb
  simp only [unmapPrefix, hb]
  split
  · next hmapped =>
    obtain ⟨h4, h96⟩ := hmapped
    obtain ⟨c, hc⟩ := Addr.unmap_of_mapped h4
    have hlen : p.addr.bitLen ≤ 128 := by cases p.addr <;> simp [Addr.bitLen]
    have hcast : (b : Int) - 96 = ((b - 96 : Nat) : Int) := by omega
    rw [Prefix.isValid_masked, hc, hcast, Prefix.isValid,
      (prefixFrom_spec (a := .v4 c) (by simp) rfl (show b - 96 ≤ 32 by omega)).2]
    rfl
  · exact h

/-- The single text of a valid prefix is read as the prefix unmasked. -/
theorem any_masked_toText (h : p.isValid = true) {a : Addr} (ha : a.zone = "") :
    [p.masked.toText].any (selectorContains · a) = p.contains a := by
  simp only [any_cons, any_nil, Bool.or_false]
  rw [selectorContains_prefixText (by rw [Prefix.isValid_masked]; exact h), Prefix.contains_masked ha]

/-- A range selector: the prefixes of the range against the comparison with its two ends. -/
theorem rangeSelectors_spec {start stop : Addr} (hvalid : start.isValid = true)
    (hz : start.zone = "") (hz' : stop.zone = "") (hmap : start.unmap = start)
    (hmap' : stop.unmap = stop) :
    ∃ hosts, (∀ fuel, 2 ^ 128 ≤ fuel →
        (if start.bitLen ≠ stop.bitLen ∨ start.compare stop = .gt then some []
          else (addressRangePrefixes fuel start stop).map fun ps => ps.map Prefix.toText) =
        some hosts) ∧
      ∀ a : Addr, a.zone = "" → hosts.any (selectorContains · a) =
        if start.bitLen ≠ a.bitLen ∨ stop.bitLen ≠ a.bitLen then false
        else decide (start.compare a ≠ .gt ∧ a.compare stop ≠ .gt) := by
  by_cases hguard : start.bitLen ≠ stop.bitLen ∨ start.compare stop = .gt
  · refine ⟨[], fun fuel _ => if_pos hguard, fun a ha => ?_⟩
    split
    · rfl
    · next hlen =>
      obtain ⟨h1, h2⟩ := not_or.mp hlen
      have h1 := not_not.mp h1
      have h2 := not_not.mp h2
      rw [Addr.compare_gt_iff hz hz' (h1.trans h2.symm)] at hguard
      rw [any_nil, eq_comm, decide_eq_false_iff_not, ne_eq, Addr.compare_gt_iff hz ha h1,
        ne_eq, Addr.compare_gt_iff ha hz' h2.symm]
      omega
  · obtain ⟨hfamily, hle⟩ := not_or.mp hguard
    have hfamily := not_not.mp hfamily
    rw [Addr.compare_gt_iff hz hz' hfamily] at hle
    obtain ⟨ps, hps, hvalids, hunion⟩ := addressRangePrefixes_spec hvalid hz hz' hmap hmap' hfamily
      (by omega)
    refine ⟨ps.map Prefix.toText, fun fuel hfuel => ?_, fun a ha => ?_⟩
    · rw [if_neg hguard, hps fuel hfuel, Option.map_some]
    · have hany : (ps.map Prefix.toText).any (selectorContains · a) = true ↔
          ∃ p ∈ ps, p.contains a = true := by
        simp only [any_map, any_eq_true, Function.comp_apply]
        constructor
        · rintro ⟨p, hp, h⟩; exact ⟨p, hp, by rwa [selectorContains_prefixText (hvalids p hp)] at h⟩
        · rintro ⟨p, hp, h⟩; exact ⟨p, hp, by rwa [selectorContains_prefixText (hvalids p hp)]⟩
      rw [Bool.eq_iff_iff, hany, hunion a ha]
      split
      · next hlen =>
        rw [hfamily, or_self] at hlen
        simp [Ne.symm hlen]
      · next hlen =>
        obtain ⟨h1, h2⟩ := not_or.mp hlen
        have h1 := not_not.mp h1
        have h2 := not_not.mp h2
        rw [decide_eq_true_iff, ne_eq, Addr.compare_gt_iff hz ha h1, ne_eq,
          Addr.compare_gt_iff ha hz' h2.symm]
        omega

/-- The host texts that the translation emits for a selector contain exactly the addresses the
direct evaluation matches. -/
theorem firewallHostSelectors_spec {raw : String} (hraw : zoneFree raw = true) (bits : Int) :
    ∃ hosts, (∀ fuel, 2 ^ 128 ≤ fuel → firewallHostSelectors fuel raw bits = some hosts) ∧
      ∀ a : Addr, a.isValid = true → a.hasZone = false →
        hosts.any (selectorContains · a.unmap) = matchesIP raw bits a := by
  have hzone {a : Addr} (ha : a.hasZone = false) : a.unmap.zone = "" :=
    Addr.zone_unmap (Addr.zone_of_hasZone ha)
  simp only [zoneFree, Bool.and_eq_true] at hraw
  obtain ⟨hfree, hends⟩ := hraw
  simp only [firewallHostSelectors, matchesIP]
  by_cases hstar : raw = "*"
  · subst hstar
    exact ⟨["*"], fun _ _ => rfl, fun a _ _ => rfl⟩
  by_cases hslash : '/' ∈ raw.toList
  · simp only [if_neg hstar, if_pos hslash]
    cases hp : parsePrefix raw with
    | none => exact ⟨[], fun _ _ => rfl, fun a _ _ => rfl⟩
    | some p =>
      refine ⟨_, fun _ _ => rfl, fun a _ ha => ?_⟩
      exact any_masked_toText (isValid_unmapPrefix (isValid_of_parsePrefix hp)) (hzone ha)
  simp only [if_neg hstar, if_neg hslash]
  cases hcut : cut raw '-' with
  | some ends =>
    obtain ⟨first, last⟩ := ends
    rw [hcut] at hends
    simp only [Option.all_some, Bool.and_eq_true] at hends
    dsimp only
    cases hstart : parseAddr first with
    | none => exact ⟨[], fun _ _ => rfl, fun a _ _ => rfl⟩
    | some start =>
      cases hstop : parseAddr last with
      | none => exact ⟨[], fun _ _ => rfl, fun a _ _ => rfl⟩
      | some stop =>
        have hsz : start.hasZone = false := by simpa [hstart] using hends.1
        have hez : stop.hasZone = false := by simpa [hstop] using hends.2
        obtain ⟨hosts, hhosts, hany⟩ := rangeSelectors_spec
          (Addr.isValid_unmap (isValid_of_parseAddr hstart)) (hzone hsz) (hzone hez)
          start.unmap_unmap stop.unmap_unmap
        exact ⟨hosts, hhosts, fun a _ ha => hany a.unmap (hzone ha)⟩
  | none =>
    cases haddr : parseAddr raw with
    | none => exact ⟨[], fun _ _ => rfl, fun a _ _ => rfl⟩
    | some address =>
      have hvalid := isValid_of_parseAddr haddr
      have haz : address.hasZone = false := by simpa [haddr] using hfree
      have hsign : (unmapAddressBits address bits).2 < 0 ↔ bits < 0 := by
        simp only [unmapAddressBits]
        split <;> omega
      rcases lt_or_ge bits 0 with hneg | hpos
      · have huz : address.unmap.hasZone = false := by simp [Addr.hasZone, hzone haz]
        refine ⟨[address.unmap.toText], fun _ _ => if_pos (hsign.mpr hneg), fun a _ ha => ?_⟩
        simp only [if_pos hneg]
        rw [any_cons, any_nil, Bool.or_false,
          selectorContains_addr (Addr.isValid_unmap hvalid) huz, Addr.unmap_unmap]
      · simp only [if_neg (not_lt.mpr hpos), if_neg (mt hsign.mp (not_lt.mpr hpos))]
        cases hp : (unmapAddressBits address bits).1.toPrefix (unmapAddressBits address bits).2 with
        | none => exact ⟨[], fun _ _ => rfl, fun a _ _ => rfl⟩
        | some p =>
          refine ⟨_, fun _ _ => rfl, fun a _ ha => ?_⟩
          exact any_masked_toText (isValid_of_toPrefix (Addr.isValid_unmap hvalid) hp) (hzone ha)

/-! ## Rules and views -/

/-- Computations that may need iterations, run over a list: if each element has one result for
every sufficient number, so has the list. -/
theorem mapM_spec {α β : Type} {f : Nat → α → Option β} {R : α → β → Prop} {n : Nat} {l : List α}
    (h : ∀ x ∈ l, ∃ y, (∀ fuel, n ≤ fuel → f fuel x = some y) ∧ R x y) :
    ∃ ys, (∀ fuel, n ≤ fuel → l.mapM (f fuel) = some ys) ∧ List.Forall₂ R l ys := by
  induction l with
  | nil => exact ⟨[], fun _ _ => rfl, .nil⟩
  | cons x l ih =>
    obtain ⟨y, hy, hR⟩ := h x mem_cons_self
    obtain ⟨ys, hys, hRs⟩ := ih fun x hx => h x (mem_cons_of_mem _ hx)
    refine ⟨y :: ys, fun fuel hfuel => ?_, .cons hR hRs⟩
    rw [mapM_cons, hy fuel hfuel, hys fuel hfuel]
    rfl

theorem any_flatten_of_forall₂ {α β : Type} {p : α → Bool} {q : β → Bool} {l : List α}
    {ys : List (List β)} (h : List.Forall₂ (fun x y => y.any q = p x) l ys) :
    ys.flatten.any q = l.any p := by
  induction h with
  | nil => rfl
  | cons hxy _ ih => rw [flatten_cons, any_append, any_cons, hxy, ih]

/-- A rule's selectors, sources and destinations, carry no zone. -/
def ACLRule.zoneFree (rule : ACLRule) : Bool :=
  rule.sourceIPs.all WgoTailscale.zoneFree &&
    rule.destinations.all fun d => WgoTailscale.zoneFree d.ip

/-- The source hosts of a rule contain exactly the sources it matches. -/
theorem firewallSourceHosts_spec (hrule : ∀ raw ∈ rule.sourceIPs, zoneFree raw = true) :
    ∃ hosts, (∀ fuel, 2 ^ 128 ≤ fuel → firewallSourceHosts fuel rule = some hosts) ∧
      ∀ a : Addr, a.isValid = true → a.hasZone = false →
        hosts.any (selectorContains · a.unmap) = matchesSource rule a := by
  have hmem : ∀ s ∈ sourceSelectors rule, zoneFree s.1 = true := by
    intro s hs
    obtain ⟨⟨raw, i⟩, hi, rfl⟩ := mem_map.mp hs
    exact hrule raw (fst_mem_of_mem_zipIdx hi)
  obtain ⟨ys, hys, hall⟩ := mapM_spec (f := fun fuel s => firewallHostSelectors fuel s.1 s.2)
    fun s hs => firewallHostSelectors_spec (hmem s hs) s.2
  refine ⟨ys.flatten, fun fuel hfuel => ?_, fun a ha hz => ?_⟩
  · rw [firewallSourceHosts]
    exact congrArg (Option.map List.flatten) (hys fuel hfuel)
  · exact any_flatten_of_forall₂ (hall.imp fun s y hy => hy a ha hz)

/-- The name of a protocol number names that number only. -/
theorem networkNames_networkName {p q : Int} (hp : 0 ≤ p) (hq : 0 ≤ q) :
    networkNames (networkName p) q = decide (p = q) := by
  obtain ⟨m, rfl⟩ := Int.eq_ofNat_of_zero_le hp
  obtain ⟨n, rfl⟩ := Int.eq_ofNat_of_zero_le hq
  have hip (k : Int) (s : String) (hs : s.toList.head? ≠ some 'i') : s ≠ "ip:" ++ toString k := by
    rintro rfl
    exact hs (by simp)
  have hinj : "ip:" ++ toString (m : Int) = "ip:" ++ toString (n : Int) ↔ m = n := by
    rw [String.append_right_inj]
    refine ⟨fun h => ?_, fun h => by rw [h]⟩
    have hrepr : Nat.repr m = Nat.repr n := h
    rw [Nat.repr_eq_ofList_toDigits, Nat.repr_eq_ofList_toDigits, String.ofList_inj] at hrepr
    simpa [parseDecimal_toDigits] using congrArg parseDecimal hrepr
  have htcp := hip n "tcp" (by decide)
  have hudp := hip n "udp" (by decide)
  unfold networkNames networkName
  congr 1
  rw [eq_iff_iff, Nat.cast_inj]
  split
  · next h =>
    simp only [htcp, or_false, true_and, show ¬ "tcp" = "udp" by decide, false_and]
    omega
  split
  · next h =>
    simp only [hudp, or_false, true_and, show ¬ "udp" = "tcp" by decide, false_and, false_or]
    omega
  · simp only [(hip m "tcp" (by decide)).symm, (hip m "udp" (by decide)).symm, false_and, hinj,
      false_or]

theorem firewallNetworks_spec {protocol : Int} (h0 : 0 ≤ protocol) (h1 : protocol ≤ 255) :
    (firewallNetworks rule.ipProtocols).any (networkNames · protocol) =
      matchesProtocol rule protocol := by
  have hlist (l : List Int) :
      (compact ((l.filter fun p => 0 ≤ p ∧ p ≤ 255).map networkName)).any
        (networkNames · protocol) = true ↔ protocol ∈ l := by
    simp only [any_eq_true, mem_compact, mem_map, mem_filter, decide_eq_true_iff]
    constructor
    · rintro ⟨_, ⟨p, ⟨hp, hp0, -⟩, rfl⟩, hname⟩
      rw [networkNames_networkName hp0 h0, decide_eq_true_iff] at hname
      exact hname ▸ hp
    · intro hp
      refine ⟨_, ⟨protocol, ⟨hp, h0, h1⟩, rfl⟩, ?_⟩
      rw [networkNames_networkName h0 h0, decide_eq_true_iff]
  rw [Bool.eq_iff_iff, firewallNetworks, hlist, matchesProtocol]
  split
  · simp [defaultProtocols]
  · rw [contains_iff_mem]

/-- A port is among the ports of a destination exactly when the emitted rule lets it pass. -/
theorem firewallPorts_spec (ports : PortRange) (port : UInt16) :
    (((firewallPorts ports).1.isEmpty && (firewallPorts ports).2.isEmpty) ||
      (firewallPorts ports).1.contains port ||
      (firewallPorts ports).2.any fun r => r.first ≤ port ∧ port ≤ r.last) =
    decide (ports.first ≤ port ∧ port ≤ ports.last) := by
  simp only [UInt16.le_iff_toNat_le]
  unfold firewallPorts
  split
  · next hall =>
    have hport := port.toNat_lt
    rw [hall.1, hall.2]
    simp
    omega
  split
  · next _ hone =>
    rw [Bool.eq_iff_iff]
    simp [hone, ← UInt16.toNat_inj]
    omega
  · simp

/-- A packet as both evaluators take it: valid addresses without zones and a protocol number. -/
structure PacketOK (source destination : Addr) (protocol : Int) : Prop where
  source_valid : source.isValid = true
  source_zone : source.hasZone = false
  destination_valid : destination.isValid = true
  destination_zone : destination.hasZone = false
  protocol_nonneg : 0 ≤ protocol
  protocol_le : protocol ≤ 255

/-- The rules emitted for one destination admit what the destination matches, from the hosts and
networks they are given. -/
theorem destinationInclude_spec {d : ACLDestination} (hd : zoneFree d.ip = true)
    (hosts networks : List String) :
    ∃ rules, (∀ fuel, 2 ^ 128 ≤ fuel → destinationInclude fuel hosts networks d = some rules) ∧
      ∀ {source destination : Addr} {protocol : Int} (port : UInt16),
        PacketOK source destination protocol →
        rules.any (·.admits source destination protocol port) =
          (hosts.any (selectorContains · source.unmap) &&
            networks.any (networkNames · protocol) && matchesDestination d destination port) := by
  obtain ⟨localHosts, hlocal, hany⟩ := firewallHostSelectors_spec hd (d.bits.getD (-1))
  refine ⟨_, fun fuel hfuel => by rw [destinationInclude, hlocal fuel hfuel, Option.map_some], ?_⟩
  intro source destination protocol port hok
  rw [matchesDestination, ← hany destination hok.destination_valid hok.destination_zone]
  split
  · next hnone =>
    rcases hnone with hempty | hports
    · simp [isEmpty_iff.mp hempty]
    · have hport : ¬ (d.ports.first ≤ port ∧ port ≤ d.ports.last) := by
        simp only [UInt16.le_iff_toNat_le, UInt16.lt_iff_toNat_lt] at hports ⊢
        omega
      simp [hport]
  · rw [← firewallPorts_spec d.ports port]
    rw [any_map, Bool.eq_iff_iff]
    simp only [any_eq_true (p := _ ∘ _), Function.comp_apply, FirewallRule.admits,
      Bool.and_eq_true]
    rw [any_eq_true (l := networks)]
    constructor
    · rintro ⟨network, hmem, ⟨⟨hname, hsource⟩, hdest⟩, hport⟩
      exact ⟨⟨hsource, network, hmem, hname⟩, hdest, hport⟩
    · rintro ⟨⟨hsource, network, hmem, hname⟩, hdest, hport⟩
      exact ⟨network, hmem, ⟨⟨hname, hsource⟩, hdest⟩, hport⟩

/-- The rules emitted for one rule of the view admit exactly what the rule allows. -/
theorem ruleInclude_spec (hrule : rule.zoneFree = true) :
    ∃ rules, (∀ fuel, 2 ^ 128 ≤ fuel → ruleInclude fuel rule = some rules) ∧
      ∀ {source destination : Addr} {protocol : Int} (port : UInt16),
        PacketOK source destination protocol →
        rules.any (·.admits source destination protocol port) =
          (matchesSource rule source && matchesProtocol rule protocol &&
            rule.destinations.any (matchesDestination · destination port)) := by
  simp only [ACLRule.zoneFree, Bool.and_eq_true, all_eq_true] at hrule
  obtain ⟨hosts, hhosts, hsource⟩ := firewallSourceHosts_spec hrule.1
  by_cases hempty : hosts.isEmpty = true
  · refine ⟨[], fun fuel hfuel => ?_, fun port hok => ?_⟩
    · rw [ruleInclude, hhosts fuel hfuel, Option.bind_some, if_pos hempty]
    · rw [← hsource _ hok.source_valid hok.source_zone, isEmpty_iff.mp hempty]
      rfl
  · obtain ⟨ys, hys, hall⟩ := mapM_spec fun d hd =>
      destinationInclude_spec (hrule.2 d hd) hosts (firewallNetworks rule.ipProtocols)
    refine ⟨ys.flatten, fun fuel hfuel => ?_, ?_⟩
    · rw [ruleInclude, hhosts fuel hfuel, Option.bind_some, if_neg hempty, hys fuel hfuel,
        Option.map_some]
    · intro source destination protocol port hok
      rw [any_flatten_of_forall₂ (hall.imp fun d y hy => hy port hok),
        hsource _ hok.source_valid hok.source_zone,
        firewallNetworks_spec hok.protocol_nonneg hok.protocol_le]
      induction rule.destinations with
      | nil => simp
      | cons d ds ih => rw [any_cons, ih, any_cons, Bool.and_or_distrib_left]

/-- The two evaluators of a packet filter agree. For every view whose selectors carry no IPv6 zone
the translation ends and yields one `Include` list, however many iterations beyond the needed ones
it is given, and on every packet with valid zone-free addresses some rule of that list admits the
packet exactly when the direct evaluation allows it. -/
theorem aclAllows_iff_firewall_admits (view : ACLView)
    (hview : ∀ rule ∈ view.rules, rule.zoneFree = true) :
    ∃ rules, (∀ fuel, 2 ^ 128 ≤ fuel → firewallInclude fuel view.rules = some rules) ∧
      ∀ {source destination : Addr} {protocol : Int} (port : UInt16),
        PacketOK source destination protocol →
        (aclAllows view.rules source destination protocol port = true ↔
          ∃ rule ∈ rules, rule.admits source destination protocol port = true) := by
  obtain ⟨ys, hys, hall⟩ := mapM_spec fun rule hrule => ruleInclude_spec (hview rule hrule)
  refine ⟨ys.flatten, fun fuel hfuel => ?_, ?_⟩
  · rw [firewallInclude, hys fuel hfuel, Option.map_some]
  · intro source destination protocol port hok
    rw [← any_eq_true, any_flatten_of_forall₂ (hall.imp fun r y hy => hy port hok), aclAllows]

/-- A view with a range, a mapped CIDR selector and a single destination address. -/
def sampleView : ACLView where
  rules := [{ sourceIPs := ["10.0.0.3-10.0.0.9", "::ffff:100.64.0.0/106"], sourceBits := [],
              destinations := [{ ip := "fd7a::1", bits := some 64, ports := ⟨80, 443⟩ }],
              ipProtocols := [6, 58] }]

/-- The agreement at a view with a range, a mapped prefix and an address with a length. -/
theorem sampleView_firewall_agrees :
    ∃ rules, (∀ fuel, 2 ^ 128 ≤ fuel → firewallInclude fuel sampleView.rules = some rules) ∧
      ∀ {source destination : Addr} {protocol : Int} (port : UInt16),
        PacketOK source destination protocol →
        (aclAllows sampleView.rules source destination protocol port = true ↔
          ∃ rule ∈ rules, rule.admits source destination protocol port = true) :=
  aclAllows_iff_firewall_admits sampleView (by decide)

end WgoTailscale
