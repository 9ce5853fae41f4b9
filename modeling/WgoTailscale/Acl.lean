import WgoTailscale.ControlProto
import WgoTailscale.NetipText

/-!
# Packet filters (`acl.go`)

The client evaluates the control server's packet filter in two ways. `aclAllows` interprets the
selectors of each rule directly on an address; `firewallInclude` translates the rules into a
`gonnect` incoming policy, whose rules name hosts by canonical texts. A selector is the wildcard,
a CIDR prefix, a range of two addresses or an address with an optional prefix length.

The loop of `addressRangePrefixes` has no bound in the source, so the functions over it take the
number of iterations they may use and answer `none` when it does not suffice.
-/

namespace WgoTailscale

/-! ## Rules as the view holds them (`types.go`) -/

/-- `ACLDestination`. -/
structure ACLDestination where
  ip : String
  bits : Option Int := none
  ports : PortRange
  deriving DecidableEq, Repr

/-- `ACLRule`. -/
structure ACLRule where
  sourceIPs : List String
  sourceBits : List Int := []
  destinations : List ACLDestination
  ipProtocols : List Int := []
  capabilityGrants : List RawMessage := []
  deriving DecidableEq

/-- `ACLView`. -/
structure ACLView where
  rules : List ACLRule
  namedRules : FinMap String (List ACLRule) := ∅
  revision : Nat := 0

/-! ## Go's string and slice helpers -/

/-- `strings.Cut` at a single character. -/
def cut (s : String) (sep : Char) : Option (String × String) :=
  match s.toList.dropWhile (· ≠ sep) with
  | [] => none
  | _ :: after => some (String.ofList (s.toList.takeWhile (· ≠ sep)), String.ofList after)

/-- `slices.Compact`: of each run of equal elements only the first is kept. -/
def compact {α : Type} [DecidableEq α] : List α → List α
  | [] => []
  | [a] => [a]
  | a :: b :: l => if a = b then compact (b :: l) else a :: compact (b :: l)

@[simp] theorem mem_compact {α : Type} [DecidableEq α] {a : α} {l : List α} :
    a ∈ compact l ↔ a ∈ l := by
  induction l with
  | nil => rfl
  | cons b l ih =>
    cases l with
    | nil => rfl
    | cons c l =>
      rw [compact]
      split
      · next h => subst h; simp [ih]
      · simp [ih]

theorem sublist_compact {α : Type} [DecidableEq α] (l : List α) : (compact l).Sublist l := by
  induction l with
  | nil => exact .slnil
  | cons a l ih =>
    cases l with
    | nil => exact .refl _
    | cons b l =>
      rw [compact]
      split
      · exact ih.cons a
      · exact ih.cons_cons a

/-- `slices.Compact` leaves one of each element exactly if no element stands between two equal ones
that differ from it. -/
theorem nodup_compact_iff {α : Type} [DecidableEq α] {l : List α} :
    (compact l).Nodup ↔ ∀ a b, [a, b, a].Sublist l → a = b := by
  induction l with
  | nil => simp [compact]
  | cons a l ih =>
    cases l with
    | nil => simp [compact]
    | cons b l =>
      rw [compact]
      split
      · next heq =>
        -- the first element is dropped, and it begins nothing that its neighbour does not begin
        subst heq
        refine ih.trans (forall₂_congr fun x y => ⟨fun h hsub => ?_, fun h hsub => h (hsub.cons a)⟩)
        cases hsub with
        | cons _ hsub => exact h hsub
        | cons_cons _ hsub =>
          cases hsub with
          | cons _ hsub => exact h (hsub.cons_cons a)
          | cons_cons _ _ => rfl
      · next hne =>
        rw [List.nodup_cons, ih, mem_compact]
        constructor
        · rintro ⟨hnot, h⟩ x y hsub
          cases hsub with
          | cons _ hsub => exact h x y hsub
          | cons_cons _ hsub => exact absurd (hsub.subset (by simp)) hnot
        · refine fun h => ⟨fun hmem => hne (h a b ?_), fun x y hsub => h x y (hsub.cons a)⟩
          have hmem := (List.mem_cons.mp hmem).resolve_left hne
          exact ((List.singleton_sublist.mpr hmem).cons_cons b).cons_cons a

/-- In a sorted list without ties `slices.Compact` leaves one of each element. -/
theorem nodup_compact {α : Type} [DecidableEq α] {R : α → α → Prop} {l : List α}
    (hsorted : l.Pairwise R) (hanti : ∀ a ∈ l, ∀ b ∈ l, R a b → R b a → a = b) :
    (compact l).Nodup := by
  refine nodup_compact_iff.mpr fun a b hsub => ?_
  have hpairs := hsorted.sublist hsub
  simp only [List.pairwise_cons, List.mem_cons, List.not_mem_nil, or_false, forall_eq_or_imp,
    forall_eq] at hpairs
  exact hanti a (hsub.subset (by simp)) b (hsub.subset (by simp)) hpairs.1.1 hpairs.2.1

/-- A list without repetitions is left as it is. -/
theorem compact_of_nodup {α : Type} [DecidableEq α] {l : List α} (h : l.Nodup) : compact l = l := by
  induction l with
  | nil => rfl
  | cons a l ih =>
    cases l with
    | nil => rfl
    | cons b l =>
      obtain ⟨hne, hrest⟩ := List.nodup_cons.mp h
      rw [compact, if_neg, ih hrest]
      rintro rfl
      exact hne List.mem_cons_self

/-! ## Direct evaluation -/

/-- `unmapAddressBits`. -/
def unmapAddressBits (address : Addr) (bits : Int) : Addr × Int :=
  (address.unmap, if address.is4In6 ∧ 96 ≤ bits then bits - 96 else bits)

/-- `matchesIP`. -/
def matchesIP (raw : String) (bits : Int) (address : Addr) : Bool :=
  let address := address.unmap
  if raw = "*" then true
  else if '/' ∈ raw.toList then
    match parsePrefix raw with
    | some p => (unmapPrefix p).contains address
    | none => false
  else match cut raw '-' with
  | some (first, last) =>
    match parseAddr first, parseAddr last with
    | some start, some stop =>
      let start := start.unmap
      let stop := stop.unmap
      if start.bitLen ≠ address.bitLen ∨ stop.bitLen ≠ address.bitLen then false
      else start.compare address ≠ .gt ∧ address.compare stop ≠ .gt
    | _, _ => false
  | none =>
    match parseAddr raw with
    | none => false
    | some base =>
      if bits < 0 then base.unmap = address.unmap
      else
        let (base, bits) := unmapAddressBits base bits
        match base.toPrefix bits with
        | some p => p.contains address
        | none => false

/-- The source selectors of a rule with their prefix lengths, `-1` where the rule gives none. -/
def sourceSelectors (rule : ACLRule) : List (String × Int) :=
  rule.sourceIPs.zipIdx.map fun (raw, index) => (raw, rule.sourceBits[index]?.getD (-1))

/-- `matchesSource`. -/
def matchesSource (rule : ACLRule) (address : Addr) : Bool :=
  (sourceSelectors rule).any fun (raw, bits) => matchesIP raw bits address

/-- The protocols of a rule that names none: ICMP, TCP, UDP and ICMPv6. -/
def defaultProtocols : List Int := [1, 6, 17, 58]

/-- `matchesProtocol`. -/
def matchesProtocol (rule : ACLRule) (protocol : Int) : Bool :=
  if rule.ipProtocols.isEmpty then
    protocol = 1 ∨ protocol = 6 ∨ protocol = 17 ∨ protocol = 58
  else rule.ipProtocols.contains protocol

/-- `matchesDestination`. -/
def matchesDestination (target : ACLDestination) (address : Addr) (port : UInt16) : Bool :=
  matchesIP target.ip (target.bits.getD (-1)) address &&
    (target.ports.first ≤ port ∧ port ≤ target.ports.last)

/-- `Client.ACLAllows`, on the rules of the view. -/
def aclAllows (rules : List ACLRule) (source destination : Addr) (protocol : Int)
    (port : UInt16) : Bool :=
  rules.any fun rule =>
    matchesSource rule source && matchesProtocol rule protocol &&
      rule.destinations.any (matchesDestination · destination port)

/-! ## Ranges as prefixes -/

/-- The host bits of a `w`-bit address below a prefix of the given length. -/
def hostBits (w prefixBits : Nat) : BitVec w := BitVec.allOnes w >>> prefixBits

/-- `prefixLastAddress`. On an invalid prefix the loop of `setHostBits` starts at bit `-1` of an
all-zero IPv6 address and sets every bit. -/
def prefixLastAddress (p : Prefix) : Addr :=
  let p := p.masked
  match p.addr, p.bits with
  | .v4 b, some n => .v4 (b ||| hostBits 32 n)
  | .v6 b _, some n => .v6 (b ||| hostBits 128 n) ""
  | _, _ => .v6 (BitVec.allOnes 128) ""

/-- The inner loop of `addressRangePrefixes`: the length is lowered while the next shorter prefix
still begins at `start` and still ends by `stop`. -/
def widestBits (start stop : Addr) : Nat → Nat
  | 0 => 0
  | prefixBits + 1 =>
    let candidate := (prefixFrom start prefixBits).masked
    if candidate.addr ≠ start ∨ (prefixLastAddress candidate).compare stop = .gt then prefixBits + 1
    else widestBits start stop prefixBits

/-- The outer loop of `addressRangePrefixes`, with its number of iterations bounded. -/
def rangeLoop (stop : Addr) : Nat → Addr → Option (List Prefix)
  | 0, _ => none
  | fuel + 1, start =>
    if start.compare stop = .gt then some []
    else
      let p := (prefixFrom start (widestBits start stop start.bitLen)).masked
      let last := prefixLastAddress p
      if last = stop then some [p] else (rangeLoop stop fuel last.next).map (p :: ·)

/-- `addressRangePrefixes`. -/
def addressRangePrefixes (fuel : Nat) (start stop : Addr) : Option (List Prefix) :=
  let start := start.unmap
  let stop := stop.unmap
  if ¬ start.isValid ∨ start.bitLen ≠ stop.bitLen ∨ start.compare stop = .gt then some []
  else rangeLoop stop fuel start

/-! ## Translation to a firewall policy -/

/-- `gonnect.FirewallRule`. -/
structure FirewallRule where
  network : String
  hosts : List String
  localHosts : List String
  ports : List UInt16 := []
  portRanges : List PortRange := []
  deriving DecidableEq, Repr

/-- `firewallHostSelectors`. -/
def firewallHostSelectors (fuel : Nat) (raw : String) (bits : Int) : Option (List String) :=
  if raw = "*" then some ["*"]
  else if '/' ∈ raw.toList then
    match parsePrefix raw with
    | none => some []
    | some p => some [(unmapPrefix p).masked.toText]
  else match cut raw '-' with
  | some (first, last) =>
    match parseAddr first, parseAddr last with
    | some start, some stop =>
      let start := start.unmap
      let stop := stop.unmap
      if start.bitLen ≠ stop.bitLen ∨ start.compare stop = .gt then some []
      else (addressRangePrefixes fuel start stop).map fun ps => ps.map Prefix.toText
    | _, _ => some []
  | none =>
    match parseAddr raw with
    | none => some []
    | some address =>
      let (address, bits) := unmapAddressBits address bits
      if bits < 0 then some [address.toText]
      else match address.toPrefix bits with
        | none => some []
        | some p => some [p.masked.toText]

/-- `firewallSourceHosts`. -/
def firewallSourceHosts (fuel : Nat) (rule : ACLRule) : Option (List String) :=
  ((sourceSelectors rule).mapM fun (raw, bits) => firewallHostSelectors fuel raw bits).map
    List.flatten

/-- The `gonnect` name of a protocol number. -/
def networkName (protocol : Int) : String :=
  if protocol = 6 then "tcp" else if protocol = 17 then "udp" else "ip:" ++ toString protocol

/-- `firewallNetworks`. -/
def firewallNetworks (protocols : List Int) : List String :=
  let protocols := if protocols.isEmpty then defaultProtocols else protocols
  compact ((protocols.filter fun p => 0 ≤ p ∧ p ≤ 255).map networkName)

/-- The ports part of a rule: the full range is no restriction, one port is named alone. -/
def firewallPorts (ports : PortRange) : List UInt16 × List PortRange :=
  if ports.first = 0 ∧ ports.last = 65535 then ([], [])
  else if ports.first = ports.last then ([ports.first], [])
  else ([], [ports])

/-- The rules `FirewallConfig` emits for one destination. -/
def destinationInclude (fuel : Nat) (hosts networks : List String)
    (destination : ACLDestination) : Option (List FirewallRule) :=
  (firewallHostSelectors fuel destination.ip (destination.bits.getD (-1))).map fun localHosts =>
    if localHosts.isEmpty ∨ destination.ports.last < destination.ports.first then []
    else networks.map fun network =>
      { network, hosts, localHosts, ports := (firewallPorts destination.ports).1,
        portRanges := (firewallPorts destination.ports).2 }

/-- The rules `FirewallConfig` emits for one rule of the view. -/
def ruleInclude (fuel : Nat) (rule : ACLRule) : Option (List FirewallRule) :=
  (firewallSourceHosts fuel rule).bind fun hosts =>
    if hosts.isEmpty then some []
    else (rule.destinations.mapM
      (destinationInclude fuel hosts (firewallNetworks rule.ipProtocols))).map List.flatten

/-- The `Include` list that `ACLView.FirewallConfig` builds before `Optimize`. -/
def firewallInclude (fuel : Nat) (rules : List ACLRule) : Option (List FirewallRule) :=
  (rules.mapM (ruleInclude fuel)).map List.flatten

/-! ## What a `gonnect` rule admits -/

/-- A host selector text contains an address: `*` contains all, a text with a slash is the prefix
it prints, any other the address it prints. -/
def selectorContains (selector : String) (address : Addr) : Bool :=
  if selector = "*" then true
  else if '/' ∈ selector.toList then
    match parsePrefix selector with
    | some p => p.contains address
    | none => false
  else parseAddr selector = some address

/-- A network name names a protocol number: `tcp`, `udp`, or `ip:` and the number. -/
def networkNames (network : String) (protocol : Int) : Bool :=
  (network = "tcp" ∧ protocol = 6) ∨ (network = "udp" ∧ protocol = 17) ∨
    network = "ip:" ++ toString protocol

/-- A firewall rule admits an incoming packet. -/
def FirewallRule.admits (rule : FirewallRule) (source destination : Addr) (protocol : Int)
    (port : UInt16) : Bool :=
  networkNames rule.network protocol && rule.hosts.any (selectorContains · source.unmap) &&
    rule.localHosts.any (selectorContains · destination.unmap) &&
    ((rule.ports.isEmpty && rule.portRanges.isEmpty) || rule.ports.contains port ||
      rule.portRanges.any fun r => r.first ≤ port ∧ port ≤ r.last)

end WgoTailscale
