import Mathlib.Data.String.Basic
import WgoTailscale.AclAgreement

/-!
# Termination of the translation of selectors (`acl.go`)

The loop of `addressRangePrefixes` has two ways to end: its start is above the end of the range, or
the last address of the prefix it has just emitted is that end. `rangeLoop_ends` shows that it does
end: what is left of the range shrinks with every iteration. The one exception is a range whose end
is the last IPv6 address with a zone (`Addr.zonedTop`). No prefix has a zone, so no last address is
equal to that end, and the address after the last one is the invalid address, which is not above it:
the loop never ends (`rangeLoop_endless`). `firewallHostSelectors_ends_iff` says for which selectors
that happens.
-/

namespace WgoTailscale

variable {a start stop : Addr} {n : Nat}

/-- The last IPv6 address, with a zone. -/
def Addr.zonedTop : Addr → Bool
  | .v6 b z => b == BitVec.allOnes 128 && z != ""
  | _ => false

/-! ## One iteration -/

/-- Within a family an address that is not above another has no larger number. -/
theorem Addr.toNat_le_of_compare {b : Addr} (hlen : a.bitLen = b.bitLen) (h : a.compare b ≠ .gt) :
    a.toNat ≤ b.toNat := by
  by_contra hlt
  exact h (Addr.compare_eq_gt.mpr (.inr ⟨hlen, .inl (by omega)⟩))

/-- The prefix of an address, whose zone it drops. -/
theorem prefixFrom_withoutZone (ha : a ≠ .invalid) (hn : n ≤ a.bitLen) :
    (prefixFrom a n).addr = a.withoutZone ∧ (prefixFrom a n).bits = some n := by
  rw [prefixFrom, dif_pos ⟨ha, by omega, by omega⟩]
  exact ⟨rfl, by simp⟩

theorem Addr.toNat_withoutZone (a : Addr) : a.withoutZone.toNat = a.toNat := by cases a <;> rfl

/-- The last address of the prefix that begins at or below an address. -/
theorem lastAddress_spec (hvalid : start ≠ .invalid) (hn : n ≤ start.bitLen) :
    (prefixLastAddress (prefixFrom start n).masked).bitLen = start.bitLen ∧
      (prefixLastAddress (prefixFrom start n).masked).toNat =
        start.toNat / 2 ^ (start.bitLen - n) * 2 ^ (start.bitLen - n) +
          (2 ^ (start.bitLen - n) - 1) := by
  obtain ⟨haddr, hbits⟩ := prefixFrom_withoutZone hvalid hn
  obtain ⟨hmaddr, hmbits⟩ := Prefix.masked_spec hbits
  obtain ⟨-, hlen, hnat⟩ := prefixLastAddress_spec hmbits
  rw [hmaddr, haddr, Addr.bitLen_keepTop, Addr.bitLen_withoutZone] at hlen hnat
  refine ⟨hlen, ?_⟩
  rw [hnat, Addr.toNat_keepTop, Addr.toNat_withoutZone, Addr.bitLen_withoutZone,
    Nat.mul_div_cancel _ (Nat.two_pow_pos _)]

theorem le_lastAddress (hvalid : start ≠ .invalid) (hn : n ≤ start.bitLen) :
    start.toNat ≤ (prefixLastAddress (prefixFrom start n).masked).toNat := by
  have hpos := Nat.two_pow_pos (start.bitLen - n)
  have hmod := Nat.mod_lt start.toNat hpos
  have hdiv := Nat.div_add_mod' start.toNat (2 ^ (start.bitLen - n))
  rw [(lastAddress_spec hvalid hn).2]
  omega

/-- The prefix that the inner loop chooses does not reach beyond the end of the range. -/
theorem lastAddress_widestBits_le (hvalid : start ≠ .invalid) (hfamily : start.bitLen = stop.bitLen)
    (hn : n ≤ start.bitLen)
    (hle : (prefixLastAddress (prefixFrom start n).masked).toNat ≤ stop.toNat) :
    widestBits start stop n ≤ start.bitLen ∧
      (prefixLastAddress (prefixFrom start (widestBits start stop n)).masked).toNat ≤
        stop.toNat := by
  induction n with
  | zero => exact ⟨hn, hle⟩
  | succ n ih =>
    rw [widestBits]
    split
    · exact ⟨hn, hle⟩
    · next hnext =>
      obtain ⟨-, hlast⟩ := not_or.mp hnext
      have hn' : n ≤ start.bitLen := by omega
      have hlen := (lastAddress_spec hvalid hn').1.trans hfamily
      exact ih hn' (Addr.toNat_le_of_compare hlen hlast)

/-- The last address of the prefix that one iteration emits. -/
theorem lastAddress_iteration {start stop : Addr} (hvalid : start ≠ .invalid)
    (hfamily : start.bitLen = stop.bitLen) (hle : start.toNat ≤ stop.toNat) :
    let last := prefixLastAddress
      (prefixFrom start (widestBits start stop start.bitLen)).masked
    last.bitLen = start.bitLen ∧ start.toNat ≤ last.toNat ∧ last.toNat ≤ stop.toNat := by
  have hfull : (prefixLastAddress (prefixFrom start start.bitLen).masked).toNat ≤ stop.toNat := by
    rw [(lastAddress_spec hvalid (le_refl _)).2]
    simpa using hle
  obtain ⟨hbits, hlast⟩ := lastAddress_widestBits_le hvalid hfamily (le_refl _) hfull
  exact ⟨(lastAddress_spec hvalid hbits).1, le_lastAddress hvalid hbits, hlast⟩

theorem zone_prefixLastAddress (p : Prefix) : (prefixLastAddress p).zone = "" := by
  unfold prefixLastAddress
  dsimp only
  split <;> rfl

theorem Addr.zone_next (h : a.zone = "") : a.next.zone = "" := by
  cases a with
  | invalid => rfl
  | v4 b =>
    rw [Addr.next]
    split <;> rfl
  | v6 b z =>
    rw [Addr.next]
    split
    · rfl
    · exact h

/-! ## The loop -/

/-- An address with the number of the last address of its family is that address, if neither has a
zone; so only a zone keeps the loop from meeting the end of its range. -/
theorem eq_of_top {last : Addr} (hlast : last.zone = "") (hlen : last.bitLen = stop.bitLen)
    (hle : last.toNat ≤ stop.toNat) (htop : 2 ^ last.bitLen ≤ last.toNat + 1)
    (hstop : stop.zonedTop = false) : last = stop := by
  have hlt := stop.toNat_lt
  rw [← hlen] at hlt
  have hnat : last.toNat = stop.toNat := by omega
  refine Addr.eq_of_toNat hlast ?_ hlen hnat
  cases stop with
  | invalid => rfl
  | v4 b => rfl
  | v6 b z =>
    have hlen : last.bitLen = 128 := hlen
    have hnat : last.toNat = b.toNat := hnat
    have hb : b = BitVec.allOnes 128 := by
      refine BitVec.eq_of_toNat_eq ?_
      rw [hlen] at htop
      have hb := b.isLt
      rw [BitVec.toNat_allOnes]
      omega
    simp only [Addr.zonedTop, hb, beq_self_eq_true, Bool.true_and, bne_eq_false_iff_eq] at hstop
    exact hstop

/-- The loop ends, unless the end of its range is the last IPv6 address with a zone: with every
iteration less of the range is left. -/
theorem rangeLoop_ends (hstop : stop.zonedTop = false) :
    ∀ {start : Addr}, start ≠ .invalid → start.bitLen = stop.bitLen →
      stop.toNat + 1 - start.toNat < n → rangeLoop stop n start ≠ none := by
  induction n with
  | zero => intro start _ _ hn; omega
  | succ n ih =>
    intro start hvalid hfamily hn
    rw [rangeLoop]
    split
    · simp
    · next hle =>
      have hle := Addr.toNat_le_of_compare hfamily hle
      obtain ⟨hlen, hstart, hlast⟩ := lastAddress_iteration hvalid hfamily hle
      have hzone := zone_prefixLastAddress
        (prefixFrom start (widestBits start stop start.bitLen)).masked
      dsimp only
      generalize prefixLastAddress (prefixFrom start (widestBits start stop start.bitLen)).masked =
        last at hlen hstart hlast hzone
      split
      · simp
      · next hne =>
        have htop : last.toNat + 1 < 2 ^ last.bitLen := by
          by_contra hge
          exact hne (eq_of_top hzone (hlen.trans hfamily) hlast (by omega) hstop)
        have hlastValid : last ≠ .invalid := by
          intro h0
          rw [h0] at hlen
          exact hvalid (Addr.bitLen_eq_zero.mp hlen.symm)
        obtain ⟨hnext, -, hnextLen, hnextNat⟩ := Addr.next_spec hlastValid htop
        have hrest := ih hnext (hnextLen.trans (hlen.trans hfamily)) (by omega)
        simpa using hrest

/-- No text is below the empty one. -/
theorem compare_empty (z : String) : Ord.compare "" z ≠ .gt := by
  have hle : "" ≤ z := by
    rw [String.le_iff_toList_le]
    exact not_lt.mp (List.not_lt_nil _)
  rwa [← compare_le_iff_le] at hle

/-- No address without a zone is above the last IPv6 address. -/
theorem Addr.compare_top {a : Addr} (h : a.zone = "") (z : String) :
    a.compare (.v6 (BitVec.allOnes 128) z) ≠ .gt := by
  intro hgt
  rcases Addr.compare_eq_gt.mp hgt with hlen | ⟨hlen, hnat | ⟨-, hzone⟩⟩
  · cases a <;> simp [Addr.bitLen] at hlen
  · have hlt := a.toNat_lt
    rw [hlen] at hlt
    have htop : (Addr.v6 (BitVec.allOnes 128) z).toNat = 2 ^ 128 - 1 := BitVec.toNat_allOnes
    simp only [Addr.bitLen] at hlt
    omega
  · rw [h] at hzone
    exact compare_empty z hzone

/-- The loop does not end if the end of its range is the last IPv6 address with a zone. The start of
every iteration but the first has no zone, so it is never above that end. -/
theorem rangeLoop_endless {z : String} (hz : z ≠ "") {fuel : Nat} :
    ∀ {start : Addr}, start.compare (.v6 (BitVec.allOnes 128) z) ≠ .gt →
      rangeLoop (.v6 (BitVec.allOnes 128) z) fuel start = none := by
  induction fuel with
  | zero => intro start _; rfl
  | succ fuel ih =>
    intro start hle
    rw [rangeLoop, if_neg hle]
    have hzone := zone_prefixLastAddress (prefixFrom start
      (widestBits start (.v6 (BitVec.allOnes 128) z) start.bitLen)).masked
    rw [if_neg, ih (Addr.compare_top (Addr.zone_next hzone) z), Option.map_none]
    intro hlast
    rw [hlast] at hzone
    exact hz hzone

/-! ## Selectors -/

/-- Is a selector a range that ends at the last IPv6 address with a zone, and begins at an IPv6
address that is not above it? -/
def endlessRange (raw : String) : Bool :=
  !decide ('/' ∈ raw.toList) && (cut raw '-').any fun (first, last) =>
    match parseAddr first, parseAddr last with
    | some start, some stop =>
      stop.zonedTop && decide (start.unmap.bitLen = 128) && start.unmap.compare stop ≠ .gt
    | _, _ => false

theorem Addr.unmap_zonedTop {a : Addr} (h : a.zonedTop = true) :
    a.unmap = a ∧ ∃ z, z ≠ "" ∧ a = .v6 (BitVec.allOnes 128) z := by
  cases a with
  | invalid | v4 => cases h
  | v6 b z =>
    simp only [Addr.zonedTop, Bool.and_eq_true, beq_iff_eq, bne_iff_ne] at h
    obtain ⟨rfl, hz⟩ := h
    exact ⟨Addr.unmap_of_not_mapped rfl, z, hz, rfl⟩

theorem Addr.zonedTop_unmap (a : Addr) : a.unmap.zonedTop = a.zonedTop := by
  cases h : a.zonedTop with
  | true => rw [(Addr.unmap_zonedTop h).1, h]
  | false =>
    cases h4 : a.is4In6 with
    | false => rw [Addr.unmap_of_not_mapped h4, h]
    | true =>
      obtain ⟨b, hb⟩ := Addr.unmap_of_mapped h4
      rw [hb]
      rfl

/-- The translation of a range ends exactly if it is not such a range. -/
theorem addressRangePrefixes_ends_iff {start : Addr} (hvalid : start.isValid = true)
    (stop : Addr) :
    (∃ fuel, addressRangePrefixes fuel start stop ≠ none) ↔
      ¬ (stop.zonedTop = true ∧ start.unmap.bitLen = 128 ∧ start.unmap.compare stop ≠ .gt) := by
  have hstart := Addr.isValid_unmap hvalid
  unfold addressRangePrefixes
  constructor
  · rintro ⟨fuel, hfuel⟩ ⟨htop, hlen, hle⟩
    obtain ⟨hunmap, z, hz, rfl⟩ := Addr.unmap_zonedTop htop
    have hguard : ¬ (¬ start.unmap.isValid = true ∨
        start.unmap.bitLen ≠ (Addr.v6 (BitVec.allOnes 128) z).bitLen ∨
        start.unmap.compare (.v6 (BitVec.allOnes 128) z) = .gt) := by
      simp only [hstart, hlen, hle, not_true_eq_false, false_or, or_false]
      exact not_not.mpr rfl
    rw [hunmap, if_neg hguard] at hfuel
    exact hfuel (rangeLoop_endless hz hle)
  · intro hnot
    by_cases hguard : ¬ start.unmap.isValid = true ∨ start.unmap.bitLen ≠ stop.unmap.bitLen ∨
        start.unmap.compare stop.unmap = .gt
    · exact ⟨0, by rw [if_pos hguard]; simp⟩
    · obtain ⟨-, hrest⟩ := not_or.mp hguard
      obtain ⟨hfamily, hle⟩ := not_or.mp hrest
      have htop : stop.unmap.zonedTop = false := by
        rw [Addr.zonedTop_unmap, Bool.eq_false_iff]
        intro htop
        obtain ⟨hunmap, z, -, rfl⟩ := Addr.unmap_zonedTop htop
        rw [hunmap] at hfamily hle
        exact hnot ⟨htop, not_not.mp hfamily, hle⟩
      refine ⟨stop.unmap.toNat + 2, ?_⟩
      rw [if_neg hguard]
      exact rangeLoop_ends htop (Addr.ne_invalid_of_isValid hstart) (not_not.mp hfamily) (by omega)

/-- The range branch of `firewallHostSelectors` ends exactly if it is not given such a range. -/
theorem rangeSelectors_end_iff {start : Addr} (hvalid : start.isValid = true) (stop : Addr) :
    (∃ fuel, (if start.unmap.bitLen ≠ stop.unmap.bitLen ∨ start.unmap.compare stop.unmap = .gt then
        some [] else (addressRangePrefixes fuel start.unmap stop.unmap).map fun ps =>
          ps.map Prefix.toText) ≠ none) ↔
      ¬ (stop.zonedTop = true ∧ start.unmap.bitLen = 128 ∧ start.unmap.compare stop ≠ .gt) := by
  by_cases hguard : start.unmap.bitLen ≠ stop.unmap.bitLen ∨ start.unmap.compare stop.unmap = .gt
  · simp only [if_pos hguard, ne_eq, reduceCtorEq, not_false_eq_true, exists_const, true_iff]
    rintro ⟨htop, hlen, hle⟩
    obtain ⟨hunmap, z, -, rfl⟩ := Addr.unmap_zonedTop htop
    rw [hunmap] at hguard
    rcases hguard with hfamily | hgt
    · exact hfamily hlen
    · exact hle hgt
  · have hends := addressRangePrefixes_ends_iff (Addr.isValid_unmap hvalid) stop.unmap
    rw [Addr.unmap_unmap, Addr.zonedTop_unmap] at hends
    simp only [if_neg hguard, ne_eq, Option.map_eq_none_iff]
    refine hends.trans (not_congr (and_congr_right fun htop => ?_))
    rw [(Addr.unmap_zonedTop htop).1]

/-- The translation of a selector ends exactly if the selector is not such a range. -/
theorem firewallHostSelectors_ends_iff (raw : String) (bits : Int) :
    (∃ fuel, firewallHostSelectors fuel raw bits ≠ none) ↔ endlessRange raw = false := by
  unfold firewallHostSelectors endlessRange
  by_cases hstar : raw = "*"
  · subst hstar
    exact iff_of_true ⟨0, by simp⟩ (by decide)
  by_cases hslash : '/' ∈ raw.toList
  · simp only [if_neg hstar, hslash, if_true, decide_true, Bool.not_true, Bool.false_and, iff_true]
    exact ⟨0, by cases parsePrefix raw <;> simp⟩
  simp only [if_neg hstar, hslash, if_false, decide_false, Bool.not_false, Bool.true_and]
  cases cut raw '-' with
  | none =>
    refine iff_of_true ⟨0, ?_⟩ rfl
    cases parseAddr raw with
    | none => simp
    | some address =>
      dsimp only
      split
      · simp
      · cases (unmapAddressBits address bits).1.toPrefix (unmapAddressBits address bits).2 <;> simp
  | some ends =>
    obtain ⟨first, last⟩ := ends
    simp only [Option.any_some]
    cases hfirst : parseAddr first with
    | none => exact iff_of_true ⟨0, by simp⟩ rfl
    | some start =>
      cases parseAddr last with
      | none => exact iff_of_true ⟨0, by simp⟩ rfl
      | some stop =>
        refine (rangeSelectors_end_iff (isValid_of_parseAddr hfirst) stop).trans ?_
        simp only [Bool.and_eq_false_iff, decide_eq_false_iff_not, not_and_or,
          Bool.not_eq_true, or_assoc]

/-- The translation of the range of all IPv6 addresses does not end if its end has a zone. -/
theorem zoned_range_never_ends : ¬ ∃ fuel bits, firewallHostSelectors fuel
    "::-ffff:ffff:ffff:ffff:ffff:ffff:ffff:ffff%eth0" bits ≠ none := by
  rintro ⟨fuel, bits, hends⟩
  have hslash : '/' ∉ "::-ffff:ffff:ffff:ffff:ffff:ffff:ffff:ffff%eth0".toList := by decide
  have hcut : cut "::-ffff:ffff:ffff:ffff:ffff:ffff:ffff:ffff%eth0" '-' =
      some ("::", "ffff:ffff:ffff:ffff:ffff:ffff:ffff:ffff%eth0") := by decide
  have hfirst : parseAddr "::" = some (.v6 0 "") := by decide +kernel
  have hlast : parseAddr "ffff:ffff:ffff:ffff:ffff:ffff:ffff:ffff%eth0" =
      some (.v6 (BitVec.allOnes 128) "eth0") := by decide +kernel
  have hle : Addr.compare (Addr.unmap (.v6 0 "")) (.v6 (BitVec.allOnes 128) "eth0") ≠ .gt :=
    Addr.compare_top rfl "eth0"
  have hvalid : (Addr.v6 0 "").isValid = true := rfl
  have hendless := rangeSelectors_end_iff hvalid (.v6 (BitVec.allOnes 128) "eth0")
  unfold firewallHostSelectors at hends
  rw [if_neg (by decide), if_neg hslash, hcut] at hends
  dsimp only at hends
  rw [hfirst, hlast] at hends
  exact hendless.mp ⟨fuel, hends⟩ ⟨by decide, rfl, hle⟩

end WgoTailscale
