import WgoTailscale.Acl
import WgoTailscale.Lib.Dyadic

/-!
# A range of addresses as prefixes (`acl.go`, `addressRangePrefixes`)

Within a family a prefix is a dyadic block of numbers (`Prefix.block`), and the inner loop of
`addressRangePrefixes` finds the widest block that begins at an address and stays in the range
(`tile_widestBits`). So the prefixes that the loop emits are a greedy cover of the range
(`RangeTiles`): the loop ends, the prefixes follow each other without a gap from the first to the
last address of the range, and no list of prefixes with the same addresses is shorter
(`address_range_prefixes`).
-/

namespace WgoTailscale

/-! ## The last address of a prefix -/

/-- Setting the host bits of a masked number is adding them. -/
theorem toNat_or_hostBits {w n : Nat} (hn : n ≤ w) (b : BitVec w) :
    (((b >>> (w - n)) <<< (w - n)) ||| hostBits w n).toNat =
      b.toNat / 2 ^ (w - n) * 2 ^ (w - n) + (2 ^ (w - n) - 1) := by
  have hlow : (hostBits w n).toNat = 2 ^ (w - n) - 1 := by
    have hpow : 2 ^ w = 2 ^ n * 2 ^ (w - n) := by rw [← Nat.pow_add]; congr 1; omega
    have hdiv := Nat.mul_sub_div 0 (2 ^ n) (2 ^ (w - n)) (by positivity)
    rw [hostBits, BitVec.toNat_ushiftRight, BitVec.toNat_allOnes, Nat.shiftRight_eq_div_pow, hpow]
    simpa using hdiv
  have hhigh : ((b >>> (w - n)) <<< (w - n)).toNat = b.toNat / 2 ^ (w - n) * 2 ^ (w - n) := by
    rw [BitVec.toNat_shiftLeft, BitVec.toNat_ushiftRight, Nat.shiftRight_eq_div_pow,
      Nat.shiftLeft_eq, Nat.mod_eq_of_lt]
    exact lt_of_le_of_lt (Nat.div_mul_le_self _ _) b.isLt
  rw [BitVec.toNat_or, hlow, hhigh, Nat.mul_comm, Nat.two_pow_add_eq_or_of_lt]
  exact Nat.sub_lt (Nat.two_pow_pos _) (by decide)

/-- The last address of a prefix. -/
theorem prefixLastAddress_spec {p : Prefix} {n : Nat} (hn : p.bits = some n) :
    (prefixLastAddress p).zone = "" ∧ (prefixLastAddress p).bitLen = p.addr.bitLen ∧
      (prefixLastAddress p).toNat = p.addr.toNat / 2 ^ (p.addr.bitLen - n) *
        2 ^ (p.addr.bitLen - n) + (2 ^ (p.addr.bitLen - n) - 1) := by
  obtain ⟨hne, hle⟩ := p.bits_le n hn
  obtain ⟨haddr, hbits⟩ := Prefix.masked_spec hn
  simp only [prefixLastAddress, haddr, hbits]
  cases hp : p.addr with
  | invalid => exact absurd hp hne
  | v4 b | v6 b z =>
    rw [hp] at hle
    exact ⟨rfl, rfl, toNat_or_hostBits hle b⟩

/-! ## Prefixes as blocks -/

/-- The block of numbers that a valid prefix stands for in its family. -/
def Prefix.block (p : Prefix) : Option DyadicBlock :=
  p.bits.map fun n => ⟨p.addr.bitLen - n, p.addr.toNat / 2 ^ (p.addr.bitLen - n)⟩

section
variable {p : Prefix} {b : DyadicBlock} {a start stop : Addr} {n : Nat}

theorem Prefix.contains_iff_mem (h : p.block = some b) (hz : a.zone = "") :
    p.contains a = true ↔ a.bitLen = p.addr.bitLen ∧ a.toNat ∈ b := by
  obtain ⟨n, hn, rfl⟩ := Option.map_eq_some_iff.mp h
  exact Prefix.contains_iff hn hz

/-- A prefix contains no address with a zone. -/
theorem Prefix.zone_of_contains (h : p.contains a = true) : a.zone = "" := by
  unfold Prefix.contains at h
  split at h
  · cases h
  split at h
  · cases h
  · next hzone => exact Addr.zone_of_hasZone (Bool.eq_false_of_not_eq_true hzone)

theorem Prefix.isValid_of_block (h : p.block = some b) : p.isValid = true := by
  obtain ⟨n, hn, -⟩ := Option.map_eq_some_iff.mp h
  rw [Prefix.isValid, hn]
  rfl

theorem Prefix.level_le (h : p.block = some b) : b.level ≤ p.addr.bitLen := by
  obtain ⟨n, -, rfl⟩ := Option.map_eq_some_iff.mp h
  exact Nat.sub_le _ _

/-- The last address of a prefix is the last of its block. -/
theorem prefixLastAddress_block (h : p.block = some b) : (prefixLastAddress p).zone = "" ∧
    (prefixLastAddress p).bitLen = p.addr.bitLen ∧ (prefixLastAddress p).toNat = b.last := by
  obtain ⟨n, hn, rfl⟩ := Option.map_eq_some_iff.mp h
  exact prefixLastAddress_spec hn

/-- An address begins a block of prefixes of `n` bits when its host bits are zero. -/
theorem keepTop_eq_self (hz : start.zone = "") :
    start.keepTop n = start ↔ 2 ^ (start.bitLen - n) ∣ start.toNat := by
  have hnat := Addr.toNat_keepTop start n
  constructor
  · intro heq
    rw [heq] at hnat
    exact Dvd.intro_left _ hnat.symm
  · intro hdvd
    rw [Nat.div_mul_cancel hdvd] at hnat
    exact Addr.eq_of_toNat ((Addr.zone_keepTop _ _).trans hz) hz (Addr.bitLen_keepTop _ _) hnat

theorem Prefix.masked_masked (p : Prefix) : p.masked.masked = p.masked := by
  cases hn : p.bits with
  | none =>
    have hzero : p.masked = .zero := by rw [Prefix.masked, hn]
    rw [hzero]
    rfl
  | some n =>
    obtain ⟨haddr, hbits⟩ := Prefix.masked_spec hn
    obtain ⟨haddr', hbits'⟩ := Prefix.masked_spec hbits
    refine Prefix.ext ?_ (hbits'.trans hbits.symm)
    have hzone : (p.addr.keepTop n).zone = "" := (Addr.zone_keepTop _ _).trans p.zone_eq
    rw [haddr', haddr, keepTop_eq_self hzone, Addr.bitLen_keepTop, Addr.toNat_keepTop]
    exact Dvd.intro_left _ rfl

/-- The masked prefix of a length that an address has. -/
theorem masked_prefixFrom (hvalid : start ≠ .invalid) (hz : start.zone = "")
    (hn : n ≤ start.bitLen) : (prefixFrom start n).masked.addr = start.keepTop n ∧
      (prefixFrom start n).masked.block =
        some ⟨start.bitLen - n, start.toNat / 2 ^ (start.bitLen - n)⟩ := by
  obtain ⟨hpaddr, hpbits⟩ := prefixFrom_spec hvalid hz hn
  obtain ⟨hmaddr, hmbits⟩ := Prefix.masked_spec hpbits
  rw [hpaddr] at hmaddr
  refine ⟨hmaddr, ?_⟩
  rw [Prefix.block, hmbits, Option.map_some, hmaddr, Addr.bitLen_keepTop, Addr.toNat_keepTop,
    Nat.mul_div_cancel _ (Nat.two_pow_pos _)]

end

/-! ## The inner loop -/

/-- A prefix of `n` bits begins at `start` and ends by `stop`. -/
def Fits (start stop : Addr) (n : Nat) : Prop :=
  2 ^ (start.bitLen - n) ∣ start.toNat ∧ start.toNat + 2 ^ (start.bitLen - n) ≤ stop.toNat + 1

section
variable {start stop : Addr} {n : Nat} (hvalid : start ≠ .invalid) (hz : start.zone = "")
  (hz' : stop.zone = "") (hfamily : start.bitLen = stop.bitLen)
include hvalid hz hz' hfamily

/-- The test of the inner loop. -/
theorem fits_iff (hn : n ≤ start.bitLen) :
    ¬ ((prefixFrom start n).masked.addr ≠ start ∨
      (prefixLastAddress (prefixFrom start n).masked).compare stop = .gt) ↔ Fits start stop n := by
  obtain ⟨haddr, hblock⟩ := masked_prefixFrom hvalid hz hn
  obtain ⟨hlz, hllen, hlnat⟩ := prefixLastAddress_block hblock
  rw [haddr, Addr.bitLen_keepTop] at hllen
  have hpos := Nat.two_pow_pos (start.bitLen - n)
  rw [not_or, not_not, haddr, keepTop_eq_self hz, Addr.compare_gt_iff hlz hz' (hllen.trans hfamily),
    hlnat]
  refine and_congr_right fun hdvd => ?_
  rw [DyadicBlock.last, DyadicBlock.first, Nat.div_mul_cancel hdvd]
  dsimp only
  omega

/-- The inner loop stops at a length that fits, when the next shorter one does not. -/
theorem widestBits_spec (hn : n ≤ start.bitLen) (hfits : Fits start stop n) :
    widestBits start stop n ≤ n ∧ Fits start stop (widestBits start stop n) ∧
      ∀ m, widestBits start stop n = m + 1 → ¬ Fits start stop m := by
  induction n with
  | zero => exact ⟨le_rfl, hfits, nofun⟩
  | succ n ih =>
    have htest := fits_iff hvalid hz hz' hfamily (show n ≤ start.bitLen by omega)
    rw [widestBits]
    split
    · next hstop =>
      refine ⟨le_rfl, hfits, fun m hm => ?_⟩
      obtain rfl : n = m := by omega
      exact fun h => htest.mpr h hstop
    · next hgo =>
      obtain ⟨hle, hrest⟩ := ih (by omega) (htest.mp hgo)
      exact ⟨by omega, hrest⟩

end

/-! ## The prefixes of a range -/

/-- A prefix of the loop: the widest block that begins at its address and stays in the range. -/
structure Tile (stop : Addr) (p : Prefix) (b : DyadicBlock) : Prop where
  block : p.block = some b
  masked : p.masked = p
  addr_ne : p.addr ≠ .invalid
  family : p.addr.bitLen = stop.bitLen
  first : b.first = p.addr.toNat
  widest : Widest stop.bitLen stop.toNat b
  last_le : b.last ≤ stop.toNat

/-- The prefixes that the loop emits from `start` on. -/
inductive RangeTiles (stop : Addr) : Addr → List Prefix → Prop
  | last {p : Prefix} {b : DyadicBlock} : Tile stop p b → prefixLastAddress p = stop →
      RangeTiles stop p.addr [p]
  | cons {p : Prefix} {b : DyadicBlock} {ps : List Prefix} : Tile stop p b →
      prefixLastAddress p ≠ stop → RangeTiles stop (prefixLastAddress p).next ps →
      RangeTiles stop p.addr (p :: ps)

section
variable {start stop : Addr} {p : Prefix} {b : DyadicBlock} {ps : List Prefix}

/-- The prefix of one iteration. -/
theorem tile_widestBits (hvalid : start ≠ .invalid) (hz : start.zone = "") (hz' : stop.zone = "")
    (hfamily : start.bitLen = stop.bitLen) (hle : start.toNat ≤ stop.toNat) :
    (prefixFrom start (widestBits start stop start.bitLen)).masked.addr = start ∧
      ∃ b, Tile stop (prefixFrom start (widestBits start stop start.bitLen)).masked b := by
  have hfits : Fits start stop start.bitLen := by
    rw [Fits, Nat.sub_self]
    exact ⟨one_dvd _, by omega⟩
  obtain ⟨hbits, ⟨hdvd, hend⟩, hmax⟩ := widestBits_spec hvalid hz hz' hfamily le_rfl hfits
  generalize widestBits start stop start.bitLen = w at hbits hdvd hend hmax
  obtain ⟨haddr, hblock⟩ := masked_prefixFrom hvalid hz hbits
  rw [(keepTop_eq_self hz).mpr hdvd] at haddr
  have hpos := Nat.two_pow_pos (start.bitLen - w)
  refine ⟨haddr, _, hblock, Prefix.masked_masked _, haddr.symm ▸ hvalid, haddr.symm ▸ hfamily,
    ?_, ?_, ?_⟩
  · rw [haddr, DyadicBlock.first, Nat.div_mul_cancel hdvd]
  · intro c hlevel hfirst hlast
    rw [DyadicBlock.first, DyadicBlock.first, Nat.div_mul_cancel hdvd] at hfirst
    rw [DyadicBlock.last, DyadicBlock.first, hfirst] at hlast
    by_contra hlt
    dsimp only at hlt
    -- a wider block would have made the inner loop go on
    obtain ⟨m, rfl⟩ : ∃ m, w = m + 1 := ⟨w - 1, by omega⟩
    have hpow : 2 ^ (start.bitLen - m) ∣ 2 ^ c.level := pow_dvd_pow 2 (by omega)
    have hsize := Nat.le_of_dvd (Nat.two_pow_pos _) hpow
    refine hmax m rfl ⟨hpow.trans (Dvd.intro_left _ hfirst), ?_⟩
    omega
  · rw [DyadicBlock.last, DyadicBlock.first, Nat.div_mul_cancel hdvd]
    dsimp only
    omega

/-- Where the loop goes on after a prefix that is not the last. -/
theorem Tile.next (h : Tile stop p b) (hz' : stop.zone = "") (hne : prefixLastAddress p ≠ stop) :
    b.last < stop.toNat ∧ (prefixLastAddress p).next ≠ .invalid ∧
      (prefixLastAddress p).next.zone = "" ∧
      (prefixLastAddress p).next.bitLen = stop.bitLen ∧
      (prefixLastAddress p).next.toNat = b.last + 1 := by
  obtain ⟨hlz, hllen, hlnat⟩ := prefixLastAddress_block h.block
  have hlen := hllen.trans h.family
  have hlt : b.last < stop.toNat := by
    refine lt_of_le_of_ne h.last_le fun heq => hne ?_
    exact Addr.eq_of_toNat hlz hz' hlen (hlnat.trans heq)
  have hinv : prefixLastAddress p ≠ .invalid := by
    intro hinv
    rw [hinv] at hllen
    exact h.addr_ne (Addr.bitLen_eq_zero.mp hllen.symm)
  have hstop := stop.toNat_lt
  obtain ⟨hnv, hnz, hnlen, hnnat⟩ := Addr.next_spec hinv (by rw [hlen, hlnat]; omega)
  exact ⟨hlt, hnv, hnz.trans hlz, hnlen.trans hlen, hnnat.trans (by rw [hlnat])⟩

/-- The loop ends: with as many iterations as the range has addresses it returns the prefixes of the
range, the same for every larger number of iterations. -/
theorem rangeLoop_tiles (hz' : stop.zone = "") {n : Nat} :
    ∀ {start : Addr}, start ≠ .invalid → start.zone = "" → start.bitLen = stop.bitLen →
      start.toNat ≤ stop.toNat → stop.toNat - start.toNat < n →
      ∃ ps, (∀ fuel, n ≤ fuel → rangeLoop stop fuel start = some ps) ∧
        RangeTiles stop start ps := by
  induction n with
  | zero => intro start _ _ _ _ hn; omega
  | succ n ih =>
    intro start hvalid hz hfamily hle hn
    have hgt : ¬ start.compare stop = .gt := by
      rw [Addr.compare_gt_iff hz hz' hfamily]; omega
    have hstep : ∀ fuel, n + 1 ≤ fuel → ∃ f, n ≤ f ∧ rangeLoop stop fuel start =
        let p := (prefixFrom start (widestBits start stop start.bitLen)).masked
        if prefixLastAddress p = stop then some [p]
        else (rangeLoop stop f (prefixLastAddress p).next).map (p :: ·) := by
      intro fuel hfuel
      obtain ⟨f, rfl⟩ : ∃ f, fuel = f + 1 := ⟨fuel - 1, by omega⟩
      exact ⟨f, by omega, by rw [rangeLoop, if_neg hgt]⟩
    obtain ⟨haddr, b, htile⟩ := tile_widestBits hvalid hz hz' hfamily hle
    generalize (prefixFrom start (widestBits start stop start.bitLen)).masked = p
      at haddr htile hstep
    subst haddr
    by_cases hlast : prefixLastAddress p = stop
    · refine ⟨[p], fun fuel hfuel => ?_, .last htile hlast⟩
      obtain ⟨f, -, hf⟩ := hstep fuel hfuel
      rw [hf, if_pos hlast]
    · obtain ⟨hlt, hnv, hnz, hnlen, hnnat⟩ := htile.next hz' hlast
      have hfirst : p.addr.toNat ≤ b.last := htile.first ▸ Nat.le_add_right _ _
      obtain ⟨ps, hps, htiles⟩ := ih hnv hnz hnlen (by omega) (by omega)
      refine ⟨p :: ps, fun fuel hfuel => ?_, .cons htile hlast htiles⟩
      obtain ⟨f, hnf, hf⟩ := hstep fuel hfuel
      rw [hf, if_neg hlast, hps f hnf, Option.map_some]

/-! ## What the prefixes of a range are -/

theorem RangeTiles.tile (h : RangeTiles stop start ps) : ∀ q ∈ ps, ∃ b, Tile stop q b := by
  induction h with
  | last htile _ =>
    intro q hq
    obtain rfl := List.mem_singleton.mp hq
    exact ⟨_, htile⟩
  | cons htile _ _ ih =>
    intro q hq
    rcases List.mem_cons.mp hq with rfl | hq
    · exact ⟨_, htile⟩
    · exact ih q hq

/-- The blocks of the prefixes are a greedy cover of the range. -/
theorem RangeTiles.greedy (h : RangeTiles stop start ps) (hz' : stop.zone = "") :
    Greedy stop.bitLen stop.toNat start.toNat (ps.filterMap Prefix.block) ∧
      (ps.filterMap Prefix.block).length = ps.length := by
  induction h with
  | @last p b htile hlast =>
    have hend : b.last = stop.toNat :=
      (prefixLastAddress_block htile.block).2.2.symm.trans (congrArg Addr.toNat hlast)
    rw [List.filterMap_cons_some htile.block, List.filterMap_nil, ← htile.first]
    exact ⟨.last htile.widest hend, rfl⟩
  | @cons p b ps htile hne hrest ih =>
    obtain ⟨hlt, -, -, -, hnat⟩ := htile.next hz' hne
    obtain ⟨hgreedy, hlength⟩ := ih
    rw [hnat] at hgreedy
    rw [List.filterMap_cons_some htile.block, ← htile.first]
    exact ⟨.cons htile.widest hlt hgreedy, congrArg (· + 1) hlength⟩

/-- The prefixes begin at or after the beginning of the range. -/
theorem RangeTiles.le_addr (h : RangeTiles stop start ps) (hz' : stop.zone = "") :
    ∀ q ∈ ps, start.toNat ≤ q.addr.toNat := by
  induction h with
  | last _ _ =>
    intro q hq
    rw [List.mem_singleton.mp hq]
  | @cons p b ps htile hne _ ih =>
    intro q hq
    rcases List.mem_cons.mp hq with rfl | hq
    · exact le_rfl
    · have hnext := (htile.next hz' hne).2.2.2.2
      have hfirst : p.addr.toNat ≤ b.last := htile.first ▸ Nat.le_add_right _ _
      have hrest := ih q hq
      omega

/-- Each prefix ends before the later ones begin. -/
theorem RangeTiles.ascending (h : RangeTiles stop start ps) (hz' : stop.zone = "") :
    ps.Pairwise fun p q => (prefixLastAddress p).toNat < q.addr.toNat := by
  induction h with
  | last _ _ => exact List.pairwise_singleton _ _
  | cons htile hne hrest ih =>
    refine List.pairwise_cons.mpr ⟨fun q hq => ?_, ih⟩
    have hnext := (htile.next hz' hne).2.2.2.2
    have hlater := hrest.le_addr hz' q hq
    rw [(prefixLastAddress_block htile.block).2.2]
    omega

theorem RangeTiles.chain (h : RangeTiles stop start ps) :
    ps.head?.map Prefix.addr = some start ∧
      ps.IsChain (fun p q => q.addr = (prefixLastAddress p).next) ∧
      ps.getLast?.map prefixLastAddress = some stop := by
  induction h with
  | last _ hlast => exact ⟨rfl, List.IsChain.singleton _, congrArg some hlast⟩
  | @cons p b ps htile hne hrest ih =>
    obtain ⟨hhead, hchain, hlast⟩ := ih
    obtain ⟨q, hq, haddr⟩ := Option.map_eq_some_iff.mp hhead
    obtain ⟨rest, rfl⟩ : ∃ rest, ps = q :: rest := List.head?_eq_some_iff.mp hq
    exact ⟨rfl, List.isChain_cons_cons.mpr ⟨haddr, hchain⟩, by rw [List.getLast?_cons_cons, hlast]⟩

theorem RangeTiles.isValid (h : RangeTiles stop start ps) : ∀ p ∈ ps, p.isValid = true := by
  intro p hp
  obtain ⟨b, htile⟩ := h.tile p hp
  exact Prefix.isValid_of_block htile.block

/-- What prefixes of one family contain, by their blocks. -/
theorem exists_contains_iff {a : Addr} {qs : List Prefix}
    (hfamily : ∀ q ∈ qs, q.isValid = true → q.addr.bitLen = a.bitLen) (ha : a.zone = "") :
    (∃ q ∈ qs, q.contains a = true) ↔ ∃ b ∈ qs.filterMap Prefix.block, a.toNat ∈ b := by
  constructor
  · rintro ⟨q, hq, hcontains⟩
    cases hblock : q.block with
    | none =>
      rw [Prefix.contains, Option.map_eq_none_iff.mp hblock] at hcontains
      cases hcontains
    | some b =>
      exact ⟨b, List.mem_filterMap.mpr ⟨q, hq, hblock⟩,
        ((Prefix.contains_iff_mem hblock ha).mp hcontains).2⟩
  · rintro ⟨b, hb, hmem⟩
    obtain ⟨q, hq, hblock⟩ := List.mem_filterMap.mp hb
    have hlen := hfamily q hq (Prefix.isValid_of_block hblock)
    exact ⟨q, hq, (Prefix.contains_iff_mem hblock ha).mpr ⟨hlen.symm, hmem⟩⟩

/-- The prefixes of a range contain exactly its addresses. -/
theorem RangeTiles.contains_iff (h : RangeTiles stop start ps) (hz' : stop.zone = "") {a : Addr}
    (ha : a.zone = "") : (∃ p ∈ ps, p.contains a = true) ↔
      a.bitLen = stop.bitLen ∧ start.toNat ≤ a.toNat ∧ a.toNat ≤ stop.toNat := by
  by_cases hlen : a.bitLen = stop.bitLen
  · rw [exists_contains_iff (fun q hq _ => ?_) ha, (h.greedy hz').1.covers]
    · exact (and_iff_right hlen).symm
    · obtain ⟨b, htile⟩ := h.tile q hq
      exact htile.family.trans hlen.symm
  · refine ⟨fun ⟨p, hp, hcontains⟩ => absurd ?_ hlen, fun h => absurd h.1 hlen⟩
    obtain ⟨b, htile⟩ := h.tile p hp
    exact ((Prefix.contains_iff_mem htile.block ha).mp hcontains).1.trans htile.family

end

/-! ## The decomposition of a range -/

/-- The addresses of a range: those without a zone from `start` to `stop`. -/
def InRange (start stop a : Addr) : Prop :=
  a.zone = "" ∧ start.compare a ≠ .gt ∧ a.compare stop ≠ .gt

/-- What `addressRangePrefixes` makes of a range. -/
structure RangePrefixes (start stop : Addr) (ps : List Prefix) : Prop where
  masked : ∀ p ∈ ps, p.isValid = true ∧ p.masked = p
  first : ps.head?.map Prefix.addr = some start
  next : ps.IsChain fun p q => q.addr = (prefixLastAddress p).next
  last : ps.getLast?.map prefixLastAddress = some stop
  ascending : ps.Pairwise fun p q => (prefixLastAddress p).compare q.addr = .lt
  union : ∀ a, (∃ p ∈ ps, p.contains a = true) ↔ InRange start stop a
  apart : ps.Pairwise fun p q => ∀ a, p.contains a = true → q.contains a = false
  /-- No shorter list of prefixes contains the same addresses. -/
  shortest : ∀ qs : List Prefix, (∀ a, (∃ q ∈ qs, q.contains a = true) ↔ InRange start stop a) →
    ps.length ≤ qs.length

section
variable {start stop a : Addr} {ps qs : List Prefix}

theorem inRange_iff (hz : start.zone = "") (hz' : stop.zone = "")
    (hfamily : start.bitLen = stop.bitLen) : InRange start stop a ↔
      a.zone = "" ∧ a.bitLen = stop.bitLen ∧ start.toNat ≤ a.toNat ∧ a.toNat ≤ stop.toNat := by
  have hzone : Ord.compare "" "" ≠ Ordering.gt := by decide
  refine and_congr_right fun ha => ?_
  rw [ne_eq, Addr.compare_eq_gt, ne_eq, Addr.compare_eq_gt, hz, hz', ha]
  simp only [hzone, and_false, or_false]
  omega

/-- The address of a number that its family has. -/
theorem exists_addr {n : Nat} (hstop : stop ≠ .invalid) (hn : n < 2 ^ stop.bitLen) :
    ∃ a : Addr, a.zone = "" ∧ a.bitLen = stop.bitLen ∧ a.toNat = n := by
  cases stop with
  | invalid => exact absurd rfl hstop
  | v4 _ => exact ⟨.v4 (.ofNat 32 n), rfl, rfl, Nat.mod_eq_of_lt hn⟩
  | v6 _ _ => exact ⟨.v6 (.ofNat 128 n) "", rfl, rfl, Nat.mod_eq_of_lt hn⟩

/-- A valid prefix contains its own address. -/
theorem Prefix.contains_addr {q : Prefix} (h : q.isValid = true) : q.contains q.addr = true := by
  obtain ⟨n, hn⟩ := Option.isSome_iff_exists.mp h
  exact (Prefix.contains_iff hn q.zone_eq).mpr ⟨rfl, rfl⟩

/-- The blocks of any prefixes with the addresses of a range cover it. -/
theorem covers_of_union (hstop : stop ≠ .invalid) (hz : start.zone = "") (hz' : stop.zone = "")
    (hfamily : start.bitLen = stop.bitLen)
    (hunion : ∀ a, (∃ q ∈ qs, q.contains a = true) ↔ InRange start stop a) :
    Covers start.toNat stop.toNat (qs.filterMap Prefix.block) ∧
      ∀ b ∈ qs.filterMap Prefix.block, b.level ≤ stop.bitLen := by
  have hsame : ∀ q ∈ qs, q.isValid = true → q.addr.bitLen = stop.bitLen := fun q hq hvalid =>
    ((inRange_iff hz hz' hfamily).mp
      ((hunion q.addr).mp ⟨q, hq, Prefix.contains_addr hvalid⟩)).2.1
  have hcontains {a : Addr} (ha : a.zone = "") (hlen : a.bitLen = stop.bitLen) :
      (∃ b ∈ qs.filterMap Prefix.block, a.toNat ∈ b) ↔
        start.toNat ≤ a.toNat ∧ a.toNat ≤ stop.toNat := by
    rw [← exists_contains_iff (fun q hq h => (hsame q hq h).trans hlen.symm) ha, hunion,
      inRange_iff hz hz' hfamily, and_iff_right ha, and_iff_right hlen]
  -- a number of a block is one of the family
  have hblock : ∀ b ∈ qs.filterMap Prefix.block, b.level ≤ stop.bitLen ∧
      b.last < 2 ^ stop.bitLen := by
    intro b hb
    obtain ⟨q, hq, hblock⟩ := List.mem_filterMap.mp hb
    obtain ⟨-, hlen, hlast⟩ := prefixLastAddress_block hblock
    have hqlen := hsame q hq (Prefix.isValid_of_block hblock)
    have hlt := (prefixLastAddress q).toNat_lt
    rw [hlast, hlen, hqlen] at hlt
    exact ⟨hqlen ▸ Prefix.level_le hblock, hlt⟩
  refine ⟨fun n => ?_, fun b hb => (hblock b hb).1⟩
  by_cases hn : n < 2 ^ stop.bitLen
  · obtain ⟨a, ha, hlen, rfl⟩ := exists_addr hstop hn
    exact hcontains ha hlen
  · have hstop := stop.toNat_lt
    refine ⟨fun ⟨b, hb, hmem⟩ => ?_, fun h => ?_⟩
    · have hle := (DyadicBlock.mem_iff.mp hmem).2
      have hlt := (hblock b hb).2
      omega
    · omega

/-- The prefixes of the loop are the decomposition of the range. -/
theorem RangeTiles.rangePrefixes (h : RangeTiles stop start ps) (hstop : stop ≠ .invalid)
    (hz : start.zone = "") (hz' : stop.zone = "") (hfamily : start.bitLen = stop.bitLen) :
    RangePrefixes start stop ps := by
  obtain ⟨hfirst, hnext, hlast⟩ := h.chain
  refine ⟨fun p hp => ?_, hfirst, hnext, hlast, ?_, fun a => ?_, ?_, fun qs hunion => ?_⟩
  · obtain ⟨b, htile⟩ := h.tile p hp
    exact ⟨h.isValid p hp, htile.masked⟩
  · refine (h.ascending hz').imp_of_mem fun {p q} hp hq hlt => ?_
    obtain ⟨b, hp⟩ := h.tile p hp
    obtain ⟨c, hq⟩ := h.tile q hq
    have hlen := (prefixLastAddress_block hp.block).2.1
    exact Addr.compare_eq_lt (hlen.trans (hp.family.trans hq.family.symm)) hlt
  · rw [inRange_iff hz hz' hfamily]
    by_cases ha : a.zone = ""
    · rw [h.contains_iff hz' ha, and_iff_right ha]
    · exact ⟨fun ⟨p, _, hcontains⟩ => absurd (Prefix.zone_of_contains hcontains) ha,
        fun h => absurd h.1 ha⟩
  · refine (h.ascending hz').imp_of_mem fun {p q} hp hq hlt a hin => ?_
    obtain ⟨b, hp⟩ := h.tile p hp
    obtain ⟨c, hq⟩ := h.tile q hq
    have ha := Prefix.zone_of_contains hin
    rw [← Bool.not_eq_true, Prefix.contains_iff_mem hq.block ha, DyadicBlock.mem_iff]
    rw [Prefix.contains_iff_mem hp.block ha, DyadicBlock.mem_iff] at hin
    have hlast := (prefixLastAddress_block hp.block).2.2
    have hfirst := hq.first
    omega
  · obtain ⟨hcovers, hlevels⟩ := covers_of_union hstop hz hz' hfamily hunion
    obtain ⟨hgreedy, hlength⟩ := h.greedy hz'
    calc ps.length = (ps.filterMap Prefix.block).length := hlength.symm
      _ ≤ (qs.filterMap Prefix.block).length := hgreedy.length_le hcovers hlevels
      _ ≤ qs.length := List.length_filterMap_le _ _

/-- The loop of `addressRangePrefixes` on a range of one family. -/
theorem addressRangePrefixes_tiles (start stop : Addr) (hvalid : start.unmap.isValid = true)
    (hz : start.unmap.zone = "") (hz' : stop.unmap.zone = "")
    (hfamily : start.unmap.bitLen = stop.unmap.bitLen)
    (hle : start.unmap.compare stop.unmap ≠ .gt) :
    ∃ ps, (∀ fuel, 2 ^ 128 ≤ fuel → addressRangePrefixes fuel start stop = some ps) ∧
      RangeTiles stop.unmap start.unmap ps := by
  have hlt : stop.unmap.toNat < 2 ^ 128 := by
    refine lt_of_lt_of_le stop.unmap.toNat_lt (Nat.pow_le_pow_right (by decide) ?_)
    cases stop.unmap <;> simp [Addr.bitLen]
  have hnat : start.unmap.toNat ≤ stop.unmap.toNat := by
    rwa [ne_eq, Addr.compare_gt_iff hz hz' hfamily, not_lt] at hle
  obtain ⟨ps, hps, htiles⟩ := rangeLoop_tiles hz' (n := 2 ^ 128)
    (Addr.ne_invalid_of_isValid hvalid) hz hfamily hnat (by omega)
  refine ⟨ps, fun fuel hfuel => ?_, htiles⟩
  have hguard : ¬ (¬ start.unmap.isValid = true ∨ start.unmap.bitLen ≠ stop.unmap.bitLen ∨
      start.unmap.compare stop.unmap = .gt) := by
    simp [hvalid, hfamily, hle]
  rw [addressRangePrefixes, if_neg hguard]
  exact hps fuel hfuel

end

/-- The decomposition of every range of one family: the loop ends, and its prefixes are masked,
follow each other from the first to the last address without gap or overlap, contain exactly the
addresses of the range, and are as few as possible. -/
theorem address_range_prefixes (start stop : Addr) (hvalid : start.isValid = true)
    (hz : start.zone = "") (hz' : stop.zone = "")
    (hfamily : start.unmap.bitLen = stop.unmap.bitLen)
    (hle : start.unmap.compare stop.unmap ≠ .gt) :
    ∃ ps, (∀ fuel, 2 ^ 128 ≤ fuel → addressRangePrefixes fuel start stop = some ps) ∧
      RangePrefixes start.unmap stop.unmap ps := by
  have hvalid := Addr.isValid_unmap hvalid
  have hz := Addr.zone_unmap hz
  have hz' := Addr.zone_unmap hz'
  obtain ⟨ps, hps, htiles⟩ := addressRangePrefixes_tiles start stop hvalid hz hz' hfamily hle
  have hstop : stop.unmap ≠ .invalid := by
    rw [ne_eq, ← Addr.bitLen_eq_zero, ← hfamily, Addr.bitLen_eq_zero]
    exact Addr.ne_invalid_of_isValid hvalid
  exact ⟨ps, hps, htiles.rangePrefixes hstop hz hz' hfamily⟩

/-- The addresses 10.0.0.1 to 10.0.0.6. -/
theorem address_range_prefixes_six :
    ∃ ps, (∀ fuel, 2 ^ 128 ≤ fuel →
        addressRangePrefixes fuel (.v4 0x0a000001) (.v4 0x0a000006) = some ps) ∧
      RangePrefixes (.v4 0x0a000001) (.v4 0x0a000006) ps :=
  address_range_prefixes (.v4 0x0a000001) (.v4 0x0a000006) rfl rfl rfl rfl (by decide)

end WgoTailscale
