import Mathlib.Algebra.Order.Group.Nat
import Mathlib.Data.List.Basic

/-!
# Covering an interval by dyadic blocks

A block is the set of the numbers with one quotient by a power of two. Two blocks that meet are
nested (`DyadicBlock.subset_of_meets`). An interval is cut into blocks greedily by always taking the
largest block that begins where the last one ended (`Greedy`); such a list covers exactly the
interval (`Greedy.covers`) and no list of blocks that covers it is shorter (`Greedy.length_le`).
-/

/-- The numbers `n` with `n / 2 ^ level = index`. -/
structure DyadicBlock where
  level : Nat
  index : Nat

namespace DyadicBlock

instance : Membership Nat DyadicBlock := ⟨fun b n => n / 2 ^ b.level = b.index⟩

/-- The least number of a block. -/
def first (b : DyadicBlock) : Nat := b.index * 2 ^ b.level

/-- The greatest number of a block. -/
def last (b : DyadicBlock) : Nat := b.first + (2 ^ b.level - 1)

section
variable {b c : DyadicBlock} {n m : Nat}

theorem mem_def : n ∈ b ↔ n / 2 ^ b.level = b.index := Iff.rfl

theorem mem_iff : n ∈ b ↔ b.first ≤ n ∧ n ≤ b.last := by
  have hpos := Nat.two_pow_pos b.level
  rw [mem_def, Nat.div_eq_iff hpos, last, first]
  omega

theorem first_mem (b : DyadicBlock) : b.first ∈ b := mem_iff.mpr ⟨le_rfl, Nat.le_add_right _ _⟩

theorem last_mem (b : DyadicBlock) : b.last ∈ b := mem_iff.mpr ⟨Nat.le_add_right _ _, le_rfl⟩

/-- Of two blocks that meet, the one of lower level lies in the other. -/
theorem subset_of_meets (hle : b.level ≤ c.level) (hb : n ∈ b) (hc : n ∈ c) (hm : m ∈ b) :
    m ∈ c := by
  have hpow : 2 ^ c.level = 2 ^ b.level * 2 ^ (c.level - b.level) := by
    rw [← Nat.pow_add, Nat.add_sub_cancel' hle]
  rw [mem_def] at *
  rw [← hc, hpow, ← Nat.div_div_eq_div_mul, ← Nat.div_div_eq_div_mul, hb, hm]

end

end DyadicBlock

/-- No block of a higher level, up to `bound`, begins where `b` does and ends by `stop`. -/
def Widest (bound stop : Nat) (b : DyadicBlock) : Prop :=
  ∀ c : DyadicBlock, c.level ≤ bound → c.first = b.first → c.last ≤ stop → c.level ≤ b.level

/-- The list of blocks from `start` to `stop` that takes the widest block each time. -/
inductive Greedy (bound stop : Nat) : Nat → List DyadicBlock → Prop
  | last {b : DyadicBlock} : Widest bound stop b → b.last = stop → Greedy bound stop b.first [b]
  | cons {b : DyadicBlock} {bs : List DyadicBlock} : Widest bound stop b → b.last < stop →
      Greedy bound stop (b.last + 1) bs → Greedy bound stop b.first (b :: bs)

/-- The blocks contain exactly the numbers from `start` to `stop`. -/
def Covers (start stop : Nat) (bs : List DyadicBlock) : Prop :=
  ∀ n, (∃ b ∈ bs, n ∈ b) ↔ start ≤ n ∧ n ≤ stop

section
variable {bound start stop : Nat} {b c : DyadicBlock} {bs cs : List DyadicBlock}

open DyadicBlock

/-- A greedy list covers its interval. -/
theorem Greedy.covers (h : Greedy bound stop start bs) : Covers start stop bs := by
  induction h with
  | @last b _ hlast =>
    intro n
    rw [List.exists_mem_cons_iff, mem_iff, hlast]
    simp
  | @cons b bs _ hlast hrest ih =>
    intro n
    have hle : b.first ≤ b.last := Nat.le_add_right _ _
    rw [List.exists_mem_cons_iff, ih, mem_iff]
    omega

/-- In a cover, the block of the least number begins with it. -/
theorem Covers.first_eq (h : Covers start stop cs) (hc : c ∈ cs) (hmem : start ∈ c) :
    c.first = start :=
  le_antisymm (mem_iff.mp hmem).1 ((h c.first).mp ⟨c, hc, c.first_mem⟩).1

/-- In a cover, a block that meets the widest block at the beginning lies in it. -/
theorem Covers.subset_widest (h : Covers b.first stop cs) (hbound : ∀ c ∈ cs, c.level ≤ bound)
    (hwidest : Widest bound stop b) (hc : c ∈ cs) {n m : Nat} (hnc : n ∈ c) (hnb : n ∈ b)
    (hm : m ∈ c) : m ∈ b := by
  refine subset_of_meets ?_ hnc hnb hm
  by_contra hlt
  -- otherwise it contains the first number, hence begins there and is wider
  have hfirst : b.first ∈ c := subset_of_meets (not_le.mp hlt).le hnb hnc b.first_mem
  have hstop := ((h c.last).mp ⟨c, hc, c.last_mem⟩).2
  exact hlt (hwidest c (hbound c hc) (h.first_eq hc hfirst) hstop)

/-- What is left of a cover without the blocks in the widest one covers the rest. -/
theorem Covers.drop_widest (h : Covers b.first stop cs) (hbound : ∀ c ∈ cs, c.level ≤ bound)
    (hwidest : Widest bound stop b) :
    Covers (b.last + 1) stop (cs.filter fun c => ¬ c.first ≤ b.last) := by
  intro n
  simp only [List.mem_filter, decide_eq_true_eq, not_le]
  constructor
  · rintro ⟨c, ⟨hc, hfirst⟩, hn⟩
    exact ⟨hfirst.trans_le (mem_iff.mp hn).1, ((h n).mp ⟨c, hc, hn⟩).2⟩
  · rintro ⟨hlast, hstop⟩
    have hle : b.first ≤ b.last := Nat.le_add_right _ _
    obtain ⟨c, hc, hn⟩ := (h n).mpr ⟨by omega, hstop⟩
    refine ⟨c, ⟨hc, ?_⟩, hn⟩
    by_contra hfirst
    have hin : c.first ∈ b :=
      mem_iff.mpr ⟨((h c.first).mp ⟨c, hc, c.first_mem⟩).1, not_lt.mp hfirst⟩
    have hnb := h.subset_widest hbound hwidest hc c.first_mem hin hn
    exact absurd (mem_iff.mp hnb).2 (by omega)

/-- A greedy list is as short as any cover. -/
theorem Greedy.length_le (h : Greedy bound stop start bs) (hcs : Covers start stop cs)
    (hbound : ∀ c ∈ cs, c.level ≤ bound) : bs.length ≤ cs.length := by
  induction h generalizing cs with
  | @last b _ hlast =>
    obtain ⟨c, hc, -⟩ := (hcs b.first).mpr ⟨le_rfl, hlast ▸ Nat.le_add_right _ _⟩
    exact List.length_pos_of_mem hc
  | @cons b bs hwidest hlast hrest ih =>
    have hle := ih (hcs.drop_widest hbound hwidest) fun c hc =>
      hbound c (List.mem_filter.mp hc).1
    -- the block of the first number goes
    obtain ⟨c, hc, hfirst⟩ := (hcs b.first).mpr
      ⟨le_rfl, (Nat.le_add_right _ _).trans hlast.le⟩
    have hgone : (cs.filter fun c => ¬ c.first ≤ b.last).length < cs.length := by
      refine List.length_filter_lt_length_iff_exists.mpr ⟨c, hc, ?_⟩
      have heq := hcs.first_eq hc hfirst
      have hle : b.first ≤ b.last := Nat.le_add_right _ _
      simp [heq, hle]
    exact Nat.succ_le_of_lt (hle.trans_lt hgone)

end
