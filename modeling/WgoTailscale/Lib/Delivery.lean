import Mathlib.Data.Set.Insert
import WgoTailscale.Lib.Threads

/-!
# Values taken at one place and delivered at another

A value is taken at its source and handed to its target later, by whoever took it. The deliveries that
are under way are numbered in the order in which their values were taken. The target has the source's
value once nothing is under way, provided that the deliveries are made in the order of their numbers
(`inOrder`): until then the latest of them carries it (`InStep`, with the rules `inStep_of_taken` and
`InStep.deliver`).
-/

namespace Delivery

section
variable {φ α : Type} (carries : φ → Option (Nat × α))

/-- The deliveries that a collection of activities has still to make. -/
def underWay (F : Multiset φ) : Set (Nat × α) := { p | ∃ f ∈ F, carries f = some p }

variable {carries} {f : φ} {F G : Multiset φ} {p : Nat × α}

theorem mem_underWay_cons : p ∈ underWay carries (f ::ₘ F) ↔
    carries f = some p ∨ p ∈ underWay carries F := by
  constructor
  · rintro ⟨g, hg, hp⟩
    rcases Multiset.mem_cons.mp hg with rfl | hg
    · exact .inl hp
    · exact .inr ⟨g, hg, hp⟩
  · rintro (hp | ⟨g, hg, hp⟩)
    · exact ⟨f, Multiset.mem_cons_self _ _, hp⟩
    · exact ⟨g, Multiset.mem_cons_of_mem hg, hp⟩

theorem mem_underWay_add : p ∈ underWay carries (F + G) ↔
    p ∈ underWay carries F ∨ p ∈ underWay carries G := by
  constructor
  · rintro ⟨g, hg, hp⟩
    exact (Multiset.mem_add.mp hg).imp (fun hg => ⟨g, hg, hp⟩) fun hg => ⟨g, hg, hp⟩
  · rintro (⟨g, hg, hp⟩ | ⟨g, hg, hp⟩)
    · exact ⟨g, Multiset.mem_add.mpr (.inl hg), hp⟩
    · exact ⟨g, Multiset.mem_add.mpr (.inr hg), hp⟩

theorem underWay_cons_none (h : carries f = none) :
    underWay carries (f ::ₘ F) = underWay carries F := by
  ext p
  rw [mem_underWay_cons, h]
  exact or_iff_right nofun

theorem underWay_cons_some (h : carries f = some p) :
    underWay carries (f ::ₘ F) = insert p (underWay carries F) := by
  ext q
  rw [mem_underWay_cons, h, Set.mem_insert_iff, Option.some.injEq, eq_comm]

end

section
variable {σ φ χ ε α : Type} (carries : φ → Option (Nat × α))

/-- A delivery is made only while none that was taken earlier is under way. -/
def inOrder : Machine.Policy σ φ χ ε where
  run _ f R _ := ∀ p ∈ carries f, ∀ g ∈ R, ∀ q ∈ carries g, p.1 < q.1

instance (s : σ) (f : φ) (R : Multiset φ) (c : χ) :
    Decidable ((inOrder carries : Machine.Policy σ φ χ ε).run s f R c) :=
  inferInstanceAs (Decidable (∀ p ∈ carries f, ∀ g ∈ R, ∀ q ∈ carries g, p.1 < q.1))

instance (s : σ) (f : φ) : Decidable ((inOrder carries : Machine.Policy σ φ χ ε).start s f) :=
  .isTrue trivial

instance (s : σ) (e : ε) : Decidable ((inOrder carries : Machine.Policy σ φ χ ε).env s e) :=
  .isTrue trivial

end

section
variable {α : Type} {source target v : α} {P : Set (Nat × α)} {n : Nat}

/-- The target has the value of the source and nothing is under way, or the latest delivery that is
under way carries it. -/
def InStep (source target : α) (P : Set (Nat × α)) : Prop :=
  P = ∅ ∧ target = source ∨ ∃ n, (n, source) ∈ P ∧ ∀ p ∈ P, p.1 ≤ n

/-- Once nothing is under way, the target has the value of the source. -/
theorem InStep.settled (h : InStep source target P) (hnone : P = ∅) : target = source := by
  rcases h with ⟨-, heq⟩ | ⟨n, hmem, -⟩
  · exact heq
  · rw [hnone] at hmem
    exact absurd hmem (Set.notMem_empty _)

/-- The value of the source was just taken. -/
theorem inStep_of_taken (htaken : (n, source) ∈ P) (hlatest : ∀ p ∈ P, p.1 ≤ n) :
    InStep source target P := .inr ⟨n, htaken, hlatest⟩

/-- A delivery is made that is in order. -/
theorem InStep.deliver {σ φ χ ε : Type} {carries : φ → Option (Nat × α)} {s : σ} {f : φ}
    {R : Multiset φ} {c : χ} (h : InStep source target (underWay carries (f ::ₘ R)))
    (hf : carries f = some (n, v))
    (horder : (inOrder carries : Machine.Policy σ φ χ ε).run s f R c) :
    InStep source v (underWay carries R) := by
  have hfirst : ∀ p ∈ underWay carries R, n < p.1 := by
    rintro p ⟨g, hg, hp⟩
    exact horder (n, v) hf g hg p hp
  rw [underWay_cons_some hf] at h
  rcases h with ⟨hnone, -⟩ | ⟨m, hmem, hlatest⟩
  · exact absurd hnone (Set.insert_nonempty _ _).ne_empty
  · rcases Set.mem_insert_iff.mp hmem with heq | hrest
    · -- it carries the source's value, so nothing later is left
      obtain ⟨rfl, rfl⟩ := Prod.mk.inj heq
      refine .inl ⟨Set.eq_empty_of_forall_notMem fun p hp => ?_, rfl⟩
      have hlt := hfirst p hp
      have hle := hlatest p (Set.mem_insert_of_mem _ hp)
      omega
    · exact .inr ⟨m, hrest, fun p hp => hlatest p (Set.mem_insert_of_mem _ hp)⟩

end

end Delivery
