import Mathlib.Data.List.Pairwise
import Mathlib.Data.List.Sort

/-!
# Sorting by a comparison function

`sortBy cmp` sorts a list by a three-way comparison, as `slices.SortFunc` does. When only equal
elements compare as equal the sorted list depends on the elements alone (`sortBy_eq_of_perm`), so an
unstable sort, or a list gathered in an arbitrary order, has one result.

What an unstable sort may leave of a list is `SortsTo`, and a `SliceSort` is a function that leaves
such lists. Two orders of the same elements are sorted alike by all such functions exactly if no two
different elements compare as equal or the two are one list (`SortsTo.unique`, `untied_or_eq`).
-/

section
variable {α : Type} (cmp : α → α → Ordering)

/-- The list in ascending order. -/
def sortBy (l : List α) : List α := l.insertionSort fun a b => (cmp a b).isLE = true

theorem perm_sortBy (l : List α) : (sortBy cmp l).Perm l := List.perm_insertionSort _ l

@[simp] theorem mem_sortBy {l : List α} {a : α} : a ∈ sortBy cmp l ↔ a ∈ l :=
  (perm_sortBy cmp l).mem_iff

section
variable [Std.TransCmp cmp]

instance isTrans_isLE : IsTrans α fun a b => (cmp a b).isLE = true :=
  ⟨fun _ _ _ => Std.TransCmp.isLE_trans⟩

instance total_isLE : Std.Total fun a b => (cmp a b).isLE = true := by
  refine ⟨fun a b => ?_⟩
  rw [@Std.OrientedCmp.eq_swap _ cmp _ b]
  cases cmp a b <;> simp

theorem pairwise_sortBy (l : List α) : (sortBy cmp l).Pairwise fun a b => (cmp a b).isLE = true :=
  List.pairwise_insertionSort _ l

end

variable [Std.TransCmp cmp] [Std.LawfulEqCmp cmp]

instance antisymm_isLE : Std.Antisymm fun a b => (cmp a b).isLE = true :=
  ⟨fun _ _ h h' => Std.LawfulEqCmp.eq_of_compare (Std.OrientedCmp.isLE_antisymm h h')⟩

/-- The sorted list depends only on the elements. -/
theorem sortBy_eq_of_perm {l l' : List α} (h : l.Perm l') : sortBy cmp l = sortBy cmp l' :=
  (((perm_sortBy cmp l).trans h).trans (perm_sortBy cmp l').symm).eq_of_pairwise'
    (pairwise_sortBy cmp l) (pairwise_sortBy cmp l')

end

section
variable {α κ : Type} [LinearOrder κ] (key : α → κ)

instance transCmp_key : Std.TransCmp fun a b : α => compare (key a) (key b) :=
  inferInstanceAs (Std.TransCmp (compareOn key))

/-- Elements with different keys are left in strictly ascending order of the keys. -/
theorem pairwise_lt_sortBy {l : List α} (h : (l.map key).Nodup) :
    (sortBy (fun a b => compare (key a) (key b)) l).Pairwise (key · < key ·) := by
  have hnodup : ((sortBy (fun a b => compare (key a) (key b)) l).map key).Nodup :=
    ((perm_sortBy _ l).map key).nodup_iff.mpr h
  rw [List.Nodup, List.pairwise_map] at hnodup
  refine ((pairwise_sortBy _ l).and hnodup).imp fun ⟨hle, hne⟩ => lt_of_le_of_ne ?_ hne
  exact compare_le_iff_le.mp (Ordering.isLE_iff_ne_gt.mp hle)

end

section
variable {α : Type} (cmp : α → α → Ordering)

/-- What an unstable sort may leave of a list. -/
structure SortsTo (l sorted : List α) : Prop where
  perm : sorted.Perm l
  ascending : sorted.Pairwise fun a b => (cmp a b).isLE = true

/-- A function that sorts. Like `sort.Slice`, it may order elements that compare as equal as it
likes, as long as it depends on the list alone. -/
structure SliceSort where
  run : List α → List α
  sorts (l : List α) : SortsTo cmp l (run l)

/-- No two different elements of the list compare as equal. -/
def Untied (l : List α) : Prop := ∀ a ∈ l, ∀ b ∈ l, cmp a b = .eq → a = b

/-- No element that is in the list twice compares as equal to another one. -/
def RepeatsUntied [DecidableEq α] (l : List α) : Prop :=
  ∀ a, ∀ b ∈ l, cmp a b = .eq → 2 ≤ l.count a → a = b

variable {cmp}

variable [Std.TransCmp cmp]

theorem sortsTo_sortBy (l : List α) : SortsTo cmp l (sortBy cmp l) :=
  ⟨perm_sortBy cmp l, pairwise_sortBy cmp l⟩

/-- The sort that leaves elements that compare as equal in the order they came in. -/
def stableSort (cmp : α → α → Ordering) [Std.TransCmp cmp] : SliceSort cmp :=
  ⟨sortBy cmp, sortsTo_sortBy⟩

/-- Without ties, sorting has one result, whatever order the elements come in. -/
theorem SortsTo.unique {l l' s s' : List α} (h : SortsTo cmp l s) (h' : SortsTo cmp l' s')
    (hperm : l.Perm l') (hties : Untied cmp l) : s = s' := by
  have hs : s.Perm s' := (h.perm.trans hperm).trans h'.perm.symm
  refine List.Perm.eq_of_pairwise (fun a b ha hb => ?_) h.ascending h'.ascending hs
  exact fun hab hba => hties a (h.perm.mem_iff.mp ha) b (h.perm.mem_iff.mp (hs.mem_iff.mpr hb))
    (Std.OrientedCmp.isLE_antisymm hab hba)

variable [DecidableEq α]

/-- The order with ties broken in favour of one element. -/
def favour (cmp : α → α → Ordering) (a : α) : α → α → Ordering :=
  compareLex cmp (compareOn fun x => if x = a then 0 else 1)

instance (a : α) : Std.TransCmp (favour cmp a) :=
  inferInstanceAs (Std.TransCmp (compareLex _ _))

theorem sortsTo_favour (a : α) (l : List α) : SortsTo cmp l (sortBy (favour cmp a) l) := by
  refine ⟨perm_sortBy _ l, (pairwise_sortBy (favour cmp a) l).imp fun {x y} h => ?_⟩
  rcases Ordering.isLE_then_iff_or.mp h with hlt | ⟨heq, -⟩
  · rw [hlt]
    rfl
  · rw [heq]
    rfl

omit [Std.TransCmp cmp] in
theorem not_isLE_favour {a b : α} (htie : cmp b a = .eq) (hne : b ≠ a) :
    (favour cmp a b a).isLE = false := by
  simp only [favour, compareLex, htie, compareOn, hne, if_false, if_true]
  rfl

/-- Two different elements that compare as equal may end up in either order, so that no list with
both is part of both results. -/
theorem exists_sortsTo_ne {l : List α} {a b : α} (htie : cmp a b = .eq) (hne : a ≠ b) :
    ∃ s s', SortsTo cmp l s ∧ SortsTo cmp l s' ∧
      ∀ t : List α, t.Sublist s → t.Sublist s' → a ∈ t → b ∉ t := by
  refine ⟨_, _, sortsTo_favour a l, sortsTo_favour b l, fun t hs hs' ha hb => ?_⟩
  have hfirst := (pairwise_sortBy (favour cmp a) l).sublist hs
  have hsecond := (pairwise_sortBy (favour cmp b) l).sublist hs'
  have htie' : cmp b a = .eq := Std.OrientedCmp.eq_symm htie
  -- one of the two comes first in `t`, against one of the two orders
  have hboth : t.Pairwise fun x y => ¬ (x = a ∧ y = b) ∧ ¬ (x = b ∧ y = a) := by
    refine (hfirst.and hsecond).imp fun {x y} h => ⟨?_, ?_⟩
    · rintro ⟨rfl, rfl⟩
      exact absurd h.2 (by rw [not_isLE_favour htie hne]; nofun)
    · rintro ⟨rfl, rfl⟩
      exact absurd h.1 (by rw [not_isLE_favour htie' hne.symm]; nofun)
  have hsymm : Std.Symm fun x y : α => ¬ (x = a ∧ y = b) ∧ ¬ (x = b ∧ y = a) :=
    ⟨fun x y h => ⟨fun hk => h.2 hk.symm, fun hk => h.1 hk.symm⟩⟩
  exact (hboth.forall ha hb hne).1 ⟨rfl, rfl⟩

/-- A sort may answer as it likes to two lists. -/
theorem exists_sliceSort {l l' s s' : List α} (hs : SortsTo cmp l s) (hs' : SortsTo cmp l' s')
    (hne : l ≠ l') : ∃ sort : SliceSort cmp, sort.run l = s ∧ sort.run l' = s' := by
  refine ⟨⟨fun x => if x = l then s else if x = l' then s' else sortBy cmp x, fun x => ?_⟩,
    if_pos rfl, (if_neg hne.symm).trans (if_pos rfl)⟩
  split
  · next hx => exact hx ▸ hs
  · split
    · next hx => exact hx ▸ hs'
    · exact sortsTo_sortBy x

/-- If all sorts leave the same of two orders of the same elements, as far as a sublist with all
elements shows, then there are no ties or the two are one list. -/
theorem untied_or_eq {l l' : List α} {f : List α → List α} (hperm : l'.Perm l)
    (hsub : ∀ s, (f s).Sublist s) (hmem : ∀ s a, a ∈ s → a ∈ f s)
    (h : ∀ sort : SliceSort cmp, f (sort.run l) = f (sort.run l')) : Untied cmp l ∨ l = l' := by
  refine or_iff_not_imp_right.mpr fun hlists a ha b hb htie => ?_
  by_contra hne
  obtain ⟨s, s', hs, hs', happart⟩ := exists_sortsTo_ne (l := l) htie hne
  obtain ⟨sort, hrun, hrun'⟩ := exists_sliceSort hs ⟨hs'.perm.trans hperm.symm, hs'.ascending⟩ hlists
  have heq := h sort
  rw [hrun, hrun'] at heq
  exact happart (f s) (hsub s) (heq ▸ hsub s') (hmem s a (hs.perm.mem_iff.mpr ha))
    (hmem s b (hs.perm.mem_iff.mpr hb))

/-- An element that compares as equal to one that is there twice may end up between the two. -/
theorem exists_sort_between {l : List α} {a b : α} (hb : b ∈ l) (htie : cmp a b = .eq)
    (hcount : 2 ≤ l.count a) (hne : a ≠ b) : ∃ sort : SliceSort cmp, [a, b, a].Sublist (sort.run l) := by
  have hle {x y : α} (h : cmp x y = .eq) : (cmp x y).isLE = true := by
    rw [h]
    rfl
  have hsorted : [a, b, a].Pairwise fun x y => (cmp x y).isLE = true := by
    simp [hle htie, hle (Std.OrientedCmp.eq_symm htie), Std.ReflCmp.isLE_rfl]
  -- the stable sort leaves the three as they are, if they come in this order
  have ha : a ∈ l := List.count_pos_iff.mp (Nat.zero_lt_of_lt hcount)
  have hb : b ∈ l.erase a := (List.mem_erase_of_ne hne.symm).mpr hb
  have hagain : a ∈ (l.erase a).erase b := by
    rw [List.mem_erase_of_ne hne, ← List.count_pos_iff, List.count_erase_self]
    exact Nat.sub_pos_of_lt hcount
  have hperm : (a :: b :: (l.erase a).erase b).Perm l :=
    (((List.perm_cons_erase ha).trans ((List.perm_cons_erase hb).cons a)).symm)
  have hsub : [a, b, a].Sublist (a :: b :: (l.erase a).erase b) :=
    ((List.singleton_sublist.mpr hagain).cons_cons b).cons_cons a
  obtain ⟨sort, hrun, -⟩ := exists_sliceSort
    ⟨(perm_sortBy cmp _).trans hperm, pairwise_sortBy cmp _⟩ (sortsTo_sortBy (a :: l))
    (List.cons_ne_self a l).symm
  exact ⟨sort, hrun ▸ List.sublist_insertionSort hsorted hsub⟩

end
