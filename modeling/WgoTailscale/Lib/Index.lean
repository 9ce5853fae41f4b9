import WgoTailscale.Lib.FinMap

/-!
# A store of records with an index by address

Records are stored under keys, and an index maps each address to the key of one record that refers
to it. The index is maintained by hand: an operation on one record gives back addresses the record
no longer has (`release`, which leaves alone an entry that names another key) and enters the ones it
has (`claim`). The index is sound when each entry names a record that refers to the address, and
complete when each address a record refers to has an entry. `Sound.update` and `Complete.update` are
the rules for an operation on the record of a single key.
-/

namespace Index

section
variable {K A V : Type} [DecidableEq A]

/-- Each entry names a record that refers to the address. -/
def Sound (refs : V → A → Prop) (records : FinMap K V) (index : FinMap A K) : Prop :=
  ∀ a k, index.get a = some k → ∃ v, records.get k = some v ∧ refs v a

/-- Each address a record refers to has an entry. -/
def Complete (refs : V → A → Prop) (records : FinMap K V) (index : FinMap A K) : Prop :=
  ∀ k v a, records.get k = some v → refs v a → a ∈ index

/-- Enter addresses under a key. -/
def claim (index : FinMap A K) (k : K) (l : List A) : FinMap A K :=
  l.foldl (fun index a => index.insert a k) index

theorem get_claim (index : FinMap A K) (k : K) (l : List A) (a : A) :
    (claim index k l).get a = if a ∈ l then some k else index.get a := by
  induction l generalizing index with
  | nil => rfl
  | cons b l ih =>
    show (claim (index.insert b k) k l).get a = _
    rw [ih, FinMap.get_insert]
    by_cases hl : a ∈ l
    · simp [hl]
    · simp [hl]

end

section
variable {K A V : Type} [DecidableEq A] [DecidableEq K] [Inhabited K]

/-- Delete the entry of one address if it names the key. A missing entry reads as the zero key, as
in Go, where deleting it has no effect. -/
def releaseOne (index : FinMap A K) (k : K) (a : A) : FinMap A K :=
  if (index.get a).getD default = k then index.erase a else index

/-- Delete the entries of addresses that name the key. -/
def release (index : FinMap A K) (k : K) (l : List A) : FinMap A K :=
  l.foldl (fun index a => releaseOne index k a) index

theorem get_releaseOne (index : FinMap A K) (k : K) (b a : A) :
    (releaseOne index k b).get a = if a = b ∧ index.get a = some k then none else index.get a := by
  unfold releaseOne
  rcases eq_or_ne a b with rfl | hab
  · cases h : index.get a with
    | none => split <;> simp [h]
    | some k' =>
      rw [Option.getD_some]
      split
      · next hk => simp [hk]
      · next hk => simp [hk, h]
  · split <;> simp [FinMap.get_erase, hab]

theorem get_release (index : FinMap A K) (k : K) (l : List A) (a : A) :
    (release index k l).get a = if a ∈ l ∧ index.get a = some k then none else index.get a := by
  induction l generalizing index with
  | nil => simp [release]
  | cons b l ih =>
    show (release (releaseOne index k b) k l).get a = _
    rw [ih, get_releaseOne]
    by_cases hk : index.get a = some k
    · by_cases hb : a = b
      · simp [hb]
      · by_cases hl : a ∈ l
        · simp [hb, hl, hk]
        · simp [hb, hl]
    · simp [hk]

end

section
variable {K A V : Type} {refs : V → A → Prop} {records records' : FinMap K V}
  {index index' : FinMap A K} {k : K}

/-- An operation on the record of `k` keeps the index sound if every entry it leaves was there
before and names another key, or names `k` and an address of the new record. -/
theorem Sound.update (h : Sound refs records index)
    (hrecords : ∀ k', k' ≠ k → records'.get k' = records.get k')
    (hindex : ∀ a k', index'.get a = some k' → (k' ≠ k ∧ index.get a = some k') ∨
      (k' = k ∧ ∃ v, records'.get k = some v ∧ refs v a)) : Sound refs records' index' := by
  intro a k' ha
  rcases hindex a k' ha with ⟨hne, hold⟩ | ⟨rfl, v, hv, hr⟩
  · obtain ⟨v, hv, hr⟩ := h a k' hold
    exact ⟨v, by rw [hrecords k' hne, hv], hr⟩
  · exact ⟨v, hv, hr⟩

/-- An operation on the record of `k` keeps the index complete if it enters every address of the
new record and loses no address of another record. -/
theorem Complete.update (h : Complete refs records index)
    (hrecords : ∀ k', k' ≠ k → records'.get k' = records.get k')
    (hself : ∀ v a, records'.get k = some v → refs v a → a ∈ index')
    (hother : ∀ k' v a, k' ≠ k → records.get k' = some v → refs v a → a ∈ index → a ∈ index') :
    Complete refs records' index' := by
  intro k' v a hv hr
  rcases eq_or_ne k' k with rfl | hne
  · exact hself v a hv hr
  · rw [hrecords k' hne] at hv
    exact hother k' v a hne hv hr (h k' v a hv hr)

/-- In a sound and complete index every address a record refers to names a record that refers to
it. -/
theorem Complete.exists_owner (h : Complete refs records index) (hs : Sound refs records index)
    {v : V} {a : A} (hv : records.get k = some v) (hr : refs v a) :
    ∃ k' v', index.get a = some k' ∧ records.get k' = some v' ∧ refs v' a := by
  obtain ⟨k', hk'⟩ := FinMap.mem_iff.mp (h k v a hv hr)
  obtain ⟨v', hv', hr'⟩ := hs a k' hk'
  exact ⟨k', v', hk', hv', hr'⟩

end

end Index
