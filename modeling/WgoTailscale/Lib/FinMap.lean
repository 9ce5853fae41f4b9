import Mathlib.Data.Finset.Basic
import Mathlib.Data.Finset.Filter
import Mathlib.Data.Finset.Image
import WgoTailscale.Lib.Sort

/-!
# Finite maps with bulk updates

`FinMap K V` is a partial function with the finite set of the keys it answers, carried as a field,
so a map that answers a key outside its key set cannot be built. Equality of maps is equality of
lookups (`FinMap.ext_get`), and it is decidable, so a map can be compared and evaluated. Beside
`insert` and `erase` there are the two bulk updates an imperative loop over a map makes: `mapVals`
rewrites every value in place and `filter` drops entries. The order in which such a loop visits the
keys is a `Listing`: any list of the keys without repetition.
-/

/-- A partial function with the finite set of the keys it answers. -/
structure FinMap (K V : Type) where
  /-- The keys the map answers. -/
  keys : Finset K
  /-- The value at a key. -/
  get : K → Option V
  /-- The map answers exactly the keys of `keys`. -/
  mem_keys : ∀ k, k ∈ keys ↔ (get k).isSome

namespace FinMap

section
variable {K V : Type}
variable {m : FinMap K V} {k : K}

/-- Two maps with the same lookups are equal. -/
theorem ext_get {n : FinMap K V} (h : ∀ k, m.get k = n.get k) : m = n := by
  obtain ⟨mk, mg, hm⟩ := m
  obtain ⟨nk, ng, hn⟩ := n
  obtain rfl : mg = ng := funext h
  obtain rfl : mk = nk := Finset.ext fun k => by rw [hm, hn]
  rfl

instance : EmptyCollection (FinMap K V) where
  emptyCollection := { keys := ∅, get := fun _ => none, mem_keys := by simp }

instance : Inhabited (FinMap K V) := ⟨∅⟩

/-- A key is a member when the map answers it. -/
instance : Membership K (FinMap K V) := ⟨fun m k => k ∈ m.keys⟩

theorem mem_def : k ∈ m ↔ k ∈ m.keys := Iff.rfl

theorem mem_iff : k ∈ m ↔ ∃ v, m.get k = some v := by
  rw [mem_def, m.mem_keys, Option.isSome_iff_exists]

theorem not_mem_iff : k ∉ m ↔ m.get k = none := by
  rw [mem_def, m.mem_keys]; simp

theorem mem_congr {m' : FinMap K V} (h : m.get k = m'.get k) : k ∈ m ↔ k ∈ m' := by
  rw [mem_iff, mem_iff, h]

theorem mem_of_get {v : V} (h : m.get k = some v) : k ∈ m :=
  mem_iff.2 ⟨v, h⟩

instance [DecidableEq K] (m : FinMap K V) (k : K) : Decidable (k ∈ m) :=
  inferInstanceAs (Decidable (k ∈ m.keys))

/-- Maps are compared on the keys of the first; equal key sets leave nothing else to compare. -/
instance [DecidableEq K] [DecidableEq V] : DecidableEq (FinMap K V) := fun m n =>
  decidable_of_iff (m.keys = n.keys ∧ ∀ k ∈ m.keys, m.get k = n.get k) <| by
    constructor
    · rintro ⟨hk, hg⟩
      refine ext_get fun k => ?_
      by_cases h : k ∈ m.keys
      · exact hg k h
      · have h' : k ∉ n.keys := hk ▸ h
        rw [not_mem_iff.1 h, not_mem_iff.1 h']
    · rintro rfl
      exact ⟨rfl, fun _ _ => rfl⟩

@[simp] theorem get_empty (k : K) : (∅ : FinMap K V).get k = none := rfl

@[simp] theorem keys_empty : (∅ : FinMap K V).keys = ∅ := rfl

@[simp] theorem not_mem_empty (k : K) : k ∉ (∅ : FinMap K V) := by simp [not_mem_iff]

/-- A map with no keys is the empty map. -/
theorem eq_empty_of_keys (h : m.keys = ∅) : m = ∅ :=
  ext_get fun k => not_mem_iff.1 (show k ∉ m.keys by simp [h])

end

/-! ## Single updates -/

section
variable {K V : Type} [DecidableEq K]
variable {k k' : K} {m : FinMap K V} {v : V}

/-- `m` with the value `v` at `k`. -/
def insert (m : FinMap K V) (k : K) (v : V) : FinMap K V where
  keys := Insert.insert k m.keys
  get k' := if k' = k then some v else m.get k'
  mem_keys k' := by
    by_cases h : k' = k
    · simp [h]
    · simp [h, m.mem_keys]

/-- `m` without the key `k`. -/
def erase (m : FinMap K V) (k : K) : FinMap K V where
  keys := m.keys.erase k
  get k' := if k' = k then none else m.get k'
  mem_keys k' := by
    by_cases h : k' = k
    · simp [h]
    · simp [h, m.mem_keys]

theorem get_insert (m : FinMap K V) (k k' : K) (v : V) :
    (m.insert k v).get k' = if k' = k then some v else m.get k' := rfl

@[simp] theorem get_insert_self (m : FinMap K V) (k : K) (v : V) :
    (m.insert k v).get k = some v := by simp [get_insert]

theorem get_insert_ne (m : FinMap K V) (v : V) (h : k' ≠ k) : (m.insert k v).get k' = m.get k' := by
  simp [get_insert, h]

/-- What holds of the value at a key holds after a write, if it holds of what is written there. -/
theorem exists_get_insert {w : V} {P : V → Prop} (hget : m.get k' = some v) (hold : P v)
    (hnew : k' = k → P w) : ∃ v', (m.insert k w).get k' = some v' ∧ P v' := by
  rw [get_insert]
  split
  · next hkey => exact ⟨w, rfl, hnew hkey⟩
  · exact ⟨v, hget, hold⟩

theorem get_erase (m : FinMap K V) (k k' : K) :
    (m.erase k).get k' = if k' = k then none else m.get k' := rfl

@[simp] theorem get_erase_self (m : FinMap K V) (k : K) : (m.erase k).get k = none := by
  simp [get_erase]

theorem get_erase_ne (m : FinMap K V) (h : k' ≠ k) : (m.erase k).get k' = m.get k' := by
  simp [get_erase, h]

@[simp] theorem keys_insert (m : FinMap K V) (k : K) (v : V) :
    (m.insert k v).keys = Insert.insert k m.keys := rfl

@[simp] theorem keys_erase (m : FinMap K V) (k : K) : (m.erase k).keys = m.keys.erase k := rfl

@[simp] theorem mem_insert {m : FinMap K V} {k k' : K} {v : V} :
    k' ∈ m.insert k v ↔ k' = k ∨ k' ∈ m := by simp [mem_def]

@[simp] theorem mem_erase {m : FinMap K V} {k k' : K} :
    k' ∈ m.erase k ↔ k' ≠ k ∧ k' ∈ m := by simp [mem_def]

/-- Writing back the value a map already has changes nothing. -/
theorem insert_insert (m : FinMap K V) (k : K) (v w : V) : (m.insert k v).insert k w = m.insert k w :=
  ext_get fun k' => by simp only [get_insert]; split <;> rfl

theorem insert_eq_self (h : m.get k = some v) : m.insert k v = m := by
  refine ext_get fun k' => ?_
  rw [get_insert]
  split
  · next e => rw [e, h]
  · rfl

/-- Erasing a key a map does not answer changes nothing. -/
theorem erase_eq_self (h : k ∉ m) : m.erase k = m := by
  refine ext_get fun k' => ?_
  rw [get_erase]
  split
  · next e => rw [e, not_mem_iff.1 h]
  · rfl

/-- The map of an association list; a later pair overwrites an earlier one at the same key. -/
def ofList (l : List (K × V)) : FinMap K V := l.foldl (fun m p => m.insert p.1 p.2) ∅

/-- Erasing every key of a list. -/
def eraseAll (m : FinMap K V) (l : List K) : FinMap K V := l.foldl (fun m k => m.erase k) m

theorem get_eraseAll (m : FinMap K V) (l : List K) (k : K) :
    (m.eraseAll l).get k = if k ∈ l then none else m.get k := by
  induction l generalizing m with
  | nil => simp [eraseAll]
  | cons a l ih =>
    show (eraseAll (m.erase a) l).get k = _
    rw [ih, get_erase]
    by_cases hl : k ∈ l
    · simp [hl]
    · by_cases ha : k = a
      · simp [ha]
      · simp [hl, ha]

end

/-! ## Bulk updates -/

section
variable {K V W : Type}
variable {m : FinMap K V} {p : K → V → Bool} {k : K} {l : List K}

/-- `m` with every value rewritten by `f`. -/
def mapVals (f : K → V → W) (m : FinMap K V) : FinMap K W where
  keys := m.keys
  get k := (m.get k).map (f k)
  mem_keys k := by simp [m.mem_keys]

@[simp] theorem get_mapVals (f : K → V → W) (m : FinMap K V) (k : K) :
    (m.mapVals f).get k = (m.get k).map (f k) := rfl

@[simp] theorem keys_mapVals (f : K → V → W) (m : FinMap K V) :
    (m.mapVals f).keys = m.keys := rfl

@[simp] theorem mem_mapVals {f : K → V → W} {m : FinMap K V} {k : K} :
    k ∈ m.mapVals f ↔ k ∈ m := Iff.rfl

/-- A rewriting that fixes every value of the map changes nothing. -/
theorem mapVals_eq_self {f : K → V → V} (h : ∀ k v, m.get k = some v → f k v = v) :
    m.mapVals f = m := by
  refine ext_get fun k => ?_
  rw [get_mapVals]
  cases hk : m.get k with
  | none => rfl
  | some v => simp [h k v hk]

/-- The entries of `m` that satisfy `p`. -/
def filter (p : K → V → Bool) (m : FinMap K V) : FinMap K V where
  keys := m.keys.filter fun k => (m.get k).any (p k)
  get k := (m.get k).filter (p k)
  mem_keys k := by
    rw [Finset.mem_filter, m.mem_keys]
    cases m.get k <;> simp

@[simp] theorem get_filter (p : K → V → Bool) (m : FinMap K V) (k : K) :
    (m.filter p).get k = (m.get k).filter (p k) := rfl

theorem mem_filter : k ∈ m.filter p ↔ ∃ v, m.get k = some v ∧ p k v = true := by
  rw [mem_iff]
  simp only [get_filter, Option.filter_eq_some_iff]

/-- A condition that every entry satisfies drops nothing. -/
theorem filter_eq_self (h : ∀ k v, m.get k = some v → p k v = true) : m.filter p = m := by
  refine ext_get fun k => ?_
  rw [get_filter]
  cases hk : m.get k with
  | none => rfl
  | some v => simp [h k v hk]

/-- Does some entry of `m` satisfy `p`? -/
def any (p : K → V → Bool) (m : FinMap K V) : Bool :=
  decide (∃ k ∈ m.keys, (m.get k).any (p k) = true)

theorem any_eq_true : m.any p = true ↔ ∃ k v, m.get k = some v ∧ p k v = true := by
  simp only [any, decide_eq_true_eq, Option.any_eq_true]
  constructor
  · rintro ⟨k, -, v, hv, hp⟩
    exact ⟨k, v, hv, hp⟩
  · rintro ⟨k, v, hv, hp⟩
    exact ⟨k, mem_of_get hv, v, hv, hp⟩

theorem any_eq_false : m.any p = false ↔ ∀ k v, m.get k = some v → p k v = false := by
  rw [← Bool.not_eq_true, any_eq_true]
  simp

/-! ## Iteration orders -/

/-- `l` lists the keys of `m`, each once: one order in which a loop may visit them. -/
def Listing (m : FinMap K V) (l : List K) : Prop := (l : Multiset K) = m.keys.val

instance [DecidableEq K] (m : FinMap K V) (l : List K) : Decidable (m.Listing l) :=
  inferInstanceAs (Decidable (_ = _))

theorem Listing.mem_iff (h : m.Listing l) : k ∈ l ↔ k ∈ m := by
  rw [← Multiset.mem_coe, h]; rfl

theorem Listing.nodup (h : m.Listing l) : l.Nodup := by
  rw [← Multiset.coe_nodup, h]; exact m.keys.nodup

theorem Listing.perm {l' : List K} (h : m.Listing l) (h' : m.Listing l') : l.Perm l' :=
  Multiset.coe_eq_coe.1 (h.trans h'.symm)

theorem Listing.eq_nil (h : (∅ : FinMap K V).Listing l) : l = [] :=
  List.eq_nil_iff_forall_not_mem.mpr fun k hk => not_mem_empty k (h.mem_iff.mp hk)

/-- Some order exists. -/
theorem exists_listing (m : FinMap K V) : ∃ l, m.Listing l :=
  ⟨m.keys.val.toList, Multiset.coe_toList _⟩

end

/-! ## Keys in order -/

section
variable {K V : Type} (cmp : K → K → Ordering) [Std.TransCmp cmp] [Std.LawfulEqCmp cmp]

/-- The elements of a finite set in ascending order. -/
def sortedElems (s : Finset K) : List K :=
  Quot.liftOn s.val (sortBy cmp) fun _ _ h => sortBy_eq_of_perm cmp h

/-- The elements are sorted in whatever order they are listed. -/
theorem sortedElems_eq {s : Finset K} {l : List K} (h : (l : Multiset K) = s.val) :
    sortedElems cmp s = sortBy cmp l := by
  unfold sortedElems
  rw [← h]
  rfl

/-- The keys in ascending order. -/
def sortedKeys (m : FinMap K V) : List K := sortedElems cmp m.keys

theorem listing_sortedKeys (m : FinMap K V) : m.Listing (m.sortedKeys cmp) := by
  unfold Listing sortedKeys sortedElems
  induction m.keys.val using Quot.inductionOn with
  | _ l => exact Quot.sound (perm_sortBy cmp l)

@[simp] theorem mem_sortedKeys {m : FinMap K V} {k : K} : k ∈ m.sortedKeys cmp ↔ k ∈ m :=
  (m.listing_sortedKeys cmp).mem_iff

theorem pairwise_sortedKeys (m : FinMap K V) :
    (m.sortedKeys cmp).Pairwise fun a b => (cmp a b).isLE = true := by
  unfold sortedKeys sortedElems
  induction m.keys.val using Quot.inductionOn with
  | _ l => exact pairwise_sortBy cmp l

/-- The keys are in strictly ascending order. -/
theorem pairwise_lt_sortedKeys (m : FinMap K V) :
    (m.sortedKeys cmp).Pairwise fun a b => cmp a b = .lt := by
  refine ((m.pairwise_sortedKeys cmp).and (m.listing_sortedKeys cmp).nodup).imp fun ⟨hle, hne⟩ => ?_
  rcases Ordering.isLE_iff_eq_lt_or_eq_eq.mp hle with hlt | heq
  · exact hlt
  · exact absurd (Std.LawfulEqCmp.eq_of_compare heq) hne

end

end FinMap
