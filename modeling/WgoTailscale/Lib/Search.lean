import Mathlib.Data.Finset.Card
import Mathlib.Logic.Relation

/-!
# Depth-first search that collects values

A node has a list of items, which are values and edges to other nodes. `visit` walks the graph
depth first, with one set of visited nodes that all branches share, and collects the values it comes
by. It takes the depth that is still allowed, so that it is total on any graph. With enough depth it
succeeds (`exists_visit`), and from an empty set of visited nodes it collects exactly the values of
the nodes that can be reached (`mem_visit`), however the graph is shaped.
-/

/-- An item of a node. -/
inductive SearchItem (ν α : Type) where
  | value (a : α)
  | edge (v : ν)

section
variable {ν α : Type}
variable {go : ν → Finset ν → Option (List α × Finset ν)} {acc : List α × Finset ν}

/-- One item of a node: the values so far and the visited nodes. -/
def visitItem (go : ν → Finset ν → Option (List α × Finset ν)) (acc : List α × Finset ν) :
    SearchItem ν α → Option (List α × Finset ν)
  | .value a => some (acc.1 ++ [a], acc.2)
  | .edge v => (go v acc.2).map fun r => (acc.1 ++ r.1, r.2)

/-- There is an edge from `v` to `w`. -/
def Edge (items : ν → List (SearchItem ν α)) (v w : ν) : Prop := .edge w ∈ items v

/-- `w` can be reached from `v`. -/
def Reachable (items : ν → List (SearchItem ν α)) : ν → ν → Prop :=
  Relation.ReflTransGen (Edge items)

/-- What a walk from some nodes leaves: besides the nodes `seen` before, it has visited nodes that
can be reached from them, with all their edges, and it has collected their values. -/
structure Explored (items : ν → List (SearchItem ν α)) (seen : Finset ν) (origin : ν → Prop)
    (r : List α × Finset ν) : Prop where
  grows : seen ⊆ r.2
  arrives : ∀ v, origin v → v ∈ r.2
  reached : ∀ w ∈ r.2, w ∉ seen → ∃ v, origin v ∧ Reachable items v w
  closed : ∀ w ∈ r.2, w ∉ seen → ∀ u, Edge items w u → u ∈ r.2
  values : ∀ a, a ∈ r.1 ↔ ∃ w ∈ r.2, w ∉ seen ∧ .value a ∈ items w

variable {items : ν → List (SearchItem ν α)} {seen : Finset ν} {r r' : List α × Finset ν}
  {origin origin' : ν → Prop}

/-! ## Soundness and completeness -/

/-- Nothing was walked. -/
theorem Explored.nil (seen : Finset ν) : Explored items seen (fun _ => False) ([], seen) where
  grows := subset_rfl
  arrives _ h := h.elim
  reached _ hw hnot := absurd hw hnot
  closed _ hw hnot := absurd hw hnot
  values _ := ⟨nofun, fun ⟨_, hw, hnot, _⟩ => absurd hw hnot⟩

/-- Two walks, one after the other. -/
theorem Explored.append (h : Explored items seen origin r) (h' : Explored items r.2 origin' r') :
    Explored items seen (fun v => origin v ∨ origin' v) (r.1 ++ r'.1, r'.2) where
  grows := h.grows.trans h'.grows
  arrives v hv := hv.elim (fun hv => h'.grows (h.arrives v hv)) (h'.arrives v)
  reached w hw hnot := by
    by_cases hr : w ∈ r.2
    · obtain ⟨v, hv, hreach⟩ := h.reached w hr hnot
      exact ⟨v, .inl hv, hreach⟩
    · obtain ⟨v, hv, hreach⟩ := h'.reached w hw hr
      exact ⟨v, .inr hv, hreach⟩
  closed w hw hnot u hu := by
    by_cases hr : w ∈ r.2
    · exact h'.grows (h.closed w hr hnot u hu)
    · exact h'.closed w hw hr u hu
  values a := by
    rw [List.mem_append, h.values, h'.values]
    constructor
    · rintro (⟨w, hw, hnot, ha⟩ | ⟨w, hw, hnot, ha⟩)
      · exact ⟨w, h'.grows hw, hnot, ha⟩
      · exact ⟨w, hw, fun hseen => hnot (h.grows hseen), ha⟩
    · rintro ⟨w, hw, hnot, ha⟩
      by_cases hr : w ∈ r.2
      · exact .inl ⟨w, hr, hnot, ha⟩
      · exact .inr ⟨w, hw, hr, ha⟩

theorem Explored.congr (h : Explored items seen origin r) (horigin : ∀ v, origin' v ↔ origin v) :
    Explored items seen origin' r := by
  obtain rfl : origin' = origin := funext fun v => propext (horigin v)
  exact h

/-- The walk over the items of a node: each edge is walked from where the last one ended. -/
theorem explored_items (hgo : ∀ v seen r, go v seen = some r → Explored items seen (· = v) r)
    (l : List (SearchItem ν α)) (h : l.foldlM (visitItem go) acc = some r) :
    ∃ found, Explored items acc.2 (fun v => .edge v ∈ l) (found, r.2) ∧
      ∀ a, a ∈ r.1 ↔ a ∈ acc.1 ∨ .value a ∈ l ∨ a ∈ found := by
  induction l generalizing acc with
  | nil =>
    obtain rfl : acc = r := Option.some.inj h
    exact ⟨[], (Explored.nil _).congr (by simp), by simp⟩
  | cons item l ih =>
    rw [List.foldlM_cons] at h
    obtain ⟨acc', hitem, hrest⟩ := Option.bind_eq_some_iff.mp h
    obtain ⟨found, hexplored, hvalues⟩ := ih hrest
    cases item with
    | value a =>
      cases hitem
      refine ⟨found, hexplored.congr (by simp), fun b => ?_⟩
      rw [hvalues]
      simp [or_assoc]
    | edge v =>
      obtain ⟨r', hr', rfl⟩ := Option.map_eq_some_iff.mp hitem
      refine ⟨r'.1 ++ found, ((hgo v acc.2 r' hr').append hexplored).congr (by simp), fun a => ?_⟩
      rw [hvalues]
      simp only [List.mem_append, List.mem_cons, reduceCtorEq, false_or]
      tauto

/-- The walk over the items succeeds if the walks from their edges do. -/
theorem isSome_items (start : Finset ν) (hgrows : ∀ v seen r, go v seen = some r → seen ⊆ r.2)
    (l : List (SearchItem ν α))
    (hgo : ∀ v, .edge v ∈ l → ∀ seen, start ⊆ seen → (go v seen).isSome = true)
    (hacc : start ⊆ acc.2) : (l.foldlM (visitItem go) acc).isSome = true := by
  induction l generalizing acc with
  | nil => rfl
  | cons item l ih =>
    rw [List.foldlM_cons]
    have hrest := fun v (hv : .edge v ∈ l) => hgo v (List.mem_cons_of_mem _ hv)
    cases item with
    | value a => exact ih hrest hacc
    | edge v =>
      obtain ⟨r, hr⟩ := Option.isSome_iff_exists.mp (hgo v List.mem_cons_self acc.2 hacc)
      have hitem : visitItem go acc (.edge v) = some (acc.1 ++ r.1, r.2) := by
        rw [visitItem, hr]
        rfl
      rw [hitem]
      exact ih hrest (hacc.trans (hgrows v acc.2 r hr))

/-- The walk over the items repeats what the walks from their edges found. -/
theorem items_mono {go' : ν → Finset ν → Option (List α × Finset ν)}
    (hgo : ∀ v seen r, go v seen = some r → go' v seen = some r) (l : List (SearchItem ν α))
    (h : l.foldlM (visitItem go) acc = some r) : l.foldlM (visitItem go') acc = some r := by
  induction l generalizing acc with
  | nil => exact h
  | cons item l ih =>
    rw [List.foldlM_cons] at h ⊢
    obtain ⟨mid, hmid, hrest⟩ := Option.bind_eq_some_iff.mp h
    refine Option.bind_eq_some_iff.mpr ⟨mid, ?_, ih hrest⟩
    cases item with
    | value a => exact hmid
    | edge v =>
      obtain ⟨found, hfound, hpair⟩ := Option.map_eq_some_iff.mp hmid
      exact Option.map_eq_some_iff.mpr ⟨found, hgo v acc.2 found hfound, hpair⟩

end

section
variable {ν α : Type} [DecidableEq ν]

/-- The values found from a node on, and the nodes visited then. -/
def visit (items : ν → List (SearchItem ν α)) : Nat → ν → Finset ν → Option (List α × Finset ν)
  | 0, _, _ => none
  | depth + 1, v, seen =>
    if v ∈ seen then some ([], seen)
    else (items v).foldlM (visitItem (visit items depth)) ([], insert v seen)

variable {items : ν → List (SearchItem ν α)} {depth : Nat} {v : ν} {seen : Finset ν}
  {r : List α × Finset ν}

/-- The walk from a node. -/
theorem explored_visit (h : visit items depth v seen = some r) :
    Explored items seen (· = v) r := by
  induction depth generalizing v seen r with
  | zero => cases h
  | succ depth ih =>
    rw [visit] at h
    split at h
    · next hseen =>
      cases h
      exact { Explored.nil seen with
        arrives := fun w hw => hw ▸ hseen
        reached := fun w hw hnot => absurd hw hnot }
    · next hnew =>
      obtain ⟨found, hexplored, hvalues⟩ := explored_items (fun v seen r => ih) _ h
      have hv : v ∈ r.2 := hexplored.grows (Finset.mem_insert_self v seen)
      have hcases {w : ν} (hw : w ≠ v) (hnot : w ∉ seen) : w ∉ insert v seen := by
        simp [hw, hnot]
      refine ⟨(Finset.subset_insert v seen).trans hexplored.grows, fun w hw => hw ▸ hv,
        fun w hw hnot => ⟨v, rfl, ?_⟩, fun w hw hnot u hu => ?_, fun a => ?_⟩
      · by_cases hwv : w = v
        · exact hwv ▸ .refl
        · obtain ⟨u, hu, hreach⟩ := hexplored.reached w hw (hcases hwv hnot)
          exact .head hu hreach
      · by_cases hwv : w = v
        · exact hexplored.arrives u (hwv ▸ hu)
        · exact hexplored.closed w hw (hcases hwv hnot) u hu
      · rw [hvalues, hexplored.values]
        constructor
        · rintro (hnil | ha | ⟨w, hw, hnot, ha⟩)
          · cases hnil
          · exact ⟨v, hv, hnew, ha⟩
          · exact ⟨w, hw, fun hseen => hnot (Finset.mem_insert_of_mem hseen), ha⟩
        · rintro ⟨w, hw, hnot, ha⟩
          by_cases hwv : w = v
          · exact .inr (.inl (hwv ▸ ha))
          · exact .inr (.inr ⟨w, hw, hcases hwv hnot, ha⟩)

/-- From an empty set of visited nodes, the walk collects the values of what can be reached. -/
theorem mem_visit (h : visit items depth v ∅ = some r) {a : α} :
    a ∈ r.1 ↔ ∃ w, Reachable items v w ∧ .value a ∈ items w := by
  have hexplored := explored_visit h
  have hmem (w : ν) : w ∈ r.2 ↔ Reachable items v w := by
    constructor
    · intro hw
      obtain ⟨u, rfl, hreach⟩ := hexplored.reached w hw (Finset.notMem_empty w)
      exact hreach
    · intro hreach
      induction hreach with
      | refl => exact hexplored.arrives v rfl
      | tail _ hedge ih => exact hexplored.closed _ ih (Finset.notMem_empty _) _ hedge
  rw [hexplored.values]
  simp only [hmem, Finset.notMem_empty, not_false_eq_true, true_and]

/-! ## Termination -/

/-- The walk needs no more depth than there are nodes that it has not visited. -/
theorem isSome_visit {nodes : Finset ν} (hclosed : ∀ w ∈ nodes, ∀ u, Edge items w u → u ∈ nodes)
    (hv : v ∈ nodes) (hdepth : (nodes \ seen).card < depth) :
    (visit items depth v seen).isSome = true := by
  induction depth generalizing v seen with
  | zero => exact absurd hdepth (Nat.not_lt_zero _)
  | succ depth ih =>
    rw [visit]
    split
    · rfl
    · next hnew =>
      refine isSome_items (insert v seen) (fun w seen r h => (explored_visit h).grows) _
        (fun w hw seen' hseen' => ih (hclosed v hv w hw) ?_) subset_rfl
      have hlt : (nodes \ insert v seen).card < (nodes \ seen).card := by
        rw [Finset.sdiff_insert]
        exact Finset.card_erase_lt_of_mem (Finset.mem_sdiff.mpr ⟨hv, hnew⟩)
      have hle : (nodes \ seen').card ≤ (nodes \ insert v seen).card :=
        Finset.card_le_card (Finset.sdiff_subset_sdiff subset_rfl hseen')
      omega

/-- More depth changes nothing. -/
theorem visit_succ (h : visit items depth v seen = some r) :
    visit items (depth + 1) v seen = some r := by
  induction depth generalizing v seen r with
  | zero => cases h
  | succ depth ih =>
    rw [visit] at h ⊢
    split at h
    · next hseen => rw [if_pos hseen, h]
    · next hnew =>
      rw [if_neg hnew]
      exact items_mono (fun _ _ _ => ih) _ h

/-- From a node of a finite closed set the walk has one result, whatever depth it is given beyond
the size of the set. -/
theorem exists_visit {nodes : Finset ν} (hclosed : ∀ w ∈ nodes, ∀ u, Edge items w u → u ∈ nodes)
    (hv : v ∈ nodes) : ∃ r, ∀ depth, nodes.card < depth → visit items depth v ∅ = some r := by
  have hfirst : (visit items (nodes.card + 1) v ∅).isSome = true :=
    isSome_visit hclosed hv (by rw [Finset.sdiff_empty]; exact Nat.lt_succ_self _)
  obtain ⟨r, hr⟩ := Option.isSome_iff_exists.mp hfirst
  refine ⟨r, fun depth hdepth => ?_⟩
  induction depth, hdepth using Nat.le_induction with
  | base => exact hr
  | succ depth _ ih => exact visit_succ ih

end
