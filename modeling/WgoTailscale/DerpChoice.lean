import WgoTailscale.DerpHome

/-!
# Which home DERP region is chosen

The specification of `choosePreferredDERPMeasured` as one structure, `HomeChoice`. The loop over the
measurements finds the fastest usable region (`Fastest`), whatever order it visits them in, so the
whole function does not depend on that order; `homeChoice_measured` is the result.
-/

namespace WgoTailscale

open FinMap

/-! ## The fastest region -/

/-- The region under an id can be a home. -/
def Usable (derpMap : Option DERPMap) (id : Int) : Prop :=
  usableDERPRegion (regionOf derpMap id) = true

/-- A usable region with a positive latency. -/
structure Candidate (derpMap : Option DERPMap) (measured : FinMap Int DERPRegionLatency) (id : Int)
    (latency : Duration) : Prop where
  latency_eq : (measured.get id).map (·.latency) = some latency
  pos : 0 < latency
  usable : Usable derpMap id

/-- The candidate of least latency among the given ids, and of least id among those. -/
structure Fastest (derpMap : Option DERPMap) (measured : FinMap Int DERPRegionLatency)
    (ids : List Int) (best : Int × Duration) : Prop extends
    Candidate derpMap measured best.1 best.2 where
  mem : best.1 ∈ ids
  least : ∀ id ∈ ids, ∀ latency, Candidate derpMap measured id latency →
    best.2 < latency ∨ best.2 = latency ∧ best.1 ≤ id

section
variable {derpMap : Option DERPMap} {measured : FinMap Int DERPRegionLatency} {current id : Int}
  {latency : Duration} {order ids : List Int} {best : Int × Duration}

theorem Candidate.mem (h : Candidate derpMap measured id latency) : id ∈ measured := by
  obtain ⟨metric, hmetric, -⟩ := Option.map_eq_some_iff.mp h.latency_eq
  exact mem_of_get hmetric

theorem Candidate.unique {latency' : Duration} (h : Candidate derpMap measured id latency)
    (h' : Candidate derpMap measured id latency') : latency = latency' :=
  Option.some.inj (h.latency_eq.symm.trans h'.latency_eq)

/-- What is fastest in one order is fastest in any other. -/
theorem Fastest.unique {best' : Int × Duration} {ids' : List Int}
    (h : Fastest derpMap measured ids best) (h' : Fastest derpMap measured ids' best')
    (hids : ∀ id, id ∈ ids ↔ id ∈ ids') : best = best' := by
  have hle := h.least best'.1 ((hids _).mpr h'.mem) best'.2 h'.toCandidate
  have hge := h'.least best.1 ((hids _).mp h.mem) best.2 h.toCandidate
  rcases hle with hlt | ⟨heq, hid⟩
  · rcases hge with hgt | ⟨heq, -⟩
    · exact absurd hlt (not_lt_of_gt hgt)
    · exact absurd heq (ne_of_gt hlt)
  · rcases hge with hgt | ⟨-, hid'⟩
    · exact absurd heq (ne_of_gt hgt)
    · exact Prod.ext (le_antisymm hid hid') heq

/-- What the loop over the measurements has found: nothing, or the fastest region so far. -/
def Found (derpMap : Option DERPMap) (measured : FinMap Int DERPRegionLatency) (ids : List Int)
    (best : Int × Duration) : Prop :=
  (best = (0, 0) ∧ ∀ id ∈ ids, ∀ latency, ¬ Candidate derpMap measured id latency) ∨
    Fastest derpMap measured ids best

/-- One round of the loop. -/
theorem Found.betterRegion (hzero : 0 ∉ measured) (h : Found derpMap measured ids best) (id : Int) :
    Found derpMap measured (ids ++ [id]) (betterRegion derpMap measured best id) := by
  -- a region that is passed over is none that would be faster
  have hskip (hnew : ∀ latency, Candidate derpMap measured id latency →
      best.1 ≠ 0 ∧ (best.2 < latency ∨ best.2 = latency ∧ best.1 ≤ id)) :
      Found derpMap measured (ids ++ [id]) best := by
    rcases h with ⟨hnone, hold⟩ | hold
    · refine .inl ⟨hnone, fun id' hid' latency hlatency => ?_⟩
      rcases List.mem_append.mp hid' with hid' | hid'
      · exact hold id' hid' latency hlatency
      · obtain rfl := List.mem_singleton.mp hid'
        exact (hnew latency hlatency).1 (by rw [hnone])
    · refine .inr { hold with
        mem := List.mem_append_left _ hold.mem
        least := fun id' hid' latency hlatency => ?_ }
      rcases List.mem_append.mp hid' with hid' | hid'
      · exact hold.least id' hid' latency hlatency
      · obtain rfl := List.mem_singleton.mp hid'
        exact (hnew latency hlatency).2
  unfold WgoTailscale.betterRegion
  split
  · next hnone =>
    refine hskip fun latency hlatency => ?_
    exact absurd hlatency.mem (not_mem_iff.mpr hnone)
  · next metric hmetric =>
    split
    · next hunusable =>
      refine hskip fun latency hlatency => ?_
      obtain rfl : metric.latency = latency := by
        have hmeasured := hlatency.latency_eq
        rw [hmetric] at hmeasured
        exact Option.some.inj hmeasured
      rcases hunusable with hpos | hunusable
      · exact absurd hlatency.pos (not_lt_of_ge hpos)
      · exact absurd hlatency.usable (by rw [Usable, hunusable]; decide)
    · next husable =>
      obtain ⟨hpos, husable⟩ := not_or.mp husable
      have hnew : Candidate derpMap measured id metric.latency :=
        ⟨by rw [hmetric]; rfl, not_le.mp hpos, Bool.eq_true_of_not_eq_false husable⟩
      split
      · next hbetter =>
        refine .inr { hnew with
          mem := List.mem_append_right _ (List.mem_singleton_self id)
          least := fun id' hid' latency hlatency => ?_ }
        rcases List.mem_append.mp hid' with hid' | hid'
        · rcases h with ⟨-, hold⟩ | hold
          · exact absurd hlatency (hold id' hid' latency)
          · have hne : best.1 ≠ 0 := fun h0 => hzero (h0 ▸ hold.toCandidate.mem)
            have hleast := hold.least id' hid' latency hlatency
            rcases hbetter.resolve_left hne with hlt | ⟨heq, hid⟩
            · exact .inl (hleast.elim hlt.trans fun h => h.1 ▸ hlt)
            · rw [heq]
              exact hleast.imp_right fun h => ⟨h.1, hid.le.trans h.2⟩
        · obtain rfl := List.mem_singleton.mp hid'
          exact .inr ⟨hnew.unique hlatency, le_rfl⟩
      · next hworse =>
        refine hskip fun latency hlatency => ?_
        obtain rfl := hnew.unique hlatency
        obtain ⟨hne, hworse⟩ := not_or.mp hworse
        obtain ⟨hge, hid⟩ := not_or.mp hworse
        rcases (not_lt.mp hge).lt_or_eq with hlt | heq
        · exact ⟨hne, .inl hlt⟩
        · exact ⟨hne, .inr ⟨heq, not_lt.mp fun h => hid ⟨heq.symm, h⟩⟩⟩

/-- The loop finds the fastest region. -/
theorem found_foldl (derpMap : Option DERPMap) (hzero : 0 ∉ measured) (ids : List Int) :
    Found derpMap measured ids (ids.foldl (betterRegion derpMap measured) (0, 0)) := by
  induction ids using List.reverseRecOn with
  | nil => exact .inl ⟨rfl, nofun⟩
  | append_singleton ids id ih =>
    rw [List.foldl_append]
    exact ih.betterRegion hzero id

/-! ## The choice -/

/-- What `choosePreferredDERP` takes: a usable current home, else the usable region of least id. -/
structure FallbackChoice (derpMap : Option DERPMap) (current result : Int) : Prop where
  keeps : Usable derpMap current → result = current
  least : ¬ Usable derpMap current → ∀ id, Usable derpMap id → Usable derpMap result ∧ result ≤ id
  none : (∀ id, ¬ Usable derpMap id) → result = 0

/-- What `choosePreferredDERPMeasured` takes. -/
structure HomeChoice (derpMap : Option DERPMap) (current : Int)
    (measured : FinMap Int DERPRegionLatency) (result : Int) : Prop where
  usable : result = 0 ∨ Usable derpMap result
  /-- Without a measurement of a usable region the map alone decides. -/
  unmeasured : (∀ id latency, ¬ Candidate derpMap measured id latency) →
    FallbackChoice derpMap current result
  /-- Otherwise it is the current home or the fastest region. -/
  fastest : ∀ id latency, Candidate derpMap measured id latency → result = current ∨
    ∃ best, Candidate derpMap measured result best ∧ (best < latency ∨ best = latency ∧ result ≤ id)
  /-- A measured current home is only left for a region that is clearly faster. -/
  sticky : ∀ latency, Candidate derpMap measured current latency → result ≠ current →
    ∃ best, Candidate derpMap measured result best ∧
      10 * (second / 1000) ≤ latency - best ∧ best ≤ 2 * (latency / 3)

/-- A usable region is in the map. -/
theorem Usable.mem {m : DERPMap} (h : Usable (some m) id) : id ∈ m.regions.getD ∅ := by
  by_contra hnot
  have hregion : regionOf (some m) id = none := by
    show (GoMap.get m.regions id).join = none
    cases hregions : m.regions with
    | none => rfl
    | some regions =>
      rw [hregions] at hnot
      show (regions.get id).join = none
      rw [show regions.get id = none from not_mem_iff.mp hnot]
      rfl
  rw [Usable, hregion] at h
  cases h

theorem fallbackChoice (derpMap : Option DERPMap) (current : Int) :
    FallbackChoice derpMap current (choosePreferredDERP derpMap current) := by
  cases derpMap with
  | none => exact ⟨nofun, nofun, fun _ => rfl⟩
  | some m =>
    unfold choosePreferredDERP
    dsimp only
    split
    · next husable => exact ⟨fun _ => rfl, fun h => absurd husable h, fun h => absurd husable (h _)⟩
    next hunusable =>
    have hmem (id : Int) (husable : Usable (some m) id) :
        id ∈ ((m.regions.getD ∅).sortedKeys (compare : Int → Int → Ordering)).filter
          fun id => usableDERPRegion (regionOf (some m) id) :=
      List.mem_filter.mpr ⟨(mem_sortedKeys _).mpr husable.mem, husable⟩
    split
    · next hnil =>
      refine ⟨fun h => absurd h hunusable, fun _ id husable => ?_, fun _ => rfl⟩
      have hid := hmem id husable
      rw [hnil] at hid
      cases hid
    · next first rest hcons =>
      rw [hcons] at hmem
      have husable : Usable (some m) first := by
        have hfirst := List.mem_filter.mp (hcons ▸ List.mem_cons_self)
        exact hfirst.2
      have hsorted := (pairwise_sortedKeys (compare : Int → Int → Ordering)
        (m.regions.getD ∅)).filter fun id => usableDERPRegion (regionOf (some m) id)
      rw [hcons] at hsorted
      refine ⟨fun h => absurd h hunusable, fun _ id hid => ⟨husable, ?_⟩,
        fun h => absurd husable (h _)⟩
      rcases List.mem_cons.mp (hmem id hid) with rfl | hrest
      · exact le_rfl
      · have hle := List.rel_of_pairwise_cons hsorted hrest
        exact compare_le_iff_le.mp (Ordering.isLE_iff_ne_gt.mp hle)

/-- The loop finds the same in every order. -/
theorem foldl_betterRegion (hzero : 0 ∉ measured) (hids : ∀ id, id ∈ ids ↔ id ∈ order) :
    ids.foldl (betterRegion derpMap measured) (0, 0) =
      order.foldl (betterRegion derpMap measured) (0, 0) := by
  rcases found_foldl derpMap hzero ids with ⟨heq, hnone⟩ | hfast
  · rcases found_foldl derpMap hzero order with ⟨heq', -⟩ | hfast'
    · rw [heq, heq']
    · exact absurd hfast'.toCandidate (hnone _ ((hids _).mpr hfast'.mem) _)
  · rcases found_foldl derpMap hzero order with ⟨-, hnone⟩ | hfast'
    · exact absurd hfast.toCandidate (hnone _ ((hids _).mp hfast.mem) _)
    · exact hfast.unique hfast' hids

/-- How the choice is made: by the map alone, for the fastest region, or for the current one
although it is not the fastest. -/
inductive ChosenBy (derpMap : Option DERPMap) (current : Int)
    (measured : FinMap Int DERPRegionLatency) (order : List Int) : Int → Prop
  | fallback (hnone : ∀ id latency, ¬ Candidate derpMap measured id latency) :
      ChosenBy derpMap current measured order (choosePreferredDERP derpMap current)
  | fastest {best : Int × Duration} (h : Fastest derpMap measured order best)
      (hclear : ∀ latency, Candidate derpMap measured current latency → best.1 ≠ current →
        10 * (second / 1000) ≤ latency - best.2 ∧ best.2 ≤ 2 * (latency / 3)) :
      ChosenBy derpMap current measured order best.1
  | current {best : Int × Duration} (h : Fastest derpMap measured order best) {latency : Duration}
      (hcurrent : Candidate derpMap measured current latency) :
      ChosenBy derpMap current measured order current

theorem chosenBy (derpMap : Option DERPMap) (current : Int) (hzero : 0 ∉ measured)
    (horder : measured.Listing order) :
    ChosenBy derpMap current measured order
      (choosePreferredDERPMeasuredFrom order derpMap current measured) := by
  have hfound := found_foldl derpMap hzero order
  unfold choosePreferredDERPMeasuredFrom
  dsimp only
  generalize order.foldl (betterRegion derpMap measured) (0, 0) = best at hfound
  split
  · next hempty =>
    refine .fallback fun id latency hcandidate => ?_
    rcases hempty with hnil | hempty
    · rw [Option.isNone_iff_eq_none] at hnil
      subst hnil
      cases hcandidate.usable
    · rw [eq_empty_of_keys hempty] at hcandidate
      cases hcandidate.latency_eq
  rcases hfound with ⟨rfl, hnone⟩ | hfast
  · rw [if_pos rfl]
    exact .fallback fun id latency hcandidate =>
      hnone id (horder.mem_iff.mpr hcandidate.mem) latency hcandidate
  have hne : best.1 ≠ 0 := fun h0 => hzero (h0 ▸ hfast.toCandidate.mem)
  rw [if_neg hne]
  split
  · next hcurrent => exact .fastest hfast fun _ _ h => absurd hcurrent h
  split
  · next hnone =>
    refine .fastest hfast fun latency hcandidate => ?_
    exact absurd hcandidate.mem (not_mem_iff.mpr hnone)
  next metric hmetric =>
  split
  · next husable =>
    have hcurrent : Candidate derpMap measured current metric.latency :=
      ⟨by rw [hmetric]; rfl, husable.2, husable.1⟩
    split
    · exact .current hfast hcurrent
    · split
      · exact .current hfast hcurrent
      · next hclear =>
        refine .fastest hfast fun latency hcandidate _ => ?_
        obtain rfl := hcurrent.unique hcandidate
        obtain ⟨hgap, hthird⟩ := not_or.mp hclear
        exact ⟨not_lt.mp hgap, by rw [mul_comm]; exact not_lt.mp hthird⟩
  · next hunusable =>
    refine .fastest hfast fun latency hcandidate => ?_
    have hlatency := hcandidate.latency_eq
    rw [hmetric] at hlatency
    obtain rfl : metric.latency = latency := Option.some.inj hlatency
    exact absurd ⟨hcandidate.usable, hcandidate.pos⟩ hunusable

/-- The choice does not depend on the order of the measurements. -/
theorem choosePreferredDERPMeasuredFrom_eq (hzero : 0 ∉ measured)
    (horder : measured.Listing order) :
    choosePreferredDERPMeasuredFrom order derpMap current measured =
      choosePreferredDERPMeasured derpMap current measured := by
  unfold choosePreferredDERPMeasured choosePreferredDERPMeasuredFrom
  have hids (id : Int) : id ∈ order ↔ id ∈ measured.sortedKeys (compare : Int → Int → Ordering) :=
    horder.mem_iff.trans (mem_sortedKeys _).symm
  rw [foldl_betterRegion hzero hids]

/-- The fallback is a usable region if there is one. -/
theorem FallbackChoice.usable_of {result : Int} (h : FallbackChoice derpMap current result)
    (hid : Usable derpMap id) : Usable derpMap result := by
  by_cases hcurrent : Usable derpMap current
  · exact h.keeps hcurrent ▸ hcurrent
  · exact (h.least hcurrent id hid).1

theorem FallbackChoice.usable {result : Int} (h : FallbackChoice derpMap current result) :
    result = 0 ∨ Usable derpMap result := by
  by_cases hsome : ∃ id, Usable derpMap id
  · obtain ⟨id, hid⟩ := hsome
    exact .inr (h.usable_of hid)
  · exact .inl (h.none fun id hid => hsome ⟨id, hid⟩)

/-- The fallback of the fallback is itself. -/
theorem FallbackChoice.again {result result' : Int} (h : FallbackChoice derpMap current result)
    (h' : FallbackChoice derpMap result result') : result' = result := by
  rcases h.usable with rfl | husable
  · by_cases hsome : ∃ id, Usable derpMap id
    · obtain ⟨id, hid⟩ := hsome
      exact h'.keeps (h.usable_of hid)
    · exact h'.none fun id hid => hsome ⟨id, hid⟩
  · exact h'.keeps husable

/-- What is chosen in one of the three ways meets the specification. -/
theorem ChosenBy.homeChoice {result : Int} (horder : measured.Listing order)
    (h : ChosenBy derpMap current measured order result) :
    HomeChoice derpMap current measured result := by
  cases h with
  | fallback hnone =>
    exact ⟨(fallbackChoice derpMap current).usable, fun _ => fallbackChoice derpMap current,
      fun id latency hcandidate => absurd hcandidate (hnone id latency),
      fun latency hcandidate => absurd hcandidate (hnone current latency)⟩
  | @fastest best hfast hclear =>
    refine ⟨.inr hfast.usable, fun hnone => absurd hfast.toCandidate (hnone _ _),
      fun id latency hcandidate => .inr ⟨best.2, hfast.toCandidate, ?_⟩,
      fun latency hcandidate hne => ⟨best.2, hfast.toCandidate, hclear latency hcandidate hne⟩⟩
    exact hfast.least id (horder.mem_iff.mpr hcandidate.mem) latency hcandidate
  | current hfast hcurrent =>
    exact ⟨.inr hcurrent.usable, fun hnone => absurd hcurrent (hnone _ _),
      fun _ _ _ => .inl rfl, fun _ _ hne => absurd rfl hne⟩

/-- Choosing again with the result as the current home changes nothing. -/
theorem ChosenBy.again {result result' : Int}
    (h : ChosenBy derpMap current measured order result)
    (h' : ChosenBy derpMap result measured order result') (hresult : result ≠ current) :
    result' = result := by
  cases h with
  | fallback hnone =>
    cases h' with
    | fallback => exact (fallbackChoice derpMap current).again (fallbackChoice derpMap _)
    | fastest hfast | current hfast => exact absurd hfast.toCandidate (hnone _ _)
  | fastest hfast =>
    cases h' with
    | fallback hnone => exact absurd hfast.toCandidate (hnone _ _)
    | fastest hfast' => rw [hfast.unique hfast' fun _ => Iff.rfl]
    | current => rfl
  | current => exact absurd rfl hresult

/-- The home region that is chosen, in whatever order the measurements are visited: it meets
`HomeChoice`, and choosing again with it as the current home gives it again. -/
theorem homeChoice_measured (derpMap : Option DERPMap) (current : Int)
    (measured : FinMap Int DERPRegionLatency) (order : List Int) (hzero : 0 ∉ measured)
    (horder : measured.Listing order) :
    choosePreferredDERPMeasuredFrom order derpMap current measured =
        choosePreferredDERPMeasured derpMap current measured ∧
      HomeChoice derpMap current measured (choosePreferredDERPMeasured derpMap current measured) ∧
      choosePreferredDERPMeasured derpMap
          (choosePreferredDERPMeasured derpMap current measured) measured =
        choosePreferredDERPMeasured derpMap current measured := by
  refine ⟨choosePreferredDERPMeasuredFrom_eq hzero horder, ?_, ?_⟩
  · rw [← choosePreferredDERPMeasuredFrom_eq hzero horder]
    exact (chosenBy derpMap current hzero horder).homeChoice horder
  · have hchosen := chosenBy derpMap current hzero horder
    rw [choosePreferredDERPMeasuredFrom_eq hzero horder] at hchosen
    by_cases hsame : choosePreferredDERPMeasured derpMap current measured = current
    · rw [hsame, hsame]
    · have hagain := chosenBy derpMap
        (choosePreferredDERPMeasured derpMap current measured) hzero horder
      rw [choosePreferredDERPMeasuredFrom_eq hzero horder] at hagain
      exact hchosen.again hagain hsame

end

/-- Two regions, both usable; the home is the slower one. -/
def twoRegions : DERPMap where
  regions := some (ofList
    [(1, some { regionID := 1, nodes := some [some { name := "1a" }] }),
      (2, some { regionID := 2, nodes := some [some { name := "2a" }] })])

/-- Their measurements: 50 ms and 10 ms. -/
def twoLatencies : FinMap Int DERPRegionLatency :=
  ofList
    [(1, { regionID := 1, latency := 50 * (second / 1000), source := .stun, time := 0 }),
      (2, { regionID := 2, latency := 10 * (second / 1000), source := .stun, time := 0 })]

theorem homeChoice_two_regions :
    choosePreferredDERPMeasuredFrom [2, 1] (some twoRegions) 1 twoLatencies = 2 ∧
      HomeChoice (some twoRegions) 1 twoLatencies 2 := by
  have hchoice : choosePreferredDERPMeasured (some twoRegions) 1 twoLatencies = 2 := by
    decide +kernel
  have h := homeChoice_measured (some twoRegions) 1 twoLatencies [2, 1] (by decide) (by decide)
  rw [hchoice] at h
  exact ⟨h.1, h.2.1⟩

end WgoTailscale
