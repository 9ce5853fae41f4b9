import WgoTailscale.Netcheck

/-!
# Netcheck rounds and their reports

What a round reports. `RoundsSound` holds between all steps: the current round has neither been
reported nor superseded, its latencies are the least of what was recorded under its id
(`LatencyTally`), and every report lists those of regions that were targets of its round
(`RoundReport.Good`).
-/

namespace WgoTailscale

open FinMap

/-! ## Latencies -/

/-- The latency is the least that was recorded for the region under the id. -/
structure LatencySample.Least (samples : List LatencySample) (id : Nat)
    (metric : DERPRegionLatency) : Prop where
  pos : 0 < metric.latency
  recorded : ⟨id, metric.regionID, metric.latency⟩ ∈ samples
  least : ∀ latency, ⟨id, metric.regionID, latency⟩ ∈ samples → metric.latency ≤ latency

/-- The latencies after another one was measured. -/
def keepLeast (latencies : FinMap Int DERPRegionLatency) (metric : DERPRegionLatency) :
    FinMap Int DERPRegionLatency :=
  match latencies.get metric.regionID with
  | none => latencies.insert metric.regionID metric
  | some previous =>
    if previous.latency ≤ metric.latency then latencies
    else latencies.insert metric.regionID metric

/-- The latencies are the least that were recorded under the id. -/
structure LatencyTally (samples : List LatencySample) (id : Nat)
    (latencies : FinMap Int DERPRegionLatency) : Prop where
  least : ∀ k metric, latencies.get k = some metric → metric.regionID = k ∧
    LatencySample.Least samples id metric
  complete : ∀ k latency, ⟨id, k, latency⟩ ∈ samples → k ∈ latencies

section
variable {samples : List LatencySample} {id : Nat} {latencies : FinMap Int DERPRegionLatency}
  {metric : DERPRegionLatency}

theorem LatencyTally.empty (h : ∀ x ∈ samples, x.checkID ≠ id) : LatencyTally samples id ∅ where
  least _ _ hk := nomatch hk
  complete _ _ hmem := absurd rfl (h _ hmem)

/-- A latency for another round changes nothing. -/
theorem LatencyTally.cons_other (h : LatencyTally samples id latencies) {x : LatencySample}
    (hx : x.checkID ≠ id) : LatencyTally (x :: samples) id latencies := by
  have hmem {k : Int} {latency : Duration} :
      (⟨id, k, latency⟩ : LatencySample) ∈ x :: samples ↔ ⟨id, k, latency⟩ ∈ samples := by
    rw [List.mem_cons, or_iff_right]
    rintro rfl
    exact hx rfl
  refine ⟨fun k metric hk => ?_, fun k latency hk => h.complete k latency (hmem.mp hk)⟩
  obtain ⟨hregion, hpos, hrecorded, hleast⟩ := h.least k metric hk
  exact ⟨hregion, hpos, hmem.mpr hrecorded, fun latency hlatency =>
    hleast latency (hmem.mp hlatency)⟩

/-- `recordDERPLatency` keeps the least. -/
theorem LatencyTally.record (h : LatencyTally samples id latencies) (hpos : 0 < metric.latency) :
    LatencyTally (⟨id, metric.regionID, metric.latency⟩ :: samples) id
      (keepLeast latencies metric) := by
  -- a new least latency replaces the one of its region
  have hinsert (hless : ∀ latency, ⟨id, metric.regionID, latency⟩ ∈ samples →
      metric.latency ≤ latency) :
      LatencyTally (⟨id, metric.regionID, metric.latency⟩ :: samples) id
        (latencies.insert metric.regionID metric) := by
    refine ⟨fun k other hk => ?_, fun k latency hk => ?_⟩
    · rw [get_insert] at hk
      split at hk
      · next hkey =>
        cases hk
        refine ⟨hkey.symm, hpos, List.mem_cons_self, fun latency hlatency => ?_⟩
        rcases List.mem_cons.mp hlatency with heq | hold
        · rw [(LatencySample.mk.inj heq).2.2]
        · exact hless latency hold
      · next hkey =>
        obtain ⟨hregion, hpos', hrecorded, hleast⟩ := h.least k other hk
        refine ⟨hregion, hpos', List.mem_cons_of_mem _ hrecorded, fun latency hlatency => ?_⟩
        rcases List.mem_cons.mp hlatency with heq | hold
        · exact absurd (hregion.symm.trans (LatencySample.mk.inj heq).2.1) hkey
        · exact hleast latency hold
    · rw [mem_insert]
      rcases List.mem_cons.mp hk with heq | hold
      · exact .inl (LatencySample.mk.inj heq).2.1
      · exact .inr (h.complete k latency hold)
  unfold keepLeast
  split
  · next hnone =>
    refine hinsert fun latency hlatency => ?_
    exact absurd (h.complete _ latency hlatency) (not_mem_iff.mpr hnone)
  · next previous hprevious =>
    obtain ⟨hregion, hpos', hrecorded, hleast⟩ := h.least _ previous hprevious
    split
    · next hle =>
      refine ⟨fun k other hk => ?_, fun k latency hk => ?_⟩
      · obtain ⟨hregion', hpos'', hrecorded', hleast'⟩ := h.least k other hk
        refine ⟨hregion', hpos'', List.mem_cons_of_mem _ hrecorded', fun latency hlatency => ?_⟩
        rcases List.mem_cons.mp hlatency with heq | hold
        · obtain ⟨-, hk', hlatency'⟩ := LatencySample.mk.inj heq
          have hsame : previous = other :=
            Option.some.inj (hprevious.symm.trans ((hk' ▸ hregion' : metric.regionID = k) ▸ hk))
          rw [hlatency', ← hsame]
          exact hle
        · exact hleast' latency hold
      · rcases List.mem_cons.mp hk with heq | hold
        · rw [(LatencySample.mk.inj heq).2.1]
          exact mem_of_get hprevious
        · exact h.complete k latency hold
    · next hlt =>
      refine hinsert fun latency hlatency => ?_
      exact (not_le.mp hlt).le.trans (hleast latency (hregion.symm ▸ hlatency))

theorem mem_keepLeast {k : Int} (h : k ∈ keepLeast latencies metric) :
    k = metric.regionID ∨ k ∈ latencies := by
  unfold keepLeast at h
  split at h
  · exact mem_insert.mp h
  · split at h
    · exact .inr h
    · exact mem_insert.mp h

/-- The report of a round lists its latencies by region. -/
theorem LatencyTally.pairwise_regions (h : LatencyTally samples id latencies) {order : List Int}
    (horder : latencies.Listing order) :
    (sortBy (fun a c : DERPRegionLatency => compare a.regionID c.regionID)
      (order.filterMap latencies.get)).Pairwise (·.regionID < ·.regionID) := by
  refine pairwise_lt_sortBy DERPRegionLatency.regionID ?_
  rw [List.Nodup, List.pairwise_map, List.pairwise_filterMap]
  refine horder.nodup.imp fun hne a ha c hc => ?_
  rw [(h.least _ a ha).1, (h.least _ c hc).1]
  exact hne

end

/-! ## Rounds -/

namespace Netcheck

/-- A round that was started, and a region that it measures. -/
def Measures (s : Netcheck) (id : Nat) (regionID : Int) : Prop :=
  id ≤ s.derpCheckID ∧ regionID ∈ (s.rounds id).regions

/-- Rounds are only added. -/
structure Extends (s s' : Netcheck) : Prop where
  derpCheckID : s.derpCheckID ≤ s'.derpCheckID
  targets : ∀ id ≤ s.derpCheckID, (s'.rounds id).targets = (s.rounds id).targets

end Netcheck

/-- A frame is about a round that was started, and about a region that it measures. -/
def NetcheckFrame.Knows (s : Netcheck) (f : NetcheckFrame) : Prop :=
  ∀ id, f.round = some id → id ≤ s.derpCheckID ∧
    ∀ regionID, f.region = some regionID → regionID ∈ (s.rounds id).regions

/-- What a report lists: regions in ascending order, which were targets of its round, each with the
least latency that was recorded for it. -/
structure RoundReport.Good (s : Netcheck) (report : RoundReport) : Prop where
  sorted : report.report.regions.Pairwise (·.regionID < ·.regionID)
  targets : ∀ metric ∈ report.report.regions, metric.regionID ∈ (s.rounds report.checkID).regions
  least : ∀ metric ∈ report.report.regions,
    LatencySample.Least report.samples report.checkID metric
  complete : ∀ x ∈ report.samples, x.checkID = report.checkID →
    ∃ metric ∈ report.report.regions, metric.regionID = x.regionID

/-- The rounds do not mix: each is reported at most once, and not if it was superseded, and its
report is about it alone. -/
structure RoundsApart (s : Netcheck) : Prop where
  once : (s.reports.map (·.checkID)).Nodup
  superseded : ∀ report ∈ s.reports, report.checkID ∉ s.superseded
  good : ∀ report ∈ s.reports, report.Good s
  remaining : ∀ id, 0 ≤ (s.rounds id).remaining

/-- What holds of the current round. -/
structure CurrentRound (s : Netcheck) (id : Nat) : Prop where
  started : id ≤ s.derpCheckID
  superseded : id ∉ s.superseded
  reported : ∀ report ∈ s.reports, report.checkID ≠ id
  tally : LatencyTally s.samples id (s.rounds id).latencies
  regions : ∀ regionID ∈ (s.rounds id).latencies, regionID ∈ (s.rounds id).regions

/-- What holds of the rounds. -/
structure RoundsOk (s : Netcheck) : Prop extends RoundsApart s where
  current : ∀ id, s.derpCheck = some id → CurrentRound s id
  supersededStarted : ∀ id ∈ s.superseded, id ≤ s.derpCheckID
  reportedStarted : ∀ report ∈ s.reports, report.checkID ≤ s.derpCheckID
  sampledStarted : ∀ x ∈ s.samples, x.checkID ≤ s.derpCheckID
  pending : ∀ tx probe, s.stunPending.get tx = some probe → s.Measures probe.checkID probe.regionID

/-- What holds between the steps. -/
structure RoundsSound (s : Netcheck) (F : Multiset NetcheckFrame) : Prop extends RoundsOk s where
  known : ∀ f ∈ F, f.Knows s

section
variable {s s' : Netcheck} {f g : NetcheckFrame} {R : Multiset NetcheckFrame}
  {o : Outcome Netcheck NetcheckFrame} {id : Nat} {r : DerpCheckRound}

/-- What the rounds have stays as it is where the new round has it too. -/
theorem view_setRound {γ : Type} (view : DerpCheckRound → γ) (hview : view r = view (s.rounds id))
    (id' : Nat) : view ((s.setRound id r).rounds id') = view (s.rounds id') := by
  by_cases h : id' = id
  · rw [h, rounds_setRound_self, hview]
  · rw [rounds_setRound_ne h]

theorem Netcheck.Extends.trans {s'' : Netcheck} (h : s.Extends s') (h' : s'.Extends s'') :
    s.Extends s'' :=
  ⟨h.derpCheckID.trans h'.derpCheckID, fun id hid =>
    (h'.targets id (hid.trans h.derpCheckID)).trans (h.targets id hid)⟩

theorem Netcheck.Extends.measures (h : s.Extends s') {regionID : Int}
    (hmeasures : s.Measures id regionID) : s'.Measures id regionID := by
  obtain ⟨hid, hregion⟩ := hmeasures
  refine ⟨hid.trans h.derpCheckID, ?_⟩
  rw [DerpCheckRound.regions, h.targets id hid]
  exact hregion

theorem NetcheckFrame.Knows.mono (hknows : f.Knows s) (h : s.Extends s') : f.Knows s' := by
  intro id hid
  obtain ⟨hstarted, hregion⟩ := hknows id hid
  exact ⟨hstarted.trans h.derpCheckID, fun regionID hf =>
    (h.measures ⟨hstarted, hregion regionID hf⟩).2⟩

theorem RoundReport.Good.mono {report : RoundReport} (hgood : report.Good s) (h : s.Extends s')
    (hstarted : report.checkID ≤ s.derpCheckID) : report.Good s' where
  sorted := hgood.sorted
  targets metric hmem := (h.measures ⟨hstarted, hgood.targets metric hmem⟩).2
  least := hgood.least
  complete := hgood.complete

/-- What has to be shown of a step. -/
theorem RoundsSound.step (h : RoundsSound s (f ::ₘ R)) (hok : RoundsOk o.state)
    (hext : s.Extends o.state) (hnew : ∀ g ∈ o.frames, g.Knows o.state) :
    RoundsSound o.state (o.frames + R) := by
  refine { hok with known := fun g hg => ?_ }
  rcases Multiset.mem_add.mp hg with hg | hg
  · exact hnew g hg
  · exact (h.known g (Multiset.mem_cons_of_mem hg)).mono hext

/-! ## Steps that start, measure and report nothing -/

/-- The rounds have the same targets and latencies. -/
structure Netcheck.SameRounds (s s' : Netcheck) : Prop where
  derpCheckID : s'.derpCheckID = s.derpCheckID
  derpCheck : s'.derpCheck = s.derpCheck
  superseded : s'.superseded = s.superseded
  reports : s'.reports = s.reports
  samples : s'.samples = s.samples
  targets : ∀ id, (s'.rounds id).targets = (s.rounds id).targets
  latencies : ∀ id, (s'.rounds id).latencies = (s.rounds id).latencies
  remaining : ∀ id, 0 ≤ (s.rounds id).remaining → 0 ≤ (s'.rounds id).remaining
  pending : ∀ tx probe, s'.stunPending.get tx = some probe →
    s.stunPending.get tx = some probe ∨ s.Measures probe.checkID probe.regionID

theorem Netcheck.SameRounds.refl (s : Netcheck) : s.SameRounds s :=
  ⟨rfl, rfl, rfl, rfl, rfl, fun _ => rfl, fun _ => rfl, fun _ => id, fun _ _ => .inl⟩

theorem Netcheck.SameRounds.extends (h : s.SameRounds s') : s.Extends s' :=
  ⟨h.derpCheckID.ge, fun id _ => h.targets id⟩

theorem Netcheck.SameRounds.trans {s'' : Netcheck} (h : s.SameRounds s') (h' : s'.SameRounds s'') :
    s.SameRounds s'' where
  derpCheckID := h'.derpCheckID.trans h.derpCheckID
  derpCheck := h'.derpCheck.trans h.derpCheck
  superseded := h'.superseded.trans h.superseded
  reports := h'.reports.trans h.reports
  samples := h'.samples.trans h.samples
  targets id := (h'.targets id).trans (h.targets id)
  latencies id := (h'.latencies id).trans (h.latencies id)
  remaining id hid := h'.remaining id (h.remaining id hid)
  pending tx probe hprobe := by
    rcases h'.pending tx probe hprobe with hold | ⟨hstarted, hmeasured⟩
    · exact h.pending tx probe hold
    · rw [DerpCheckRound.regions, h.targets] at hmeasured
      exact .inr ⟨h.derpCheckID ▸ hstarted, hmeasured⟩

/-- A probe is forgotten. -/
theorem sameRounds_erase (tx : TxID) :
    s.SameRounds { s with stunPending := s.stunPending.erase tx } := by
  refine ⟨rfl, rfl, rfl, rfl, rfl, fun _ => rfl, fun _ => rfl, fun _ h => h,
    fun tx' probe hprobe => .inl ?_⟩
  rw [get_erase] at hprobe
  split at hprobe
  · cases hprobe
  · exact hprobe

/-- A round is changed in what is neither its targets nor its latencies. -/
theorem sameRounds_setRound (htargets : r.targets = (s.rounds id).targets)
    (hlatencies : r.latencies = (s.rounds id).latencies)
    (hremaining : 0 ≤ (s.rounds id).remaining → 0 ≤ r.remaining) :
    s.SameRounds (s.setRound id r) := by
  refine ⟨rfl, rfl, rfl, rfl, rfl, view_setRound _ htargets, view_setRound _ hlatencies,
    fun id' => ?_, fun _ _ => .inl⟩
  by_cases h : id' = id
  · rw [h, rounds_setRound_self]
    exact hremaining
  · rw [rounds_setRound_ne h]
    exact fun h => h

theorem RoundsOk.same (h : RoundsOk s) (hsame : s.SameRounds s') : RoundsOk s' where
  once := hsame.reports.symm ▸ h.once
  superseded report hmem := by
    rw [hsame.reports] at hmem
    rw [hsame.superseded]
    exact h.superseded report hmem
  good report hmem := by
    rw [hsame.reports] at hmem
    exact (h.good report hmem).mono hsame.extends (h.reportedStarted report hmem)
  remaining id := hsame.remaining id (h.remaining id)
  current id hid := by
    rw [hsame.derpCheck] at hid
    obtain ⟨hstarted, hsuperseded, hreported, htally, hregions⟩ := h.current id hid
    refine ⟨hsame.derpCheckID.symm ▸ hstarted, hsame.superseded.symm ▸ hsuperseded,
      hsame.reports.symm ▸ hreported, ?_, ?_⟩
    · rw [hsame.samples, hsame.latencies]
      exact htally
    · rw [hsame.latencies, DerpCheckRound.regions, hsame.targets]
      exact hregions
  supersededStarted := by
    rw [hsame.superseded, hsame.derpCheckID]
    exact h.supersededStarted
  reportedStarted := by
    rw [hsame.reports, hsame.derpCheckID]
    exact h.reportedStarted
  sampledStarted := by
    rw [hsame.samples, hsame.derpCheckID]
    exact h.sampledStarted
  pending tx probe hprobe := by
    rcases hsame.pending tx probe hprobe with hold | hnew
    · exact hsame.extends.measures (h.pending tx probe hold)
    · exact hsame.extends.measures hnew

theorem RoundsSound.same (h : RoundsSound s R) (hsame : s.SameRounds s') : RoundsSound s' R :=
  { h.toRoundsOk.same hsame with known := fun g hg => (h.known g hg).mono hsame.extends }

/-- A step that starts, measures and reports nothing. -/
theorem RoundsSound.rest (h : RoundsSound s (f ::ₘ R)) (hsame : s.SameRounds o.state)
    (hnew : ∀ g ∈ o.frames, g.Knows s) : RoundsSound o.state (o.frames + R) :=
  h.step (h.toRoundsOk.same hsame) hsame.extends fun g hg => (hnew g hg).mono hsame.extends

/-- A frame of the same round, which measured nothing. -/
theorem NetcheckFrame.Knows.next (h : f.Knows s) (hround : g.round = f.round ∨ g.round = none)
    (hregion : g.region = none) : g.Knows s := by
  intro id hid
  rw [hregion]
  rcases hround with hround | hround
  · exact ⟨(h id (hround ▸ hid)).1, nofun⟩
  · rw [hround] at hid
    cases hid

/-- A step to frames of the same round, which measured nothing. -/
theorem RoundsSound.goto (h : RoundsSound s (f ::ₘ R)) (hsame : s.SameRounds o.state)
    (hnew : ∀ g ∈ o.frames, (g.round = f.round ∨ g.round = none) ∧ g.region = none) :
    RoundsSound o.state (o.frames + R) :=
  h.rest hsame fun g hg =>
    (h.known f (Multiset.mem_cons_self _ _)).next (hnew g hg).1 (hnew g hg).2

/-! ## Rounds come and go -/

/-- No round that was ever current is current again, or reported, once it was superseded. -/
theorem RoundsOk.mem_supersede (h : RoundsOk s) (hid : id ∈ s.supersede) :
    id ≤ s.derpCheckID ∧ ∀ report ∈ s.reports, report.checkID ≠ id := by
  rw [Netcheck.supersede, Finset.mem_union, Option.mem_toFinset, Option.mem_def] at hid
  rcases hid with hold | hcurrent
  · refine ⟨h.supersededStarted id hold, ?_⟩
    rintro report hmem rfl
    exact h.superseded report hmem hold
  · have hround := h.current id hcurrent
    exact ⟨hround.started, hround.reported⟩

/-- `kickDiscovery` starts a round. -/
theorem RoundsOk.newRound (h : RoundsOk s) (now : Time) (targets : List DerpProbeTarget)
    (full : Bool) : RoundsOk (s.newRound now targets full) ∧
      s.Extends (s.newRound now targets full) := by
  have hold (id : Nat) (hid : id ≤ s.derpCheckID) :
      (s.newRound now targets full).rounds id = s.rounds id :=
    rounds_setRound_ne (Nat.ne_of_lt (Nat.lt_succ_of_le hid))
  have hext : s.Extends (s.newRound now targets full) :=
    ⟨Nat.le_succ _, fun id hid => by rw [hold id hid]⟩
  refine ⟨?_, hext⟩
  refine
    { once := h.once
      superseded := fun report hmem hsuperseded =>
        (h.mem_supersede hsuperseded).2 report hmem rfl
      good := fun report hmem => (h.good report hmem).mono hext (h.reportedStarted report hmem)
      remaining := fun id => ?_
      current := fun id hid => ?_
      supersededStarted := fun id hid => Nat.le_succ_of_le (h.mem_supersede hid).1
      reportedStarted := fun report hmem => Nat.le_succ_of_le (h.reportedStarted report hmem)
      sampledStarted := fun x hx => Nat.le_succ_of_le (h.sampledStarted x hx)
      pending := fun tx probe hprobe => hext.measures (h.pending tx probe hprobe) }
  · by_cases hid : id = s.derpCheckID + 1
    · rw [hid]
      show 0 ≤ ((s.setRound _ _).rounds _).remaining
      rw [rounds_setRound_self]
      split
      · exact Int.natCast_nonneg _
      · exact le_rfl
    · show 0 ≤ ((s.setRound _ _).rounds _).remaining
      rw [rounds_setRound_ne hid]
      exact h.remaining id
  · obtain rfl : s.derpCheckID + 1 = id := Option.some.inj hid
    have hnew : ((s.newRound now targets full).rounds (s.derpCheckID + 1)).latencies = ∅ := by
      show ((s.setRound _ _).rounds _).latencies = ∅
      rw [rounds_setRound_self]
    refine ⟨le_rfl, fun hmem => ?_, fun report hmem heq => ?_, ?_, ?_⟩
    · exact absurd (h.mem_supersede hmem).1 (Nat.not_succ_le_self _)
    · exact absurd (heq ▸ h.reportedStarted report hmem) (Nat.not_succ_le_self _)
    · rw [hnew]
      refine .empty fun x hx heq => ?_
      exact absurd (heq ▸ h.sampledStarted x hx) (Nat.not_succ_le_self _)
    · rw [hnew]
      exact fun regionID hmem => absurd hmem (not_mem_empty regionID)

/-- `recordDERPLatency` is called with a latency for a round. -/
theorem RoundsOk.sample (h : RoundsOk s) {x : LatencySample} (hid : x.checkID ≤ s.derpCheckID)
    (hcurrent : s.derpCheck ≠ some x.checkID) : RoundsOk { s with samples := x :: s.samples } :=
  { h with
    good := fun report hmem =>
      (h.good report hmem).mono ⟨le_rfl, fun _ _ => rfl⟩ (h.reportedStarted report hmem)
    current := fun id hid => by
      have hround := h.current id hid
      refine { hround with tally := hround.tally.cons_other ?_ }
      rintro rfl
      exact hcurrent hid
    sampledStarted := fun y hy => by
      rcases List.mem_cons.mp hy with rfl | hy
      · exact hid
      · exact h.sampledStarted y hy }

/-- `recordDERPLatency` keeps the least latency of each region. -/
theorem recordLatency_eq (metric : DERPRegionLatency) : s.recordLatency id metric =
    s.setRound id { s.rounds id with latencies := keepLeast (s.rounds id).latencies metric } := by
  have hself : s.setRound id (s.rounds id) = s := by
    rw [Netcheck.setRound, Function.update_eq_self]
  unfold Netcheck.recordLatency keepLeast
  dsimp only
  cases (s.rounds id).latencies.get metric.regionID with
  | none => rfl
  | some previous =>
    by_cases hle : previous.latency ≤ metric.latency
    · simp only [if_pos hle]
      exact hself.symm
    · simp only [if_neg hle]

/-- A latency is recorded for the current round. -/
theorem RoundsOk.record (h : RoundsOk s) {metric : DERPRegionLatency} {r : DerpCheckRound}
    (hid : s.derpCheck = some id) (hpos : 0 < metric.latency)
    (hregion : metric.regionID ∈ (s.rounds id).regions)
    (hr : r = { s.rounds id with latencies := keepLeast (s.rounds id).latencies metric })
    (hs' : s' = { s.setRound id r with
      samples := ⟨id, metric.regionID, metric.latency⟩ :: s.samples }) :
    RoundsOk s' ∧ s.Extends s' := by
  have htargets : ∀ id', ((s.setRound id r).rounds id').targets = (s.rounds id').targets :=
    view_setRound _ (by rw [hr])
  have hround := h.current id hid
  subst hs'
  refine ⟨?_, le_rfl, fun id' _ => htargets id'⟩
  refine { h with
    good := fun report hmem => (h.good report hmem).mono ⟨le_rfl, fun id' _ => htargets id'⟩
      (h.reportedStarted report hmem)
    remaining := fun id' => ?_
    current := fun id' hid' => ?_
    sampledStarted := fun y hy => ?_
    pending := fun tx probe hprobe => ?_ }
  · rw [show ((s.setRound id r).rounds id').remaining = (s.rounds id').remaining from
      view_setRound _ (by rw [hr]) id']
    exact h.remaining id'
  · cases hid.symm.trans hid'
    refine { hround with tally := ?_, regions := fun regionID hmem => ?_ }
    · show LatencyTally _ id ((s.setRound id r).rounds id).latencies
      rw [rounds_setRound_self, hr]
      exact hround.tally.record hpos
    · show regionID ∈ ((s.setRound id r).rounds id).targets.map _
      rw [htargets]
      change regionID ∈ ((s.setRound id r).rounds id).latencies at hmem
      rw [rounds_setRound_self, hr] at hmem
      rcases mem_keepLeast hmem with rfl | hold
      · exact hregion
      · exact hround.regions regionID hold
  · rcases List.mem_cons.mp hy with rfl | hy
    · exact hround.started
    · exact h.sampledStarted y hy
  · obtain ⟨hstarted, hmeasured⟩ := h.pending tx probe hprobe
    refine ⟨hstarted, ?_⟩
    show probe.regionID ∈ ((s.setRound id r).rounds probe.checkID).targets.map _
    rw [htargets]
    exact hmeasured

/-- The current round is reported. -/
theorem RoundsOk.report (h : RoundsOk s) (hid : s.derpCheck = some id) {order : List Int}
    (horder : (s.rounds id).latencies.Listing order) : RoundsOk (s.report id order) := by
  have hround := h.current id hid
  have hmem {metric : DERPRegionLatency} : metric ∈ sortBy
      (fun a c : DERPRegionLatency => compare a.regionID c.regionID)
      (order.filterMap (s.rounds id).latencies.get) ↔
      ∃ k, (s.rounds id).latencies.get k = some metric := by
    rw [mem_sortBy, List.mem_filterMap]
    exact ⟨fun ⟨k, _, hk⟩ => ⟨k, hk⟩, fun ⟨k, hk⟩ =>
      ⟨k, horder.mem_iff.mpr (mem_of_get hk), hk⟩⟩
  refine { h with
    once := List.nodup_cons.mpr ⟨fun hin => ?_, h.once⟩
    superseded := fun report hreport => ?_
    good := fun report hreport => ?_
    current := nofun
    reportedStarted := fun report hreport => ?_ }
  · obtain ⟨report, hreport, heq⟩ := List.mem_map.mp hin
    exact hround.reported report hreport heq
  · rcases List.mem_cons.mp hreport with rfl | hreport
    · exact hround.superseded
    · exact h.superseded report hreport
  · rcases List.mem_cons.mp hreport with rfl | hreport
    · refine ⟨hround.tally.pairwise_regions horder, fun metric hmetric => ?_,
        fun metric hmetric => ?_, fun x hx hxid => ?_⟩
      · obtain ⟨k, hk⟩ := hmem.mp hmetric
        rw [(hround.tally.least k metric hk).1]
        exact hround.regions k (mem_of_get hk)
      · obtain ⟨k, hk⟩ := hmem.mp hmetric
        exact (hround.tally.least k metric hk).2
      · obtain rfl : x.checkID = id := hxid
        obtain ⟨metric, hk⟩ := mem_iff.mp (hround.tally.complete x.regionID x.latency hx)
        exact ⟨metric, hmem.mpr ⟨_, hk⟩, (hround.tally.least _ metric hk).1⟩
    · exact (h.good report hreport).mono ⟨le_rfl, fun _ _ => rfl⟩ (h.reportedStarted report hreport)
  · rcases List.mem_cons.mp hreport with rfl | hreport
    · exact hround.started
    · exact h.reportedStarted report hreport

/-- `Open` drops the current round and all probes. -/
theorem RoundsOk.drop (h : RoundsOk s) {isOpen conn : Bool} {ctx : Nat} {last lastFull : Time} :
    RoundsOk { s with
      isOpen, conn, ctx, stunPending := ∅, lastDERPCheck := last, lastFullDERPCheck := lastFull
      derpCheck := none, superseded := s.supersede } :=
  { h with
    superseded := fun report hmem hsuperseded => (h.mem_supersede hsuperseded).2 report hmem rfl
    good := fun report hmem =>
      (h.good report hmem).mono ⟨le_rfl, fun _ _ => rfl⟩ (h.reportedStarted report hmem)
    current := nofun
    supersededStarted := fun _ hid => (h.mem_supersede hid).1
    pending := nofun }

/-! ## Runs -/

theorem Netcheck.SameProbes.sameRounds (h : s.SameProbes s') : s.SameRounds s' := by
  refine ⟨h.derpCheckID, h.derpCheck, h.superseded, h.reports, h.samples, fun id => ?_,
    fun id => ?_, fun id => ?_, fun tx probe hprobe => .inl (h.pending tx probe hprobe)⟩
  all_goals
    obtain ⟨stunDone, wg, heq⟩ := h.rounds id
    rw [heq]
  exact fun h => h

theorem keeps_roundsSound : netcheck.Keeps .any RoundsSound where
  run s f R ch o h _ ho := by
    have hknows := h.known f (Multiset.mem_cons_self _ _)
    cases netcheckStep_move ho with
    | rest _ hsame hnew =>
      exact h.goto hsame.sameRounds fun g hg => ⟨(hnew g hg).round, (hnew g hg).region⟩
    | @newRound s' hsame now targets full =>
      obtain ⟨hok, hext⟩ := (h.toRoundsOk.same hsame.sameRounds).newRound now targets full
      refine h.step hok (hsame.sameRounds.extends.trans hext) ?_
      have hknows : (NetcheckFrame.startRound s'.ctx (s'.derpCheckID + 1)).Knows
          (s'.newRound now targets full) := by
        intro id hid
        cases hid
        exact ⟨le_rfl, fun _ hregion => by cases hregion⟩
      simpa [Outcome.frames] using hknows
    | startEmpty | queryFailed =>
      exact h.goto (sameRounds_setRound rfl rfl fun h => h) (by
        simp [Outcome.frames, NetcheckFrame.round, NetcheckFrame.region])
    | startProbes ctx id =>
      refine h.goto (.refl s) fun g hg => ?_
      rcases mem_startProbes hg with ⟨i, -, rfl⟩ | rfl
      · exact ⟨.inl rfl, rfl⟩
      · exact ⟨.inl rfl, rfl⟩
    | querySent ctx id i tx addresses hid htarget hregion =>
      refine h.goto ⟨rfl, rfl, rfl, rfl, rfl, fun _ => rfl, fun _ => rfl, fun _ h => h,
        fun tx' probe hprobe => ?_⟩ (by
          simp [Outcome.frames, NetcheckFrame.round, NetcheckFrame.region])
      rw [get_insert] at hprobe
      split at hprobe
      · cases hprobe
        rw [hid]
        exact .inr ⟨(hknows id rfl).1, hregion⟩
      · exact .inl hprobe
    | written | uncounted => exact h.goto (.refl s) (by simp [Outcome.frames])
    | writeNext id i tx address addresses =>
      exact h.goto (.refl s) (by
        simp [Outcome.frames, NetcheckFrame.round, NetcheckFrame.region])
    | writeFailed id i tx =>
      exact h.goto ((sameRounds_erase tx).trans (sameRounds_setRound rfl rfl fun h => h)) (by
        simp [Outcome.frames, NetcheckFrame.round, NetcheckFrame.region])
    | counted id i hremaining hr =>
      refine h.goto (sameRounds_setRound (by rw [hr]) (by rw [hr]) fun hpos => ?_) fun g hg => ?_
      · rw [hr]
        dsimp only
        omega
      · have hg : g = .signalSTUN id := by
          by_contra hne
          simp [Outcome.frames, hne] at hg
        rw [hg]
        exact ⟨.inl rfl, rfl⟩
    | signal id =>
      exact h.goto (sameRounds_setRound rfl rfl fun h => h) (by simp [Outcome.frames])
    | @answered tx mapped probe hprobe calls hcalls =>
      obtain ⟨hstarted, hmeasured⟩ := h.pending tx probe hprobe
      refine h.rest ((sameRounds_erase tx).trans (sameRounds_setRound rfl rfl fun h => h))
        fun g hg id hid => ?_
      have hg : g ∈ calls ∨ g = .completeSTUNProbe probe.checkID probe.target := by
        simpa [Outcome.frames] using hg
      rcases hg with hg | rfl
      · rcases hcalls with rfl | ⟨latency, rfl⟩
        · cases hg
        · obtain rfl := List.mem_singleton.mp hg
          cases hid
          refine ⟨hstarted, fun regionID hregion => ?_⟩
          cases hregion
          exact hmeasured
      · cases hid
        exact ⟨hstarted, fun _ hregion => by cases hregion⟩
    | @measured id i regionID hregion latency =>
      refine h.rest (.refl s) fun g hg => ?_
      have hg : g = .recordDERPLatency id regionID latency .https ∨ g = .httpsDone id := by
        simpa [Outcome.frames] using hg
      rcases hg with rfl | rfl
      · intro id' hid
        cases hid
        refine ⟨(hknows id rfl).1, fun regionID' hregion' => ?_⟩
        cases hregion'
        exact hregion
      · exact hknows.next (.inl rfl) rfl
    | sample id regionID latency source hcurrent =>
      exact h.step (h.toRoundsOk.sample (hknows id rfl).1 hcurrent) ⟨le_rfl, fun _ _ => rfl⟩
        (by simp [Outcome.frames])
    | record id metric source hcurrent hpos =>
      obtain ⟨-, hregion⟩ := hknows id rfl
      obtain ⟨hok, hext⟩ := h.toRoundsOk.record hcurrent hpos (hregion _ rfl) rfl (recordLatency_eq
        (s := { s with samples := ⟨id, metric.regionID, metric.latency⟩ :: s.samples }) metric)
      exact h.step hok hext (by simp [Outcome.frames])
    | report id hcurrent horder =>
      exact h.step (h.toRoundsOk.report hcurrent horder) ⟨le_rfl, fun _ _ => rfl⟩
        (by simp [Outcome.frames])
    | drop isOpen conn ctx last lastFull =>
      exact h.step h.toRoundsOk.drop ⟨le_rfl, fun _ _ => rfl⟩
        (by simp [Outcome.frames, NetcheckFrame.Knows, NetcheckFrame.round])
  start s F f h _ hf := by
    refine { h with known := fun g hg => ?_ }
    rcases Multiset.mem_cons.mp hg with rfl | hg
    · intro id hid
      cases g <;> first | cases hf; done | cases hid
    · exact h.known g hg
  env s s' F e h _ he := by
    cases he
    exact h.same
      ⟨rfl, rfl, rfl, rfl, rfl, fun _ => rfl, fun _ => rfl, fun _ => id, fun _ _ => .inl⟩

end

end WgoTailscale
