import WgoTailscale.DerpChoice
import WgoTailscale.Dormancy
import WgoTailscale.ReducerWrites
import WgoTailscale.ViewRevisions

/-!
# The home DERP region over runs

`HomeSound` is what the client keeps about its home region and its measurements: the home is usable
in the current DERP map, the measurements are of usable regions, and the client's information says
the same home. Map responses and latency reports keep it by the specification of the choice
(`HomeChoice`); the other sections do not touch it, except that `Start` resets the information,
which happens before the runtime is launched, when there is no home yet. `derp_home_sound` is the
result.
-/

namespace WgoTailscale

/-- The measurements are positive, of usable regions, each under its own id. -/
def Measured (derpMap : Option DERPMap) (derpLatency : FinMap Int DERPRegionLatency) : Prop :=
  ∀ id metric, derpLatency.get id = some metric →
    id ≠ 0 ∧ Usable derpMap id ∧ 0 < metric.latency ∧ metric.regionID = id

/-- What the client keeps about its home region. -/
structure HomeSound (c : Client) : Prop where
  info : c.info.preferredDERP = c.preferredDERP
  usable : c.preferredDERP = 0 ∨ Usable c.derpMap c.preferredDERP
  disabled : c.opts.disableDERP = true → c.preferredDERP = 0
  measured : Measured c.derpMap c.derpLatency

section
variable {c c' : Client} {derpMap : Option DERPMap} {derpLatency : FinMap Int DERPRegionLatency}

theorem Measured.zero_not_mem (h : Measured derpMap derpLatency) : 0 ∉ derpLatency := by
  intro hmem
  obtain ⟨metric, hmetric⟩ := FinMap.mem_iff.mp hmem
  exact (h 0 metric hmetric).1 rfl

/-- A home chosen with such measurements is none or usable. -/
theorem Measured.usable_homeFor (h : Measured derpMap derpLatency) :
    c.homeFor derpMap derpLatency = 0 ∨ Usable derpMap (c.homeFor derpMap derpLatency) := by
  unfold Client.homeFor
  split
  · exact .inl rfl
  · have horder := derpLatency.listing_sortedKeys (compare : Int → Int → Ordering)
    exact ((chosenBy derpMap c.preferredDERP h.zero_not_mem horder).homeChoice horder).usable

/-- A client whose measurements are in order and whose home was just chosen. -/
theorem HomeSound.of_homeFor (hmeasured : Measured c'.derpMap c'.derpLatency)
    (hopts : c'.opts = c.opts) (hhome : c'.preferredDERP = c.homeFor c'.derpMap c'.derpLatency)
    (hinfo : c'.info.preferredDERP = c'.preferredDERP) : HomeSound c' where
  info := hinfo
  usable := hhome ▸ hmeasured.usable_homeFor
  disabled hdisabled := by
    rw [hhome, Client.homeFor, if_pos (hopts ▸ hdisabled)]
  measured := hmeasured

/-- The fields that `HomeSound` is about. -/
def Client.homeData (c : Client) :=
  (c.info.preferredDERP, c.preferredDERP, c.derpMap, c.opts, c.derpLatency)

theorem HomeSound.congr (h : HomeSound c) (heq : c'.homeData = c.homeData) : HomeSound c' := by
  simp only [Client.homeData, Prod.mk.injEq] at heq
  obtain ⟨hinfo, hhome, hmap, hopts, hlatency⟩ := heq
  exact ⟨by rw [hinfo, hhome, h.info], by rw [hhome, hmap]; exact h.usable,
    by rw [hopts, hhome]; exact h.disabled, by rw [hmap, hlatency]; exact h.measured⟩

/-! ## Map responses -/

/-- Another DERP map. -/
theorem HomeSound.withDERPMap (h : HomeSound c) (next : Option DERPMap) :
    HomeSound (c.withDERPMap next) := by
  refine .of_homeFor (c := c) ?_ rfl rfl ?_
  · intro id metric hget
    obtain ⟨hold, husable⟩ := Option.filter_eq_some_iff.mp hget
    obtain ⟨hne, -, hpos, hregion⟩ := h.measured id metric hold
    exact ⟨hne, husable, hpos, hregion⟩
  · unfold Client.withDERPMap
    dsimp only
    split
    · next hsame => rw [h.info, hsame]
    · rfl

/-- The whole response. -/
theorem HomeSound.reduceMap (h : HomeSound c) (response : MapResponse) (now : Time) :
    HomeSound (reduceMap c response now).client := by
  obtain ⟨_, _, _, _, _, hhead⟩ := client_reduceHead response now { client := c }
  set rpeers := reducePeerBlocks response now (reduceHead response now { client := c }) with hpeers
  have hstart : HomeSound rpeers.client := by
    rw [hpeers, client_reducePeerBlocks, hhead]
    exact h.congr rfl
  have hderp : HomeSound (reduceDERP response rpeers).client := by
    rcases client_reduceDERP_cases response rpeers with ⟨heq, -⟩ | ⟨update, -, -, heq⟩
    · rw [heq]
      exact hstart
    · rw [heq]
      exact hstart.withDERPMap _
  obtain ⟨_, _, hrest⟩ := client_reduceRest response (reduceDERP response rpeers)
  obtain ⟨_, _, _, _, hexpiry⟩ := client_reduceExpiry now
    (reduceRest response (reduceDERP response rpeers)) c.selfExpired
  rw [reduceMap_eq_parts, ← hpeers, hexpiry, hrest]
  exact hderp.congr rfl

theorem HomeSound.applyMapResponse (h : HomeSound c) (response : MapResponse) (now : Time) :
    HomeSound (c.applyMapResponse response now).client :=
  (h.reduceMap response.effective now).congr
    (applyMapResponse_view Client.homeData (fun _ _ => rfl) c response now)

/-! ## Latency reports -/

/-- One measurement of a report. -/
theorem Measured.recordLatency {acc : FinMap Int DERPRegionLatency × Bool}
    (h : Measured derpMap acc.1) (metric : DERPRegionLatency) :
    Measured derpMap (Client.recordLatency derpMap acc metric).1 := by
  unfold Client.recordLatency
  split
  · exact h
  split
  · exact h
  next hvalid _ =>
  obtain ⟨hne, hvalid⟩ := not_or.mp hvalid
  obtain ⟨hpos, husable⟩ := not_or.mp hvalid
  intro id metric' hget
  rcases eq_or_ne id metric.regionID with rfl | hid
  · rw [FinMap.get_insert_self] at hget
    cases hget
    exact ⟨hne, Bool.eq_true_of_not_eq_false husable, not_le.mp hpos, rfl⟩
  · rw [FinMap.get_insert_ne _ _ hid] at hget
    exact h id metric' hget

theorem Measured.foldl_recordLatency (l : List DERPRegionLatency)
    {acc : FinMap Int DERPRegionLatency × Bool} (h : Measured derpMap acc.1) :
    Measured derpMap (l.foldl (Client.recordLatency derpMap) acc).1 := by
  induction l generalizing acc with
  | nil => exact h
  | cons metric l ih => exact ih (h.recordLatency metric)

theorem HomeSound.onDERPLatency (h : HomeSound c) (report : DERPLatencyReport) (now : Time) :
    HomeSound (c.onDERPLatency report now).client := by
  unfold Client.onDERPLatency
  split
  · exact h
  dsimp only
  set start : FinMap Int DERPRegionLatency × Bool :=
    if report.full = true ∧ c.derpLatency.keys ≠ ∅ then (∅, true) else (c.derpLatency, false)
    with hstart
  have hmeasured : Measured c.derpMap
      (report.regions.foldl (Client.recordLatency c.derpMap) start).1 := by
    refine Measured.foldl_recordLatency _ ?_
    rw [hstart]
    split
    · exact nofun
    · exact h.measured
  generalize report.regions.foldl (Client.recordLatency c.derpMap) start = measured at *
  have hhome : (if c.opts.disableDERP then 0
      else choosePreferredDERPMeasured c.derpMap c.preferredDERP measured.1) =
        c.homeFor c.derpMap measured.1 := rfl
  rw [hhome]
  have hnew (c' : Client) (hmap : c'.derpMap = c.derpMap) (hlatency : c'.derpLatency = measured.1)
      (hopts : c'.opts = c.opts) (hpreferred : c'.preferredDERP = c.homeFor c.derpMap measured.1)
      (hinfo : c'.info = if c.homeFor c.derpMap measured.1 ≠ c.preferredDERP then
        { c.info with preferredDERP := c.homeFor c.derpMap measured.1 } else c.info) :
      HomeSound c' := by
    refine .of_homeFor (c := c) (by rw [hmap, hlatency]; exact hmeasured) hopts
      (by rw [hmap, hlatency]; exact hpreferred) ?_
    rw [hinfo, hpreferred]
    split
    · rfl
    · next hsame => rw [h.info, not_not.mp hsame]
  generalize c.homeFor c.derpMap measured.1 = home at *
  by_cases hchanged : home ≠ c.preferredDERP
  · simp only [if_pos hchanged] at hnew ⊢
    split <;> exact hnew _ rfl rfl rfl rfl rfl
  · simp only [if_neg hchanged] at hnew ⊢
    split <;> exact hnew _ rfl rfl rfl rfl rfl

/-! ## The other sections -/

/-- Every section keeps the home region sound; `Start` resets the client's information, but then
there is no home yet. -/
theorem HomeSound.run (h : HomeSound c) (now : Time) (x : Section)
    (hstart : x = .startBegin ∨ x = .startFailed → c.preferredDERP = 0) :
    HomeSound (x.run c now).client := by
  rcases frame_run c now x with ⟨response, rfl⟩ | hframe
  · exact h.applyMapResponse response now
  by_cases hlatency : ∃ report, x = .onDERPLatency report
  · obtain ⟨report, rfl⟩ := hlatency
    exact h.onDERPLatency report now
  obtain ⟨hdata, hinfo⟩ := hframe.views (not_exists.mp hlatency)
  have hopts := (sectionStep_run c now x).opts
  simp only [Client.viewData, Prod.mk.injEq] at hdata
  obtain ⟨-, -, -, -, -, hmap, hmeasured, hhome, -⟩ := hdata
  refine ⟨?_, by rw [hhome, hmap]; exact h.usable, by rw [hopts, hhome]; exact h.disabled,
    by rw [hmap, hmeasured]; exact h.measured⟩
  rw [hhome]
  by_cases hx : x = .startBegin ∨ x = .startFailed
  · rw [hstart hx]
    rcases hx with rfl | rfl <;> rfl
  · rw [hinfo (not_or.mp hx), h.info]

end

/-! ## Runs -/

section
variable {ch : Choice} {s : Sys} {f : Frame} {R : Multiset Frame} {e : Effect} {x : Section}

/-- There is no home region yet when `Start` sets the client's information. -/
theorem Orderly.unset_home (h : Orderly s (f ::ₘ R)) (he : effect ch s f = some e)
    (hx : e.sec = some x) (hstart : x = .startBegin ∨ x = .startFailed) :
    s.client.preferredDERP = 0 := by
  have hknows := h.life.knows f (Multiset.mem_cons_self _ _)
  have hruntime : s.ctl.runtimeStarted = false := by
    rcases (traced_effect he).sec x hx with rfl | hby
    · rcases hstart with rfl | rfl <;> cases hknows
    · rcases hstart with rfl | rfl
      · obtain rfl : f = .starting .begin := hby
        exact hknows.2.2
      · obtain rfl : f = .starting .failed := hby
        exact hknows.2.2
  exact (h.sleeps (.inl hruntime)).1.preferredDERP

theorem keeps_homeSound (p : Machine.Policy Sys Frame Choice EnvAct) :
    program.Keeps p fun s F => Orderly s F ∧ HomeSound s.client :=
  (keeps_orderly _).and (keeps_sections fun _ _ _ ch _ x hp he hx h =>
    h.run ch.now x (hp.2.unset_home he hx))

end

/-- In every state of every run: the home region is the one that the client's information names, it
is none or usable in the current DERP map, none while DERP is disabled, and every measurement is a
positive one of a usable region, under its own id. -/
theorem derp_home_sound (opts : Options) (privateKey : Option PrivateKey)
    (acts : List (Act Frame Choice EnvAct)) :
    program.system.Visits (fun cfg => HomeSound cfg.shared.client) (initial opts privateKey)
      acts := by
  have hhome : HomeSound (initial opts privateKey).shared.client :=
    ⟨rfl, .inl rfl, fun _ => rfl, nofun⟩
  exact (keeps_homeSound .any).visits (fun _ h => h.2) ⟨orderly_initial opts privateKey, hhome⟩ acts

end WgoTailscale
