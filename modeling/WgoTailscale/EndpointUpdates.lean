import WgoTailscale.Workers

/-!
# Publishing the endpoints to control (`client.go`)

`endpointUpdater` sends a `MapUpdate` request whenever it finds a token in `endpointWake`, a channel
of capacity one. Tokens are dropped while one is there, and consumed without effect before the
authentication; no update is lost nevertheless. Whoever changes the endpoints or the preferred
region signals afterwards, so as long as the updater has read something that changed since, a token
or a signal is still there (`UpdatesSound`). `endpoint_updates_complete` is what follows for the
states in which nothing is under way.
-/

namespace WgoTailscale

open Machine Multiset

/-- What a request would carry now. -/
def Client.mapUpdateRequest (c : Client) : MapUpdateRequest := ⟨c.endpoints, c.preferredDERP⟩

/-- The updater will be woken. -/
def Signalled (s : Sys) (F : Multiset Frame) : Prop :=
  s.ctl.endpointWake = true ∨ .call .signalEndpointUpdate ∈ F

/-- Between the changes of the client and the requests of the updater nothing gets lost. -/
structure UpdatesSound (s : Sys) (F : Multiset Frame) : Prop where
  fresh : ∀ endpoints, .updaterRequest endpoints ∈ F →
    endpoints = s.client.endpoints ∨ Signalled s F
  sent : s.client.authenticated = true → Signalled s F ∨
    (∃ g ∈ F, g.needs = some .endpointUpdater) ∨
    s.ctl.mapUpdate = some s.client.mapUpdateRequest

section
variable {ch : Choice} {s s' : Sys} {e : Effect} {f : Frame} {N R : Multiset Frame}

/-- A signal stays until it is sent, and a token until it is taken. -/
theorem Signalled.keep (h : Signalled s (f ::ₘ R)) (hf : f ≠ .call .signalEndpointUpdate)
    (hwake : s'.ctl.endpointWake = s.ctl.endpointWake) : Signalled s' (N + R) := by
  rcases h with htoken | hsignal
  · exact .inl (hwake.trans htoken)
  · rcases mem_cons.mp hsignal with heq | hmem
    · exact absurd heq.symm hf
    · exact .inr (mem_add.mpr (.inr hmem))

/-- Steps that have nothing to do with the updater, except that their section may change what it
publishes or complete the authentication. -/
theorem UpdatesSound.quiet (h : UpdatesSound s (f ::ₘ R)) (he : effect ch s f = some e)
    (hstands : ∀ x, f.needs = some x → x ∈ R) (hf : f.needs ≠ some .endpointUpdater)
    (hsignal : f ≠ .call .signalEndpointUpdate)
    (hwake : e.ctl.endpointWake = s.ctl.endpointWake) (hsent : e.ctl.mapUpdate = s.ctl.mapUpdate)
    (hnew : ∀ g ∈ e.frames ++ e.spawned.flatten, g.needs ≠ some .endpointUpdater) :
    UpdatesSound (e.apply ch.now s).state ((e.apply ch.now s).frames + R) := by
  have hkeep (hs : Signalled s (f ::ₘ R)) :
      Signalled (e.apply ch.now s).state ((e.apply ch.now s).frames + R) := hs.keep hsignal hwake
  -- the section leaves what is published alone or signals, and authenticates only with a signal
  have hsec : (((e.apply ch.now s).state.client.endpoints = s.client.endpoints ∧
      (e.apply ch.now s).state.client.preferredDERP = s.client.preferredDERP) ∧
      (e.apply ch.now s).state.client.authenticated = s.client.authenticated) ∨
      Signalled (e.apply ch.now s).state ((e.apply ch.now s).frames + R) := by
    show (((e.done ch.now s.client).client.endpoints = _ ∧
      (e.done ch.now s.client).client.preferredDERP = _) ∧
      (e.done ch.now s.client).client.authenticated = _) ∨ _
    rcases done_cases e ch.now s.client with ⟨-, hdone⟩ | ⟨x, hx, hdone⟩
    · rw [hdone]
      exact .inl ⟨⟨rfl, rfl⟩, rfl⟩
    · rw [hdone]
      have hstep := sectionStep_run s.client ch.now x
      rcases hstep.published with hsame | hcall
      · rcases hstep.authenticated with hauth | ⟨response, rfl⟩
        · exact .inl ⟨hsame, hauth⟩
        · obtain rfl := ((traced_effect he).sec _ hx).resolve_right id
          exact .inr (.inr (mem_add.mpr (.inr (hstands _ rfl))))
      · refine .inr (.inr (mem_add.mpr (.inl (mem_frames_apply.mpr (.inr (.inl ?_))))))
        exact ⟨_, hdone ▸ hcall, rfl⟩
  have hold {g : Frame} (hg : g ∈ (e.apply ch.now s).frames + R)
      (hneeds : g.needs = some .endpointUpdater) : g ∈ R := by
    rcases mem_add.mp hg with hg | hg
    · rcases mem_frames_apply.mp hg with ⟨ev, -, rfl⟩ | ⟨c, -, rfl⟩ | hframe
      · cases hneeds
      · cases hneeds
      · exact absurd hneeds (hnew g hframe)
    · exact hg
  rcases hsec with ⟨⟨hendpoints, hpreferred⟩, hauth⟩ | hs
  · refine ⟨fun endpoints hmem => ?_, fun hauth' => ?_⟩
    · rw [hendpoints]
      exact (h.fresh endpoints (mem_cons_of_mem (hold hmem rfl))).imp_right hkeep
    · rcases h.sent (hauth.symm.trans hauth') with hs | ⟨g, hg, hneeds⟩ | hrequest
      · exact .inl (hkeep hs)
      · rcases mem_cons.mp hg with rfl | hg
        · exact absurd hneeds hf
        · exact .inr (.inl ⟨g, mem_add.mpr (.inr hg), hneeds⟩)
      · refine .inr (.inr ((hsent.trans hrequest).trans ?_))
        simp only [Client.mapUpdateRequest, hendpoints, hpreferred]
  · exact ⟨fun _ _ => .inr hs, fun _ => .inl hs⟩

/-- The updater goes on with its turn; what it has read is what is there. -/
theorem UpdatesSound.turn (h : UpdatesSound s (f ::ₘ R)) (hf : f ≠ .call .signalEndpointUpdate)
    (hclient : s'.client = s.client) (hwake : s'.ctl.endpointWake = s.ctl.endpointWake)
    (hnew : ∀ endpoints, .updaterRequest endpoints ∈ N → endpoints = s.client.endpoints)
    (hturn : ∃ g ∈ N, g.needs = some .endpointUpdater) : UpdatesSound s' (N + R) := by
  obtain ⟨g, hg, hneeds⟩ := hturn
  refine ⟨fun endpoints hmem => ?_,
    fun _ => .inr (.inl ⟨g, mem_add.mpr (.inl hg), hneeds⟩)⟩
  rw [hclient]
  rcases mem_add.mp hmem with hmem | hmem
  · exact .inl (hnew endpoints hmem)
  · exact (h.fresh endpoints (mem_cons_of_mem hmem)).imp_right (·.keep hf hwake)

/-- The updater sends its request. If what it has read has changed since, it will be woken. -/
theorem UpdatesSound.request {endpoints : List EndpointCandidate}
    (h : UpdatesSound s (.updaterRequest endpoints ::ₘ R))
    (hclient : s'.client = s.client) (hwake : s'.ctl.endpointWake = s.ctl.endpointWake)
    (hsent : s'.ctl.mapUpdate = some ⟨endpoints, s.client.preferredDERP⟩)
    (hnew : ∀ endpoints, .updaterRequest endpoints ∉ N) : UpdatesSound s' (N + R) := by
  have hkeep (hs : Signalled s (.updaterRequest endpoints ::ₘ R)) : Signalled s' (N + R) :=
    hs.keep nofun hwake
  refine ⟨fun endpoints' hmem => ?_, fun _ => ?_⟩
  · rw [hclient]
    rcases mem_add.mp hmem with hmem | hmem
    · exact absurd hmem (hnew endpoints')
    · exact (h.fresh endpoints' (mem_cons_of_mem hmem)).imp_right hkeep
  · rcases h.fresh endpoints (mem_cons_self _ _) with rfl | hs
    · exact .inr (.inr (hsent.trans (by rw [hclient]; rfl)))
    · exact .inl (hkeep hs)

/-- The steps of the frames that work. -/
theorem UpdatesSound.work (h : UpdatesSound s (f ::ₘ R)) (he : effect ch s f = some e)
    (hwork : Work s f e) (hstands : ∀ x, f.needs = some x → x ∈ R)
    (halone : f = .endpointUpdater → ∀ g ∈ R, g.needs ≠ some .endpointUpdater) :
    UpdatesSound (e.apply ch.now s).state ((e.apply ch.now s).frames + R) := by
  have hquiet := h.quiet he hstands
  cases hwork with
  | signal => exact ⟨fun _ _ => .inr (.inl rfl), fun _ => .inl (.inl rfl)⟩
  | wake htoken =>
    refine ⟨fun endpoints hmem => ?_, fun _ => .inr (.inl ⟨.updaterAuth, ?_, rfl⟩)⟩
    · rcases mem_add.mp hmem with hnew | hold
      · simp [mem_frames_apply, Effect.done] at hnew
      · exact absurd rfl (halone rfl _ hold)
    · exact mem_add.mpr (.inl (by simp [mem_frames_apply, Effect.done]))
  | unauthenticated hauth =>
    refine ⟨fun endpoints hmem => ?_, fun hauth' => ?_⟩
    · rcases mem_add.mp hmem with hnew | hold
      · simp [mem_frames_apply, Effect.done] at hnew
      · exact (h.fresh endpoints (mem_cons_of_mem hold)).imp_right fun hs =>
          hs.keep (fun h => by cases h) rfl
    · have hauth' : s.client.authenticated = true := hauth'
      rw [hauth] at hauth'
      cases hauth'
  | authenticated hauth =>
    exact h.turn (fun h => by cases h) rfl rfl (by simp [mem_frames_apply, Effect.done])
      ⟨.updaterEndpoints, by simp [mem_frames_apply, Effect.done], rfl⟩
  | endpoints =>
    exact h.turn (fun h => by cases h) rfl rfl (by simp [mem_frames_apply, Effect.done])
      ⟨.updaterRequest s.client.endpoints, by simp [mem_frames_apply, Effect.done], rfl⟩
  | request endpoints => exact h.request rfl rfl rfl (by simp [mem_frames_apply, Effect.done])
  | requestFailed endpoints err =>
    exact h.request rfl rfl rfl (by simp [mem_frames_apply, Effect.done])
  | launchStart | launchAttach =>
    exact hquiet (fun h => by cases h) (fun h => by cases h) rfl rfl
      (by simp [workers, watcher, Frame.needs])
  | notRegistered followup frames hframes =>
    refine hquiet (fun h => by cases h) (fun h => by cases h) rfl rfl fun g hg => ?_
    have hidle : Effect.Idle s { ctl := s.ctl, frames } := ⟨rfl, by simpa using hframes⟩
    rw [needs_of_not_busy (hidle.busy_eq_false hg)]
    exact (Option.some_ne_none _).symm
  | notLaunched hpre hidle =>
    obtain ⟨-, -, hwake, hsent⟩ : _ ∧ _ ∧ _ ∧ _ := by
      simpa only [Control.queues, Prod.mk.injEq] using hidle.queues
    refine hquiet (fun hturn => ?_) ?_ hwake hsent fun g hg => ?_
    · cases f with
      | starting | attaching => cases hturn
      | _ => cases hpre
    · rintro rfl
      cases hpre
    · rw [needs_of_not_busy (hidle.busy_eq_false hg)]
      exact (Option.some_ne_none _).symm
  | _ => exact hquiet (fun h => by cases h) (fun h => by cases h) rfl rfl (by simp [Frame.needs])

end

/-! ## Runs -/

theorem works_of_needs {f : Frame} (h : f.needs = some .endpointUpdater) : f.works = true := by
  unfold Frame.needs at h
  split at h
  all_goals first
    | rfl
    | cases h

/-- Every step keeps the invariant, where no frame runs that another one stands on and there is one
updater. -/
theorem keeps_updatesSound : program.Keeps
    { run := fun s f R _ => (∀ g ∈ f ::ₘ R, ∀ x, g.needs = some x → x ∈ R) ∧
        OneUpdater s (f ::ₘ R) } UpdatesSound where
  run s f R ch o h hp ho := by
    obtain ⟨e, he, rfl⟩ := Option.map_eq_some_iff.mp ho
    obtain ⟨hstands, hone⟩ := hp
    have hneeds := hstands f (mem_cons_self _ _)
    by_cases hf : f.works
    · refine h.work he (work_effect hf he) hneeds fun heq g hg hg' => ?_
      -- a second updater would be waiting for `g`
      have hsecond := hstands g (mem_cons_of_mem hg) _ hg'
      have hle : Frame.updater .endpointUpdater ≤ weightOf Frame.updater R :=
        weight_le_of_mem hsecond
      have hone : weightOf Frame.updater (f ::ₘ R) ≤ 1 := hone
      rw [weightOf_cons, heq] at hone
      simp only [Frame.updater] at hle hone
      omega
    · have hf := Bool.eq_false_iff.mpr hf
      have hidle := idle_effect hf he
      obtain ⟨-, -, hwake, hsent⟩ : _ ∧ _ ∧ _ ∧ _ := by
        simpa only [Control.queues, Prod.mk.injEq] using hidle.queues
      refine h.quiet he hneeds (fun hturn => ?_) ?_ hwake hsent fun g hg => ?_
      · rw [works_of_needs hturn] at hf
        cases hf
      · rintro rfl
        cases hf
      · rw [needs_of_not_busy (hidle.busy_eq_false hg)]
        exact (Option.some_ne_none _).symm
  start s F f h _ hf := by
    have hsignalled (hs : Signalled s F) : Signalled s (f ::ₘ F) :=
      hs.imp_right mem_cons_of_mem
    refine ⟨fun endpoints hmem => ?_, fun hauth => ?_⟩
    · rcases mem_cons.mp hmem with rfl | hmem
      · cases hf
      · exact (h.fresh endpoints hmem).imp_right hsignalled
    · exact (h.sent hauth).imp hsignalled (Or.imp_left (Exists.imp fun g hg =>
        ⟨mem_cons_of_mem hg.1, hg.2⟩))
  env s s' F a h _ ha := by
    obtain ⟨hclient, -, hctl, -, -⟩ := envStep ha
    have hwake : s'.ctl.endpointWake = s.ctl.endpointWake := by rw [hctl]
    have hsent : s'.ctl.mapUpdate = s.ctl.mapUpdate := by rw [hctl]
    obtain ⟨hfresh, hsent'⟩ := h
    refine ⟨?_, ?_⟩
    · rw [hclient]
      unfold Signalled
      rw [hwake]
      exact hfresh
    · rw [hclient]
      unfold Signalled
      rw [hwake, hsent]
      exact hsent'

/-- The frames of an operation that changed what is published, or completed the authentication, and
is yet to signal, and those of a turn of the updater. -/
def Frame.updating : Frame → Bool
  | .call .signalEndpointUpdate | .updaterAuth | .updaterEndpoints | .updaterRequest _ => true
  | _ => false

theorem updating_of_needs {f : Frame} (h : f.needs = some .endpointUpdater) :
    f.updating = true := by
  unfold Frame.needs at h
  split at h
  all_goals first
    | rfl
    | cases h

/-- In every state of every run: if the client is authenticated, no operation that changes what is
published is in progress, no token is there and the updater is idle, then the last request of the
updater carries the current endpoints and the current preferred region. -/
theorem endpoint_updates_complete (opts : Options) (privateKey : Option PrivateKey)
    (acts : List (Act Frame Choice EnvAct)) :
    program.system.Visits (fun cfg => cfg.shared.client.authenticated = true →
      (∀ f ∈ cfg.frames, f.updating = false) → cfg.shared.ctl.endpointWake = false →
      cfg.shared.ctl.mapUpdate =
        some ⟨cfg.shared.client.endpoints, cfg.shared.client.preferredDERP⟩)
      (initial opts privateKey) acts := by
  refine System.visits_of_reach Policy.admits_any (fun cfg hreach => ?_) acts
  intro hauth hidle hwake
  have hkeeps := ((keeps_orderly (.stands Frame.needs)).known keeps_oneUpdater).and
    (keeps_updatesSound.mono (fun s f R ch hp => ⟨hp.1, hp.2.2⟩) (fun _ _ => id) fun _ _ => id)
  obtain ⟨-, hsound⟩ := hkeeps.invariant (reaches_stands hreach)
    ⟨⟨orderly_initial opts privateKey, Nat.zero_le _⟩, nofun, nofun⟩
  rcases hsound.sent hauth with (htoken | hsignal) | ⟨g, hg, hneeds⟩ | hsent
  · rw [hwake] at htoken
    cases htoken
  · cases hidle _ hsignal
  · have hg := hidle g hg
    rw [updating_of_needs hneeds] at hg
    cases hg
  · exact hsent

end WgoTailscale
