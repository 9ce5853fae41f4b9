import WgoTailscale.Lifecycle

/-!
# Attached devices

`AttachDevice` against `Start`, the goroutines that watch the attached APIs, and the APIs being
closed. The runtime's node key is the key of the attached API, except while the `AttachDevice` that
has initialized the runtime has not attached its API yet (`identityKept_apply`); a watcher whose API
has been replaced changes nothing (`watched_outdated`); and up to the point where it cannot fail any
more `AttachDevice` leaves the client alone (`attach_undecided`).
-/

namespace WgoTailscale

open Multiset

section
variable {ch : Choice} {s : Sys} {f g : Frame} {e : Effect} {R F : Multiset Frame} {api : Nat}

/-! ## The node key -/

/-- An API with the node key of the runtime. -/
def Sys.Identified (s : Sys) (api : Nat) : Prop :=
  api ∈ s.devices ∧ (s.privateKey api).publicNode s.client.opts.packages =
    s.client.nodePrivate.publicNode s.client.opts.packages

/-- `AttachDevice` has initialized the runtime and is about to attach its API. -/
def Frame.isTransition : Frame → Bool
  | .attaching _ .relock | .attaching _ (.install true) => true
  | _ => false

/-- The APIs that have the node key once the runtime is started: the one that `AttachDevice` has
checked, and the attached one. -/
structure IdentityKept (s : Sys) (F : Multiset Frame) : Prop where
  checked : ∀ api phase, .attaching api phase ∈ F → phase ≠ .check → phase ≠ .unlock →
    s.ctl.runtimeStarted = true → s.Identified api
  attached : s.ctl.runtimeStarted = true →
    (∀ api, s.ctl.deviceAPI = some api → s.Identified api) ∨ ∃ g ∈ F, g.isTransition = true

/-- Only `initializeRuntime` sets the node key. -/
theorem nodePrivate_apply (hf : f.Knows s) (he : effect ch s f = some e)
    (hinstall : ¬ ∃ caller api cache, f = .initializing caller api (.install cache)) :
    (e.apply ch.now s).state.client.nodePrivate = s.client.nodePrivate := by
  show (e.done ch.now s.client).client.nodePrivate = _
  rcases done_cases e ch.now s.client with ⟨-, hdone⟩ | ⟨x, hx, hdone⟩
  · rw [hdone]
  rw [hdone]
  refine (sectionStep_run s.client ch.now x).nodePrivate.resolve_right ?_
  rintro ⟨cache, heq⟩
  generalize (x.run s.client ch.now).client.nodePrivate = nodePrivate at heq
  subst heq
  rcases (traced_effect he).sec _ hx with rfl | ⟨caller, api, rfl⟩
  · cases hf
  · exact hinstall ⟨caller, api, cache, rfl⟩

/-- `initializeRuntime` takes the key of its API. -/
theorem identityKept_install {caller : InitCaller} {cache : CacheState}
    (hlocks : LocksHeld s (.initializing caller api (.install cache) ::ₘ R))
    (hlife : Lifecycle s (.initializing caller api (.install cache) ::ₘ R))
    (he : effect ch s (.initializing caller api (.install cache)) = some e) :
    IdentityKept (e.apply ch.now s).state ((e.apply ch.now s).frames + R) := by
  have hf := hlife.knows _ (mem_cons_self _ _)
  have hmem : api ∈ s.devices := by
    cases caller with
    | start => exact hlife.attached api hf.2.2.2.2
    | attach => exact hf.2.2.2.2.2
  cases he
  refine ⟨fun api' phase hg hcheck hunlock _ => ?_, fun _ => ?_⟩
  · rcases mem_add.mp hg with hnew | hold
    · cases caller with
      | start => cases List.mem_singleton.mp hnew
      | attach =>
        cases List.mem_singleton.mp hnew
        exact ⟨hmem, rfl⟩
    · refine absurd ?_ (hlocks.alone (ℓ := .life) (by simp) List.mem_cons_self hold)
      cases phase <;> exact List.mem_cons_self
  · cases caller with
    | start =>
      refine .inl fun api' hapi => ?_
      obtain rfl : api = api' := Option.some.inj (hf.2.2.2.2.symm.trans hapi)
      exact ⟨hmem, rfl⟩
    | attach =>
      exact .inr ⟨_, mem_add.mpr (.inl (List.mem_singleton.mpr rfl)), rfl⟩

/-- Every step keeps the node keys in order. -/
theorem identityKept_apply (hlocks : LocksHeld s (f ::ₘ R)) (hlife : Lifecycle s (f ::ₘ R))
    (he : effect ch s f = some e) (h : IdentityKept s (f ::ₘ R)) :
    IdentityKept (e.apply ch.now s).state ((e.apply ch.now s).frames + R) := by
  by_cases hinstall : ∃ caller api cache, f = .initializing caller api (.install cache)
  · obtain ⟨caller, api, cache, rfl⟩ := hinstall
    exact identityKept_install hlocks hlife he
  have hf := hlife.knows f (mem_cons_self _ _)
  have hctl := (traced_effect he).ctl
  have hruntime := hctl.runtimeStarted.resolve_right fun h => hinstall h.1
  have hkeep {api : Nat} (hid : s.Identified api) : (e.apply ch.now s).state.Identified api := by
    have hdevices := sameDevices_apply e ch.now s
    refine ⟨hdevices.mem.mpr hid.1, ?_⟩
    rw [hdevices.privateKey, nodePrivate_apply hf he hinstall, opts_apply]
    exact hid.2
  refine ⟨fun api phase hg hcheck hunlock hstarted => ?_, fun hstarted => ?_⟩
  · have hstarted : s.ctl.runtimeStarted = true := hruntime.symm.trans hstarted
    rcases mem_or_from he hg rfl with hold | hfrom
    · exact hkeep (h.checked api phase (mem_cons_of_mem hold) hcheck hunlock hstarted)
    have hpast {phase' : AttachPhase} (heq : f = .attaching api phase') (hcheck : phase' ≠ .check)
        (hunlock : phase' ≠ .unlock) :=
      hkeep (h.checked api phase' (heq ▸ mem_cons_self _ _) hcheck hunlock hstarted)
    cases phase with
    | check => exact absurd rfl hcheck
    | unlock => exact absurd rfl hunlock
    | transport =>
      obtain ⟨rfl, -, -, hkey⟩ := hfrom
      exact hkeep ⟨hf.2.1, hkey⟩
    | relock => exact absurd ⟨_, _, hfrom⟩ hinstall
    | clear | release sw => exact hpast hfrom nofun nofun
    | install sw =>
      cases sw with
      | false =>
        rcases hfrom with hfrom | ⟨-, -, -, hnot⟩
        · exact hpast hfrom nofun nofun
        · exact absurd (hnot.symm.trans hstarted) Bool.false_ne_true
      | true => exact hpast hfrom nofun nofun
  · have hstarted : s.ctl.runtimeStarted = true := hruntime.symm.trans hstarted
    by_cases hattach : ∃ api sw, f = .attaching api (.install sw)
    · obtain ⟨api, sw, rfl⟩ := hattach
      refine .inl fun api' hapi => ?_
      rw [show (e.apply ch.now s).state.ctl = e.ctl from rfl, effect_attachInstall he] at hapi
      obtain rfl : api = api' := Option.some.inj hapi
      exact hkeep (h.checked api _ (mem_cons_self _ _) nofun nofun hstarted)
    have hapi := hctl.deviceAPI.resolve_right fun ⟨api, sw, heq, _⟩ => hattach ⟨api, sw, heq⟩
    refine (h.attached hstarted).imp (fun hold api hat => hkeep (hold api (hapi.symm.trans hat))) ?_
    rintro ⟨g, hg, hgo⟩
    rcases mem_cons.mp hg with rfl | hR
    · -- the lock is taken, the API is attached next
      unfold Frame.isTransition at hgo
      split at hgo
      · have he : attachEffect ch s _ .relock = some e := he
        dsimp only [attachEffect] at he
        split at he
        · cases he
          exact ⟨_, mem_add.mpr (.inl (List.mem_singleton.mpr rfl)), rfl⟩
        · cases he
      · exact absurd ⟨_, _, rfl⟩ hattach
      · cases hgo
    · exact ⟨g, mem_add.mpr (.inr hR), hgo⟩

theorem keeps_identity : program.Keeps
    { run := fun s f R _ => LocksHeld s (f ::ₘ R) ∧ Lifecycle s (f ::ₘ R) } IdentityKept where
  run s f R ch o h hp ho := by
    obtain ⟨e, he, rfl⟩ := Option.map_eq_some_iff.mp ho
    exact identityKept_apply hp.1 hp.2 he h
  start s F f h _ hf := by
    refine ⟨fun api phase hg => ?_, fun hruntime => (h.attached hruntime).imp_right
      fun ⟨g, hg, hgo⟩ => ⟨g, mem_cons_of_mem hg, hgo⟩⟩
    rcases mem_cons.mp hg with rfl | hold
    · cases hf
    · exact h.checked api phase hold
  env s s' F a h _ ha := by
    obtain ⟨hclient, -, hctl, -, -⟩ := envStep ha
    have hruntime : s'.ctl.runtimeStarted = s.ctl.runtimeStarted := by rw [hctl]
    have hkeep {api : Nat} (hid : s.Identified api) : s'.Identified api := by
      obtain ⟨hmem, -, hkey⟩ := env_devices ha hid.1
      exact ⟨hmem, by rw [hkey, hclient]; exact hid.2⟩
    refine ⟨fun api phase hg hcheck hunlock hstarted => ?_, fun hstarted => ?_⟩
    · exact hkeep (h.checked api phase hg hcheck hunlock (hruntime.symm.trans hstarted))
    · refine (h.attached (hruntime.symm.trans hstarted)).imp_left fun hold api hapi => ?_
      rw [hctl] at hapi
      exact hkeep (hold api hapi)

/-! ## Watchers -/

/-- The generation that a goroutine of `watchDeviceLocked` waits for the end of. -/
def Frame.watched : Frame → Option Nat
  | .watch _ generation | .watchLock generation => some generation
  | _ => none

/-- A watcher whose API has been replaced does nothing to the client, the bind or a device, now or
later. -/
theorem watched_outdated {generation : Nat} (hg : f.watched = some generation)
    (hne : generation ≠ s.ctl.deviceGeneration) (he : effect ch s f = some e) :
    (e.apply ch.now s).state.client = s.client ∧ (e.apply ch.now s).state.bind = s.bind ∧
      ∀ g ∈ e.frames ++ e.spawned.flatten, g.watched = some generation := by
  unfold Frame.watched at hg
  split at hg
  · cases hg
    dsimp only [effect] at he
    repeat' split at he
    all_goals first
      | cases he; done
      | cases he
        exact ⟨rfl, rfl, by simp [Frame.watched]⟩
  · cases hg
    dsimp only [effect] at he
    rw [if_neg (Ne.symm hne)] at he
    split at he
    · cases he
      exact ⟨rfl, rfl, by simp⟩
    · cases he
  · cases hg

/-! ## Refused attachments -/

/-- The text of `ErrClosed`. -/
def errClosed : String := "tailscale: client closed"

/-- The text of `ErrDeviceAlreadyAttached`. -/
def errDeviceAlreadyAttached : String := "tailscale: wgo device API already attached"

/-- The text of `ErrNodeIdentityChanged`. -/
def errNodeIdentityChanged : String :=
  "tailscale: wgo device identity does not match the client identity"

/-- The error with which `AttachDevice` returns at this step. -/
def attachError (ch : Choice) (s : Sys) : Frame → Option String
  | .attachDevice api => if s.isClosed api then some s.client.opts.packages.errDeviceClosed else none
  | .attachEnter _ => if s.ctl.closed then some errClosed else none
  | .attaching api .check =>
    if s.usableAPI.isSome then some errDeviceAlreadyAttached
    else if s.ctl.runtimeStarted then
      if (s.privateKey api).isZero then some errZeroNodeKey
      else if (s.privateKey api).publicNode s.client.opts.packages ≠
          s.client.nodePrivate.publicNode s.client.opts.packages then
        some errNodeIdentityChanged
      else none
    else none
  | .initializing .attach api .identity =>
    if (s.privateKey api).isZero then some errZeroNodeKey else none
  | .initializing .attach _ .cache => if ch.cache.isNone then some ch.err else none
  | .attaching _ .transport | .initializing .attach _ (.transport _) =>
    if ch.ok then none else some ch.err
  | _ => none

/-- The points at which `AttachDevice` can still fail. -/
def Frame.isUndecided : Frame → Bool
  | .attachDevice _ | .attachEnter _ | .attaching _ .check | .attaching _ .transport
  | .initializing .attach _ .identity | .initializing .attach _ .cache
  | .initializing .attach _ (.transport _) => true
  | _ => false

/-- As long as it can fail, `AttachDevice` changes neither the client nor what is attached. -/
theorem attach_undecided (hf : f.isUndecided = true) (he : effect ch s f = some e) :
    (e.apply ch.now s).state.client = s.client ∧ e.ctl.deviceAPI = s.ctl.deviceAPI ∧
      e.ctl.deviceGeneration = s.ctl.deviceGeneration := by
  unfold Frame.isUndecided at hf
  split at hf
  all_goals first
    | cases hf; done
    | dsimp only [effect, attachEffect, initEffect] at he
      repeat' split at he
      all_goals
        cases he
        try exact ⟨rfl, rfl, rfl⟩

/-- An error is returned where `AttachDevice` can fail, and ends the call. -/
theorem attachError_returns {err : String} (h : attachError ch s f = some err)
    (he : effect ch s f = some e) : f.isUndecided = true ∧
      ∀ g ∈ e.frames, ∃ api, g = .attaching api .unlock := by
  revert h
  fun_cases attachError ch s f <;> intro h
  all_goals first
    | cases h; done
    | refine ⟨rfl, ?_⟩
      dsimp only [effect, attachEffect, initEffect] at he
      simp_all [goOn, initFailed]
  all_goals
    first
    | obtain rfl := he
    | obtain ⟨-, rfl⟩ := he
    simp

/-- Past that point it does not come back to it. -/
theorem undecided_from (h : f.From s g) (hg : g.isUndecided = true) : f.isUndecided = true := by
  unfold Frame.isUndecided at hg
  split at hg
  all_goals first
    | cases hg; done
    | cases h; done
    | obtain rfl : f = _ := h
      rfl
    | obtain ⟨rfl, -⟩ := h
      rfl
    | rcases h with ⟨⟨⟩, -⟩ | ⟨-, rfl, -⟩
      rfl

/-- The protocol. The attached API has the node key, unless the one that `AttachDevice` has
initialized the runtime with is to replace it. An attachment outdates every watcher there is, and an
outdated watcher changes nothing. A call that fails has changed nothing up to there. -/
structure AttachmentKept (s : Sys) (F : Multiset Frame) : Prop where
  identity : s.ctl.runtimeStarted = true → (∀ api, s.ctl.deviceAPI = some api → s.Identified api) ∨
    ∃ api, (.attaching api .relock ∈ F ∨ .attaching api (.install true) ∈ F) ∧
      s.Identified api ∧ s.usableAPI = none
  outdated : ∀ api generation, .watch api generation ∈ F → s.ctl.deviceAPI ≠ some api →
    generation ≠ s.ctl.deviceGeneration
  attaches : ∀ ch api sw e, effect ch s (.attaching api (.install sw)) = some e →
    ∀ g ∈ F, ∀ generation, g.watched = some generation → generation < e.ctl.deviceGeneration
  grows : ∀ ch f e, effect ch s f = some e → s.ctl.deviceGeneration ≤ e.ctl.deviceGeneration
  silent : ∀ ch f e generation, f.watched = some generation → generation ≠ s.ctl.deviceGeneration →
    effect ch s f = some e → (e.apply ch.now s).state.client = s.client ∧
      (e.apply ch.now s).state.bind = s.bind ∧
        ∀ g ∈ e.frames ++ e.spawned.flatten, g.watched = some generation
  refused : ∀ ch f e, f.isUndecided = true → effect ch s f = some e →
    (e.apply ch.now s).state.client = s.client ∧ e.ctl.deviceAPI = s.ctl.deviceAPI ∧
      e.ctl.deviceGeneration = s.ctl.deviceGeneration
  returns : ∀ ch f e err, attachError ch s f = some err → effect ch s f = some e →
    f.isUndecided = true ∧ ∀ g ∈ e.frames, ∃ api, g = .attaching api .unlock
  undecided : ∀ ch f e, effect ch s f = some e → ∀ g ∈ e.frames ++ e.spawned.flatten,
    g.isUndecided = true → f.isUndecided = true

theorem IdentityKept.attachment (h : IdentityKept s F) (hlife : Lifecycle s F) :
    AttachmentKept s F where
  identity hruntime := (h.attached hruntime).imp_right fun ⟨g, hg, hgo⟩ => by
    have hknows := hlife.knows g hg
    unfold Frame.isTransition at hgo
    split at hgo
    · exact ⟨_, .inl hg, h.checked _ _ hg nofun nofun hruntime, hknows.2.2.2.2⟩
    · exact ⟨_, .inr hg, h.checked _ _ hg nofun nofun hruntime, hknows.2.2.2.2⟩
    · cases hgo
  outdated api generation hg hne heq := hne ((hlife.knows _ hg).2 heq)
  attaches ch api sw e he g hg generation hwatched := by
    rw [effect_attachInstall he]
    refine Nat.lt_succ_of_le ?_
    have hknows := hlife.knows g hg
    unfold Frame.watched at hwatched
    split at hwatched
    · cases hwatched
      exact hknows.1
    · cases hwatched
      exact hknows.1
    · cases hwatched
  grows ch f e he := by
    rcases (traced_effect he).ctl.deviceGeneration with heq | ⟨-, heq⟩
    · exact heq.ge
    · exact heq ▸ Nat.le_succ _
  silent _ _ _ _ hwatched hne he := watched_outdated hwatched hne he
  refused _ _ _ hf he := attach_undecided hf he
  returns _ _ _ _ herr he := attachError_returns herr he
  undecided _ _ _ he g hg := undecided_from ((traced_effect he).calls g hg)

/-- The protocol is kept in every state of every run. -/
theorem device_attachment (opts : Options) (privateKey : Option PrivateKey)
    (acts : List (Act Frame Choice EnvAct)) :
    program.system.Visits (fun cfg => AttachmentKept cfg.shared cfg.frames)
      (initial opts privateKey) acts := by
  have hkeeps := ((keeps_locks .any).known keeps_lifecycle).known keeps_identity
  refine hkeeps.visits (fun cfg h => h.2.attachment h.1.2) ⟨⟨locksHeld_initial opts privateKey,
    lifecycle_initial opts privateKey⟩, ?_, nofun⟩ acts
  exact fun _ _ hg => absurd hg (notMem_zero _)

/-- The device of the client is closed, `Start` waits, and another device is being attached. -/
def replaceRun : Schedule :=
  [.env (.closeDevice 0), .env (.newDevice 1 ⟨8⟩), .start .start] ++ steps 0 9 ++
    [.start (.attachDevice 1)] ++ steps 2 7

/-- The runtime has the key of the new device, the closed one is still attached. -/
theorem attached_key_differs : ∃ cfg, program.Reaches .any sampleClient cfg ∧
    cfg.shared.ctl.runtimeStarted = true ∧ cfg.shared.ctl.deviceAPI = some 0 ∧
      ¬ cfg.shared.Identified 0 := by
  have hrun : (program.system.runIf (Machine.Policy.any).Admits sampleClient replaceRun).map
      (fun cfg => (cfg.shared.ctl.runtimeStarted, cfg.shared.ctl.deviceAPI,
        decide ((cfg.shared.privateKey 0).publicNode cfg.shared.client.opts.packages =
          cfg.shared.client.nodePrivate.publicNode cfg.shared.client.opts.packages))) =
        some (true, some 0, false) := by decide +kernel
  obtain ⟨cfg, hreach, hview⟩ := System.exists_reach_of_runIf hrun
  simp only [Prod.mk.injEq, decide_eq_false_iff_not] at hview
  exact ⟨cfg, hreach, hview.1, hview.2.1, fun h => hview.2.2 h.2⟩

end

end WgoTailscale
