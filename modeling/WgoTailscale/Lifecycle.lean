import WgoTailscale.Locks
import WgoTailscale.SectionFacts

/-!
# The client's life

What the frames know of the flags of the client. `Start`, `AttachDevice` and the beginning of `Close`
hold `lifeMu`, so what one of them has found out about `closed`, `started`, `runtimeStarted` and the
attached API stays true until it changes it itself; the frames that hold `deviceMu` know which API is
attached, and the watch of an API knows it by its generation (`Frame.Knows`, `keeps_lifecycle`).
-/

namespace WgoTailscale

open Multiset FinMap

/-- A step runs at most one section, and no section changes the options. -/
theorem opts_apply (e : Effect) (now : Time) (s : Sys) :
    (e.apply now s).state.client.opts = s.client.opts := by
  show (e.done now s.client).client.opts = _
  rcases done_cases e now s.client with ⟨-, hdone⟩ | ⟨x, -, hdone⟩
  · rw [hdone]
  · rw [hdone]
    exact (sectionStep_run s.client now x).opts

/-! ## What frames know -/

/-- The sections that frames consist of. -/
def Section.isCalled : Section → Bool
  | .confirmPeer _ | .revokePeerConfirmation _ | .onPath _ | .onDERPLatency _ => true
  | x => x.isRuntime

theorem Section.isCalled_of_isRuntime {x : Section} (h : x.isRuntime = true) : x.isCalled = true := by
  unfold Section.isCalled
  split
  · rfl
  · rfl
  · rfl
  · rfl
  · exact h

/-- What a frame knows of the flags and of the attached API. -/
def Frame.Knows (s : Sys) : Frame → Prop
  | .starting phase => s.ctl.closed = false ∧ match phase with
    | .begin | .device | .failed | .finish none =>
      s.ctl.started = false ∧ s.ctl.runtimeStarted = false
    | .generation api | .finish (some api) =>
      s.ctl.started = false ∧ s.ctl.runtimeStarted = true ∧ s.ctl.deviceAPI = some api
    | .launch none => s.ctl.started = true ∧ s.ctl.runtimeStarted = false
    | .launch (some api) =>
      s.ctl.started = true ∧ s.ctl.runtimeStarted = true ∧ s.ctl.deviceAPI = some api
  | .initializing caller api phase => s.ctl.closed = false ∧ s.ctl.runtimeStarted = false ∧
    (∀ cache, phase = .install cache → s.bind.isSome = true) ∧ match caller with
    | .start => s.ctl.started = false ∧ s.ctl.deviceAPI = some api
    | .attach => s.ctl.started = true ∧ s.usableAPI = none ∧ api ∈ s.devices
  | .attaching api phase => s.ctl.closed = false ∧ api ∈ s.devices ∧ match phase with
    | .check | .unlock => True
    | .transport | .clear => s.ctl.runtimeStarted = true ∧ s.usableAPI = none
    | .relock | .install true =>
      s.ctl.started = true ∧ s.ctl.runtimeStarted = true ∧ s.usableAPI = none
    | .install false => (s.ctl.started = true → s.ctl.runtimeStarted = true) ∧ s.usableAPI = none
    | .release true =>
      s.ctl.started = true ∧ s.ctl.runtimeStarted = true ∧ s.ctl.deviceAPI = some api
    | .release false =>
      (s.ctl.started = true → s.ctl.runtimeStarted = true) ∧ s.ctl.deviceAPI = some api
  | .attachDevice api | .attachEnter api => api ∈ s.devices
  | .closing phase =>
    s.ctl.closed = true ∧ (phase = .unstarted → s.ctl.runtimeStarted = false)
  | .removeOwned => s.ctl.closed = true
  | .removeOwnedWait api | .removeOwnedSnapshot api => s.ctl.closed = true ∧ s.ctl.deviceAPI = api
  | .removingOwned r => s.ctl.closed = true ∧ s.ctl.deviceAPI = r.api
  | .reconcileWait api | .reconcileSnapshot api => s.ctl.deviceAPI = some api
  | .reconciling r => s.ctl.deviceAPI = some r.api
  | .watch api generation => generation ≤ s.ctl.deviceGeneration ∧
    (generation = s.ctl.deviceGeneration → s.ctl.deviceAPI = some api)
  | .watchLock generation => generation ≤ s.ctl.deviceGeneration ∧
    (generation = s.ctl.deviceGeneration → s.usableAPI = none)
  | .watching _ => s.usableAPI = none
  | .sec x => x.isCalled = true
  | _ => True

/-- What a step of another frame leaves as `g` knows it. -/
structure Undisturbed (s s' : Sys) (g : Frame) : Prop where
  life : .life ∈ g.locks → s'.ctl.closed = s.ctl.closed ∧ s'.ctl.started = s.ctl.started ∧
    s'.ctl.runtimeStarted = s.ctl.runtimeStarted ∧ s'.ctl.deviceAPI = s.ctl.deviceAPI
  device : .deviceRead ∈ g.locks ∨ .deviceWrite ∈ g.locks → s'.ctl.deviceAPI = s.ctl.deviceAPI
  closed : s.ctl.closed = true → s'.ctl.closed = true
  usable : s'.ctl.deviceAPI = s.ctl.deviceAPI → s.usableAPI = none → s'.usableAPI = none
  generation : s'.ctl.deviceGeneration = s.ctl.deviceGeneration ∧
      s'.ctl.deviceAPI = s.ctl.deviceAPI ∨ s.ctl.deviceGeneration < s'.ctl.deviceGeneration
  devices : ∀ api ∈ s.devices, api ∈ s'.devices
  bind : s.bind.isSome = true → s'.bind.isSome = true

/-- What a frame knows stays true while others make steps. -/
theorem Frame.Knows.keep {s s' : Sys} {g : Frame} (h : g.Knows s) (hs : Undisturbed s s' g) :
    g.Knows s' := by
  cases g with
  | starting phase =>
    obtain ⟨hclosed, hstarted, hruntime, hapi⟩ := hs.life List.mem_cons_self
    unfold Frame.Knows at h ⊢
    rw [hclosed, hstarted, hruntime, hapi]
    exact h
  | initializing caller api phase =>
    obtain ⟨hclosed, hstarted, hruntime, hapi⟩ := hs.life List.mem_cons_self
    obtain ⟨hclosed', hruntime', hbind, hcaller⟩ := h
    refine ⟨hclosed.trans hclosed', hruntime.trans hruntime', fun c hc => hs.bind (hbind c hc), ?_⟩
    cases caller with
    | start => exact ⟨hstarted.trans hcaller.1, hapi.trans hcaller.2⟩
    | attach =>
      exact ⟨hstarted.trans hcaller.1, hs.usable hapi hcaller.2.1, hs.devices _ hcaller.2.2⟩
  | attaching api phase =>
    obtain ⟨hclosed, hstarted, hruntime, hapi⟩ := hs.life (by cases phase <;> exact List.mem_cons_self)
    obtain ⟨hclosed', hdevice, hphase⟩ := h
    refine ⟨hclosed.trans hclosed', hs.devices api hdevice, ?_⟩
    cases phase with
    | check | unlock => trivial
    | transport | clear => exact ⟨hruntime.trans hphase.1, hs.usable hapi hphase.2⟩
    | relock =>
      exact ⟨hstarted.trans hphase.1, hruntime.trans hphase.2.1, hs.usable hapi hphase.2.2⟩
    | install startWorkers =>
      cases startWorkers with
      | true =>
        exact ⟨hstarted.trans hphase.1, hruntime.trans hphase.2.1, hs.usable hapi hphase.2.2⟩
      | false =>
        exact ⟨fun ht => hruntime.trans (hphase.1 (hstarted.symm.trans ht)),
          hs.usable hapi hphase.2⟩
    | release startWorkers =>
      cases startWorkers with
      | true => exact ⟨hstarted.trans hphase.1, hruntime.trans hphase.2.1, hapi.trans hphase.2.2⟩
      | false =>
        exact ⟨fun ht => hruntime.trans (hphase.1 (hstarted.symm.trans ht)), hapi.trans hphase.2⟩
  | attachDevice api | attachEnter api => exact hs.devices api h
  | closing phase =>
    refine ⟨hs.closed h.1, fun hphase => ?_⟩
    subst hphase
    exact (hs.life List.mem_cons_self).2.2.1.trans (h.2 rfl)
  | removeOwned => exact hs.closed h
  | removeOwnedWait | removingOwned =>
    exact ⟨hs.closed h.1, (hs.device (.inl List.mem_cons_self)).trans h.2⟩
  | removeOwnedSnapshot api =>
    exact ⟨hs.closed h.1, (hs.device (.inl List.mem_cons_self)).trans h.2⟩
  | reconcileWait | reconcileSnapshot | reconciling =>
    exact (hs.device (.inl List.mem_cons_self)).trans h
  | watch api generation =>
    obtain ⟨hle, hapi⟩ := h
    rcases hs.generation with ⟨hsame, hattached⟩ | hlt
    · exact ⟨hsame ▸ hle, fun heq => hattached.trans (hapi (heq.trans hsame))⟩
    · exact ⟨by omega, fun heq => absurd heq (by omega)⟩
  | watchLock generation =>
    obtain ⟨hle, hunusable⟩ := h
    rcases hs.generation with ⟨hsame, hattached⟩ | hlt
    · exact ⟨hsame ▸ hle, fun heq => hs.usable hattached (hunusable (heq.trans hsame))⟩
    · exact ⟨by omega, fun heq => absurd heq (by omega)⟩
  | watching phase => exact hs.usable (hs.device (.inr List.mem_cons_self)) h
  | sec x => exact h
  | _ => trivial

/-! ## Devices -/

section
variable {s s' : Sys} {api : Nat}

theorem usableAPI_eq_none : s.usableAPI = none ↔
    ∀ api, s.ctl.deviceAPI = some api → s.isClosed api = true := by
  simp [Sys.usableAPI]

theorem usableAPI_eq_some : s.usableAPI = some api ↔
    s.ctl.deviceAPI = some api ∧ s.isClosed api = false := by
  simp [Sys.usableAPI, Option.filter_eq_some_iff]

/-- What a device has beside its peers. -/
def Device.status (d : Device) := (d.closed, d.privateKey)

/-- The devices are there, closed or not and with their keys, as before. -/
def SameDevices (devices devices' : FinMap Nat Device) : Prop :=
  ∀ api, (devices'.get api).map Device.status = (devices.get api).map Device.status

theorem sameDevices_updateSpecs (devices : FinMap Nat Device) (api : Nat)
    (f : FinMap NodePublic Published → FinMap NodePublic Published) :
    SameDevices devices (updateSpecs devices api f) := by
  intro api'
  unfold updateSpecs
  split
  · rfl
  · next d hd =>
    rw [get_insert]
    split
    · next heq => rw [heq, hd]; rfl
    · rfl

/-- No call of the client opens or closes a device. -/
theorem sameDevices_apply (e : Effect) (now : Time) (s : Sys) :
    SameDevices s.devices (e.apply now s).state.devices := by
  cases hact : e.device with
  | none => exact fun _ => by rw [devices_apply_none hact]
  | some act =>
    rw [devices_apply_some hact]
    unfold DeviceAct.run
    split
    · exact sameDevices_updateSpecs _ _ _
    · exact sameDevices_updateSpecs _ _ _
    · exact fun _ => rfl

theorem SameDevices.mem (h : SameDevices s.devices s'.devices) : api ∈ s'.devices ↔ api ∈ s.devices := by
  have hsame := congrArg Option.isSome (h api)
  rw [Option.isSome_map, Option.isSome_map] at hsame
  rw [mem_iff, mem_iff, ← Option.isSome_iff_exists, ← Option.isSome_iff_exists, hsame]

theorem SameDevices.isClosed (h : SameDevices s.devices s'.devices) :
    s'.isClosed api = s.isClosed api := by
  have hall (o : Option Device) : o.all (fun d => d.closed) = (o.map Device.status).all Prod.fst := by
    cases o <;> rfl
  rw [Sys.isClosed, Sys.isClosed, hall, hall, h api]

theorem SameDevices.privateKey (h : SameDevices s.devices s'.devices) :
    s'.privateKey api = s.privateKey api := by
  have hmap (o : Option Device) : o.map Device.privateKey = (o.map Device.status).map Prod.snd := by
    cases o <;> rfl
  rw [Sys.privateKey, Sys.privateKey, hmap, hmap, h api]

theorem SameDevices.usableAPI (h : SameDevices s.devices s'.devices)
    (hapi : s'.ctl.deviceAPI = s.ctl.deviceAPI) : s'.usableAPI = s.usableAPI := by
  simp only [Sys.usableAPI, hapi, h.isClosed]

/-- In the environment devices appear and close. -/
theorem env_devices {a : EnvAct} (h : environment a s = some s') (hapi : api ∈ s.devices) :
    api ∈ s'.devices ∧ (s.isClosed api = true → s'.isClosed api = true) ∧
      s'.privateKey api = s.privateKey api := by
  have hsame {s' : Sys} (h : SameDevices s.devices s'.devices) :
      api ∈ s'.devices ∧ (s.isClosed api = true → s'.isClosed api = true) ∧
        s'.privateKey api = s.privateKey api :=
    ⟨h.mem.mpr hapi, fun hclosed => h.isClosed.trans hclosed, h.privateKey⟩
  cases a with
  | newDevice api' privateKey =>
    dsimp only [environment] at h
    split at h
    · cases h
    · next hnew =>
      cases h
      have hne : api ≠ api' := fun heq => hnew (heq ▸ hapi)
      unfold Sys.isClosed Sys.privateKey
      rw [get_insert_ne _ _ hne]
      exact ⟨mem_insert.mpr (.inr hapi), id, rfl⟩
  | closeDevice api' =>
    dsimp only [environment] at h
    split at h
    · cases h
    · next d hd =>
      cases h
      refine ⟨mem_insert.mpr (.inr hapi), ?_⟩
      unfold Sys.isClosed Sys.privateKey
      rw [get_insert]
      split
      · next heq => exact ⟨fun _ => rfl, by rw [heq, hd]; rfl⟩
      · exact ⟨id, rfl⟩
  | foreignUpsert | foreignDelete =>
    cases h
    exact hsame (sameDevices_updateSpecs _ _ _)
  | _ =>
    refine hsame fun api => ?_
    dsimp only [environment] at h
    repeat' split at h
    all_goals cases h
    all_goals rfl

end

/-! ## The flags along a step -/

/-- The frames that set one of the flags. -/
def Frame.setsFlags : Frame → Bool
  | .close | .starting (.finish _) | .starting (.generation _) | .initializing _ _ (.install _)
  | .attaching _ (.install _) => true
  | _ => false

section
variable {ch : Choice} {s : Sys} {f g : Frame} {e : Effect} {R : Multiset Frame}

/-- The other frames leave the flags alone. -/
theorem flags_same {ctl : Control} (h : CtlStep s f ctl) (hf : f.setsFlags = false) :
    ctl.closed = s.ctl.closed ∧ ctl.started = s.ctl.started ∧
      ctl.runtimeStarted = s.ctl.runtimeStarted ∧ ctl.deviceAPI = s.ctl.deviceAPI ∧
      ctl.deviceGeneration = s.ctl.deviceGeneration := by
  refine ⟨h.closed.resolve_right ?_, h.started.resolve_right ?_, h.runtimeStarted.resolve_right ?_,
    h.deviceAPI.resolve_right ?_, h.deviceGeneration.resolve_right ?_⟩
  · rintro ⟨rfl, -⟩
    cases hf
  · rintro ⟨⟨api, rfl⟩, -⟩
    cases hf
  · rintro ⟨⟨caller, api, cache, rfl⟩, -⟩
    cases hf
  · rintro ⟨api, sw, rfl, -⟩
    cases hf
  · rintro ⟨⟨api, rfl⟩ | ⟨api, sw, rfl⟩, -⟩
    · cases hf
    · cases hf

/-- `AttachDevice` installs its API under a new generation. -/
theorem effect_attachInstall {api : Nat} {sw : Bool}
    (he : effect ch s (.attaching api (.install sw)) = some e) :
    e.ctl = { s.ctl with deviceAPI := some api, deviceGeneration := s.ctl.deviceGeneration + 1 } := by
  have he : attachEffect ch s api (.install sw) = some e := he
  dsimp only [attachEffect] at he
  split at he
  · cases he
    rfl
  · cases he
    rfl

/-- The bind stays. -/
theorem isSome_bind_apply (e : Effect) (now : Time) (h : s.bind.isSome = true) :
    (e.apply now s).state.bind.isSome = true := by
  cases hact : e.bind with
  | none => rwa [bind_apply_none hact]
  | some act =>
    rw [bind_apply_some hact]
    cases act <;> simp [BindAct.run, h]

/-- A step of a frame that sets no flag leaves what any frame knows. -/
theorem Frame.Knows.same (h : g.Knows s) (he : effect ch s f = some e)
    (hf : f.setsFlags = false) : g.Knows (e.apply ch.now s).state := by
  obtain ⟨hclosed, hstarted, hruntime, hapi, hgen⟩ := flags_same (traced_effect he).ctl hf
  have hsame := sameDevices_apply e ch.now s
  exact h.keep ⟨fun _ => ⟨hclosed, hstarted, hruntime, hapi⟩, fun _ => hapi, hclosed.trans,
    fun hapi hnone => (hsame.usableAPI hapi).trans hnone, .inl ⟨hgen, hapi⟩,
    fun api => hsame.mem.mpr, isSome_bind_apply e ch.now⟩

/-- A step leaves what the other frames know. -/
theorem undisturbed_apply (hlocks : LocksHeld s (f ::ₘ R)) (he : effect ch s f = some e)
    (hg : g ∈ R) : Undisturbed s (e.apply ch.now s).state g := by
  have hctl : CtlStep s f e.ctl := (traced_effect he).ctl
  have hmem : g ∈ f ::ₘ R := mem_cons_of_mem hg
  have hsame := sameDevices_apply e ch.now s
  have halone (hf : .life ∈ f.locks) (hlife : .life ∈ g.locks) : False :=
    hlocks.alone (by simp) hf hg hlife
  refine ⟨fun hlife => ⟨?_, ?_, ?_, ?_⟩, fun hdevice => ?_, fun hclosed => ?_,
    fun hapi hnone => (hsame.usableAPI hapi).trans hnone, ?_, fun api => hsame.mem.mpr,
    isSome_bind_apply e ch.now⟩
  · refine hctl.closed.resolve_right fun ⟨_, hfree, _⟩ => ?_
    exact hlocks.level_ne_zero hmem hlife (by rw [lockLevel, hfree]; rfl)
  · refine hctl.started.resolve_right ?_
    rintro ⟨⟨api, rfl⟩, -⟩
    exact halone List.mem_cons_self hlife
  · refine hctl.runtimeStarted.resolve_right ?_
    rintro ⟨⟨caller, api, cache, rfl⟩, -⟩
    exact halone List.mem_cons_self hlife
  · refine hctl.deviceAPI.resolve_right ?_
    rintro ⟨api, sw, rfl, -⟩
    exact halone List.mem_cons_self hlife
  · refine hctl.deviceAPI.resolve_right ?_
    rintro ⟨api, sw, rfl, -⟩
    have hwrite : Lock.deviceWrite ∈ (Frame.attaching api (.install sw)).locks :=
      List.mem_cons_of_mem _ List.mem_cons_self
    rcases hdevice with hread | hwrite'
    · exact hlocks.no_writer hmem hread (mem_cons_self _ _) hwrite
    · exact hlocks.alone (by simp) hwrite hg hwrite'
  · rcases hctl.closed with heq | ⟨-, -, -, heq⟩
    · exact heq.trans hclosed
    · exact heq
  · rcases hctl.deviceAPI with hapi | ⟨api, sw, rfl, -⟩
    · rcases hctl.deviceGeneration with hgen | ⟨-, hgen⟩
      · exact .inl ⟨hgen, hapi⟩
      · exact .inr (by rw [show (e.apply ch.now s).state.ctl = e.ctl from rfl]; omega)
    · refine .inr ?_
      rw [show (e.apply ch.now s).state.ctl = e.ctl from rfl, effect_attachInstall he]
      exact Nat.lt_succ_self _

end

/-! ## Lifecycle -/

/-- What the flags say in every state. -/
structure Lifecycle (s : Sys) (F : Multiset Frame) : Prop where
  knows : ∀ g ∈ F, g.Knows s
  attached : ∀ api, s.ctl.deviceAPI = some api → api ∈ s.devices
  started : s.ctl.runtimeStarted = true → s.ctl.started = true ∨
    ∃ api, .starting (.generation api) ∈ F ∨ .starting (.finish (some api)) ∈ F
  installed : s.ctl.runtimeStarted = true → s.bind.isSome = true
  stopped : s.client.state.isStop = true → s.ctl.closed = true

section
variable {ch : Choice} {s : Sys} {f g : Frame} {e : Effect} {R F : Multiset Frame}

/-- Nobody is starting while `lifeMu` is free. -/
theorem Lifecycle.started_of_free (h : Lifecycle s F) (hlocks : LocksHeld s F)
    (hfree : s.ctl.lifeMu = false) (hruntime : s.ctl.runtimeStarted = true) :
    s.ctl.started = true := by
  rcases h.started hruntime with hstarted | ⟨api, hgen | hfinish⟩
  · exact hstarted
  · exact absurd (by rw [lockLevel, hfree]; rfl) (hlocks.level_ne_zero hgen (ℓ := .life)
      List.mem_cons_self)
  · exact absurd (by rw [lockLevel, hfree]; rfl) (hlocks.level_ne_zero hfinish (ℓ := .life)
      List.mem_cons_self)

/-- The frames that a step of `Start` adds. -/
theorem knows_starting {phase : StartPhase} (h : Lifecycle s (f ::ₘ R))
    (hlocks : LocksHeld s (f ::ₘ R)) (he : effect ch s f = some e)
    (hfrom : f.From s (.starting phase)) :
    (Frame.starting phase).Knows (e.apply ch.now s).state := by
  have hf := h.knows f (mem_cons_self _ _)
  have hctl := (traced_effect he).ctl
  cases phase with
  | begin =>
    obtain ⟨rfl, hclosed, hstarted⟩ := hfrom
    have hfree : s.ctl.lifeMu = false := by
      dsimp only [effect] at he
      split at he
      · cases he
      · next hfree => exact Bool.eq_false_iff.mpr hfree
    refine Frame.Knows.same ⟨hclosed, hstarted, Bool.eq_false_iff.mpr fun hruntime => ?_⟩ he rfl
    rw [h.started_of_free hlocks hfree hruntime] at hstarted
    cases hstarted
  | device =>
    obtain rfl : f = _ := hfrom
    exact hf.same (g := .starting .device) he rfl
  | generation api =>
    obtain ⟨cache, rfl⟩ := hfrom
    obtain ⟨hclosed, -, -, hstarted, hapi⟩ := hf
    cases he
    exact ⟨hclosed, hstarted, rfl, hapi⟩
  | finish api =>
    cases api with
    | none =>
      obtain ⟨rfl, -⟩ := hfrom
      exact hf.same (g := .starting (.finish none)) he rfl
    | some api =>
      obtain rfl : f = _ := hfrom
      obtain ⟨hclosed, hstarted, hruntime, hapi⟩ := hf
      refine ⟨(hctl.closed.resolve_right (by simp)).trans hclosed,
        (hctl.started.resolve_right (by simp)).trans hstarted,
        (hctl.runtimeStarted.resolve_right (by simp)).trans hruntime,
        (hctl.deviceAPI.resolve_right (by simp)).trans hapi⟩
  | launch api =>
    obtain rfl : f = _ := hfrom
    have hstarted : e.ctl.started = true := by
      have he : startEffect s (.finish api) = some e := he
      dsimp only [startEffect] at he
      split at he
      · cases he
      · cases he
        rfl
    have hclosed := hctl.closed.resolve_right (by simp)
    have hruntime := hctl.runtimeStarted.resolve_right (by simp)
    cases api with
    | none => exact ⟨hclosed.trans hf.1, hstarted, hruntime.trans hf.2.2⟩
    | some api =>
      exact ⟨hclosed.trans hf.1, hstarted, hruntime.trans hf.2.2.1,
        (hctl.deviceAPI.resolve_right (by simp)).trans hf.2.2.2⟩
  | failed =>
    obtain ⟨api, phase, rfl, hphase⟩ := hfrom
    have hsets : (Frame.initializing .start api phase).setsFlags = false := by
      cases phase with
      | install cache => exact absurd rfl (hphase cache)
      | _ => rfl
    obtain ⟨hclosed, hruntime, -, hstarted, -⟩ := hf
    exact Frame.Knows.same ⟨hclosed, hstarted, hruntime⟩ he hsets

/-- The frames that a step of `initializeRuntime` adds. -/
theorem knows_initializing {caller : InitCaller} {api : Nat} {phase : InitPhase}
    (h : Lifecycle s (f ::ₘ R)) (he : effect ch s f = some e)
    (hg : .initializing caller api phase ∈ e.frames ++ e.spawned.flatten) :
    (Frame.initializing caller api phase).Knows (e.apply ch.now s).state := by
  have hfrom := (traced_effect he).calls _ hg
  have hf := h.knows f (mem_cons_self _ _)
  -- from within `initializeRuntime` the flags are those it began with
  have hgo {phase' : InitPhase} (heq : f = .initializing caller api phase')
      (hsets : (Frame.initializing caller api phase').setsFlags = false)
      (hbind : ∀ cache, phase = .install cache → (e.apply ch.now s).state.bind.isSome = true) :
      (Frame.initializing caller api phase).Knows (e.apply ch.now s).state := by
    subst heq
    obtain ⟨hclosed, hruntime, -, hcaller⟩ := hf.same he hsets
    exact ⟨hclosed, hruntime, hbind, hcaller⟩
  cases phase with
  | identity =>
    rcases hfrom with ⟨rfl, rfl, husable⟩ | ⟨rfl, rfl, husable, hstarted, hruntime⟩
    · exact Frame.Knows.same ⟨hf.1, hf.2.2, by simp, hf.2.1, (usableAPI_eq_some.mp husable).1⟩ he rfl
    · exact Frame.Knows.same ⟨hf.1, hruntime, by simp, hstarted, husable, hf.2.1⟩ he rfl
  | cache | transport => exact hgo hfrom rfl (by simp)
  | install cache =>
    refine hgo hfrom rfl fun _ _ => ?_
    obtain rfl : f = _ := hfrom
    have he : initEffect ch s caller api (.transport cache) = some e := he
    dsimp only [initEffect] at he
    split at he
    · cases he
      rfl
    · cases he
      cases caller <;> simp [initFailed] at hg

/-- The frames that a step of `AttachDevice` adds. -/
theorem knows_attaching {api : Nat} {phase : AttachPhase} (h : Lifecycle s (f ::ₘ R))
    (he : effect ch s f = some e) (hfrom : f.From s (.attaching api phase)) :
    (Frame.attaching api phase).Knows (e.apply ch.now s).state := by
  have hf := h.knows f (mem_cons_self _ _)
  have hctl := (traced_effect he).ctl
  have hdevices := sameDevices_apply e ch.now s
  cases phase with
  | check =>
    obtain ⟨rfl, hclosed⟩ := hfrom
    exact Frame.Knows.same ⟨hclosed, hf, trivial⟩ he rfl
  | transport =>
    obtain ⟨rfl, husable, hruntime, -⟩ := hfrom
    exact Frame.Knows.same ⟨hf.1, hf.2.1, hruntime, husable⟩ he rfl
  | clear =>
    obtain rfl : f = _ := hfrom
    exact hf.same (g := .attaching api .clear) he rfl
  | relock =>
    obtain ⟨cache, rfl⟩ := hfrom
    obtain ⟨hclosed, -, -, hstarted, husable, hdevice⟩ := hf
    have hapi' := hctl.deviceAPI.resolve_right (by simp)
    have hruntime : e.ctl.runtimeStarted = true := by
      cases he
      rfl
    exact ⟨(hctl.closed.resolve_right (by simp)).trans hclosed, hdevices.mem.mpr hdevice,
      (hctl.started.resolve_right (by simp)).trans hstarted, hruntime,
      (hdevices.usableAPI hapi').trans husable⟩
  | install startWorkers =>
    cases startWorkers with
    | false =>
      rcases hfrom with rfl | ⟨rfl, husable, hstarted, -⟩
      · exact Frame.Knows.same ⟨hf.1, hf.2.1, fun _ => hf.2.2.1, hf.2.2.2⟩ he rfl
      · refine Frame.Knows.same ⟨hf.1, hf.2.1, fun ht => ?_, husable⟩ he rfl
        exact absurd (hstarted.symm.trans ht) Bool.false_ne_true
    | true =>
      obtain rfl : f = _ := hfrom
      exact hf.same (g := .attaching api (.install true)) he rfl
  | release startWorkers =>
    obtain rfl : f = _ := hfrom
    have hinstall := effect_attachInstall he
    have hclosed : e.ctl.closed = s.ctl.closed := by rw [hinstall]
    have hstarted : e.ctl.started = s.ctl.started := by rw [hinstall]
    have hruntime : e.ctl.runtimeStarted = s.ctl.runtimeStarted := by rw [hinstall]
    have hapi : e.ctl.deviceAPI = some api := by rw [hinstall]
    refine ⟨hclosed.trans hf.1, hdevices.mem.mpr hf.2.1, ?_⟩
    cases startWorkers with
    | true => exact ⟨hstarted.trans hf.2.2.1, hruntime.trans hf.2.2.2.1, hapi⟩
    | false => exact ⟨fun ht => hruntime.trans (hf.2.2.1 (hstarted.symm.trans ht)), hapi⟩
  | unlock =>
    have hclosed' : f ≠ .close → e.ctl.closed = s.ctl.closed := fun hne =>
      hctl.closed.resolve_right fun h => hne h.1
    rcases hfrom with ⟨phase, rfl⟩ | ⟨phase, rfl, -⟩
    · exact ⟨(hclosed' (by simp)).trans hf.1, hdevices.mem.mpr hf.2.1, trivial⟩
    · exact ⟨(hclosed' (by simp)).trans hf.1, hdevices.mem.mpr hf.2.2.2.2.2, trivial⟩

/-- The frames of `Close`. -/
theorem closed_of_closing {phase : ClosePhase} (h : Lifecycle s (f ::ₘ R))
    (he : effect ch s f = some e) (hfrom : f.From s (.closing phase)) : e.ctl.closed = true := by
  have hf := h.knows f (mem_cons_self _ _)
  have hstart (hf : f = .close) : e.ctl.closed = true := by
    subst hf
    dsimp only [effect] at he
    split at he
    · cases he
    split at he
    · next hclosed =>
      cases he
      exact hclosed
    split at he
    all_goals
      cases he
      rfl
  have hgo {phase' : ClosePhase} (hf' : f = .closing phase') : e.ctl.closed = true := by
    subst hf'
    rcases (traced_effect he).ctl.closed with heq | ⟨-, -, -, heq⟩
    · exact heq.trans hf.1
    · exact heq
  cases phase with
  | unstarted | stopping => exact hstart hfrom.1
  | _ => exact hgo hfrom

/-- What the frames know that a step adds. -/
theorem knows_new (h : Lifecycle s (f ::ₘ R)) (hlocks : LocksHeld s (f ::ₘ R))
    (he : effect ch s f = some e) (hg : g ∈ e.frames ++ e.spawned.flatten) :
    g.Knows (e.apply ch.now s).state := by
  have hf := h.knows f (mem_cons_self _ _)
  have htraced := traced_effect he
  have hfrom := htraced.calls g hg
  have hclosed (hc : s.ctl.closed = true) : e.ctl.closed = true := by
    rcases htraced.ctl.closed with heq | ⟨-, -, -, heq⟩
    · exact heq.trans hc
    · exact heq
  cases g with
  | starting phase => exact knows_starting h hlocks he hfrom
  | initializing caller api phase => exact knows_initializing h he hg
  | attaching api phase => exact knows_attaching h he hfrom
  | attachDevice api => exact hfrom.elim
  | attachEnter api =>
    obtain ⟨rfl, -⟩ := hfrom
    exact hf.same (g := .attachEnter api) he rfl
  | closing phase =>
    refine ⟨closed_of_closing h he hfrom, fun hphase => ?_⟩
    subst hphase
    obtain ⟨rfl, hnot⟩ := hfrom
    have hkept := htraced.ctl.runtimeStarted.resolve_right (by rintro ⟨⟨_, _, _, heq⟩, -⟩; cases heq)
    refine hkept.trans (Bool.eq_false_iff.mpr fun hruntime => ?_)
    have hfree : s.ctl.lifeMu = false := by
      dsimp only [effect] at he
      split at he
      · cases he
      · next hfree => exact Bool.eq_false_iff.mpr hfree
    rw [h.started_of_free hlocks hfree hruntime] at hnot
    cases hnot
  | removeOwned =>
    obtain rfl : f = _ := hfrom
    exact hclosed hf.1
  | removeOwnedWait api =>
    obtain ⟨rfl, hapi⟩ := hfrom
    exact Frame.Knows.same ⟨hf, hapi⟩ he rfl
  | removeOwnedSnapshot api =>
    obtain rfl : f = _ := hfrom
    exact hf.same (g := .removeOwnedSnapshot api) he rfl
  | removingOwned r =>
    rcases hfrom with ⟨api, rfl⟩ | ⟨r', rfl⟩
    · obtain ⟨-, rfl⟩ := removeOwned_snapshot he hg
      exact Frame.Knows.same ⟨hf.1, hf.2⟩ he rfl
    · rcases removeOwned_frames he hg with heq | ⟨r'', heq, hapi, -⟩
      · cases heq
      · cases heq
        exact Frame.Knows.same ⟨hf.1, hf.2.trans hapi.symm⟩ he rfl
  | reconcileWait api =>
    obtain ⟨rfl, husable⟩ := hfrom
    exact Frame.Knows.same (g := .reconcileWait api) (usableAPI_eq_some.mp husable).1 he rfl
  | reconcileSnapshot api =>
    obtain rfl : f = _ := hfrom
    exact hf.same (g := .reconcileSnapshot api) he rfl
  | reconciling r =>
    rcases hfrom with ⟨api, rfl⟩ | ⟨r', rfl⟩
    · obtain ⟨-, -, rfl⟩ := reconcile_snapshot he hg
      exact hf.same (g := .reconciling _) he rfl
    · rcases reconcile_frames he hg with heq | ⟨r'', heq, hapi, -⟩
      · cases heq
      · cases heq
        exact Frame.Knows.same (g := .reconciling _) (hf.trans (congrArg some hapi.symm)) he rfl
  | watch api generation =>
    obtain ⟨rfl, hwho⟩ := hfrom
    have hattached : f.setsFlags = false ∧ s.ctl.deviceAPI = some api := by
      rcases hwho with ⟨rfl, -⟩ | ⟨⟨sw, rfl⟩, -⟩
      · exact ⟨rfl, hf.2.2.2⟩
      · cases sw with
        | true => exact ⟨rfl, hf.2.2.2.2⟩
        | false => exact ⟨rfl, hf.2.2.2⟩
    exact Frame.Knows.same ⟨le_rfl, fun _ => hattached.2⟩ he hattached.1
  | watchLock generation =>
    obtain ⟨api, rfl, hclosedAPI⟩ := hfrom
    refine Frame.Knows.same ⟨hf.1, fun heq => usableAPI_eq_none.mpr fun api' hapi => ?_⟩ he rfl
    rw [hf.2 heq] at hapi
    cases hapi
    exact hclosedAPI
  | watching phase =>
    have hunusable : f.setsFlags = false ∧ s.usableAPI = none := by
      cases phase with
      | clear =>
        obtain rfl : f = _ := hfrom
        exact ⟨rfl, hf.2 rfl⟩
      | report | unlock =>
        obtain rfl : f = _ := hfrom
        exact ⟨rfl, hf⟩
    exact Frame.Knows.same (g := .watching phase) hunusable.2 he hunusable.1
  | sec x =>
    rcases hfrom with ⟨hx, -⟩ | ⟨id, -, rfl⟩ | ⟨id, -, rfl⟩
    · exact Section.isCalled_of_isRuntime hx
    · rfl
    · rfl
  | _ => trivial

/-- A client is only shut down by `Close`. -/
theorem stopped_apply (h : Lifecycle s (f ::ₘ R)) (he : effect ch s f = some e)
    (hstop : (e.apply ch.now s).state.client.state.isStop = true) : e.ctl.closed = true := by
  have hf := h.knows f (mem_cons_self _ _)
  have hclosed (hc : s.ctl.closed = true) : e.ctl.closed = true := by
    rcases (traced_effect he).ctl.closed with heq | ⟨-, -, -, heq⟩
    · exact heq.trans hc
    · exact heq
  rcases done_cases e ch.now s.client with ⟨-, hdone⟩ | ⟨x, hx, hdone⟩
  · have hstop : (e.done ch.now s.client).client.state.isStop = true := hstop
    rw [hdone] at hstop
    exact hclosed (h.stopped hstop)
  · have hstop : (e.done ch.now s.client).client.state.isStop = true := hstop
    rw [hdone] at hstop
    have hby := (traced_effect he).sec x hx
    have hreport : ∀ err state, x = .reportError err (some state) → state = .degraded := by
      rintro err state rfl
      rcases hby with rfl | hnone
      · have hcalled : Section.isCalled (.reportError err (some state)) = true := hf
        cases state with
        | degraded => rfl
        | _ => cases hcalled
      · exact hnone.elim
    rcases isStop_run s.client ch.now hreport hstop with hold | rfl | rfl | ⟨errs, rfl⟩
    · exact hclosed (h.stopped hold)
    · rcases hby with rfl | rfl
      · cases hf
      · exact hclosed hf.1
    · rcases hby with rfl | rfl
      · cases hf
      · exact hclosed hf.1
    · rcases hby with rfl | rfl
      · cases hf
      · exact hclosed hf.1

/-- `Start` sets `started` before it gives up `lifeMu`. -/
theorem started_apply (h : Lifecycle s (f ::ₘ R)) (he : effect ch s f = some e)
    (hruntime : e.ctl.runtimeStarted = true) : e.ctl.started = true ∨
      ∃ api, .starting (.generation api) ∈ (e.apply ch.now s).frames + R ∨
        .starting (.finish (some api)) ∈ (e.apply ch.now s).frames + R := by
  have hf := h.knows f (mem_cons_self _ _)
  have hctl := (traced_effect he).ctl
  have hnew {g : Frame} (hg : g ∈ e.frames) : g ∈ (e.apply ch.now s).frames + R :=
    mem_add.mpr (.inl (mem_frames_apply.mpr (.inr (.inr (List.mem_append_left _ hg)))))
  have hstarted (hs : s.ctl.started = true) : e.ctl.started = true := by
    rcases hctl.started with heq | ⟨-, heq⟩
    · exact heq.trans hs
    · exact heq
  rcases hctl.runtimeStarted with heq | ⟨⟨caller, api, cache, rfl⟩, -⟩
  · rcases h.started (heq.symm.trans hruntime) with hs | ⟨api, hgen | hfinish⟩
    · exact .inl (hstarted hs)
    · rcases mem_cons.mp hgen with rfl | hR
      · -- the generation is counted next
        have he : startEffect s (.generation api) = some e := he
        dsimp only [startEffect] at he
        split at he
        · cases he
          exact .inr ⟨api, .inr (hnew List.mem_cons_self)⟩
        · cases he
      · exact .inr ⟨api, .inl (mem_add.mpr (.inr hR))⟩
    · rcases mem_cons.mp hfinish with rfl | hR
      · have he : startEffect s (.finish (some api)) = some e := he
        dsimp only [startEffect] at he
        split at he
        · cases he
        · cases he
          exact .inl rfl
      · exact .inr ⟨api, .inr (mem_add.mpr (.inr hR))⟩
  · cases he
    cases caller with
    | start => exact .inr ⟨api, .inl (hnew List.mem_cons_self)⟩
    | attach => exact .inl hf.2.2.2.1

/-- What a thread knows that starts. -/
theorem knows_entry (h : entry s f = true) : f.Knows s := by
  revert h
  fun_cases entry s f
  all_goals first
    | exact fun _ => trivial
    | exact fun _ => rfl
    | exact fun h => absurd h Bool.false_ne_true
    | rw [decide_eq_true_iff]; exact id

theorem keeps_lifecycle : program.Keeps
    { run := fun s f R _ => LocksHeld s (f ::ₘ R) } Lifecycle where
  run s f R ch o h hlocks ho := by
    obtain ⟨e, he, rfl⟩ := Option.map_eq_some_iff.mp ho
    have hundisturbed {g : Frame} (hg : g ∈ R) := undisturbed_apply hlocks he hg
    refine ⟨fun g hg => ?_, fun api hapi => ?_, started_apply h he, fun hruntime => ?_,
      stopped_apply h he⟩
    · rcases mem_add.mp hg with hnew | hold
      · rcases mem_frames_apply.mp hnew with ⟨ev, -, rfl⟩ | ⟨c, -, rfl⟩ | hframe
        · trivial
        · trivial
        · exact knows_new h hlocks he hframe
      · exact (h.knows g (mem_cons_of_mem hold)).keep (hundisturbed hold)
    · refine (sameDevices_apply e ch.now s).mem.mpr ?_
      rcases (traced_effect he).ctl.deviceAPI with hsame | ⟨api', sw, rfl, hnew⟩
      · exact h.attached api (hsame.symm.trans hapi)
      · obtain rfl : api' = api := Option.some.inj (hnew.symm.trans hapi)
        exact (h.knows _ (mem_cons_self _ _)).2.1
    · refine isSome_bind_apply e ch.now ?_
      rcases (traced_effect he).ctl.runtimeStarted with hsame | ⟨⟨caller, api, cache, rfl⟩, -⟩
      · exact h.installed (hsame.symm.trans hruntime)
      · exact (h.knows _ (mem_cons_self _ _)).2.2.1 cache rfl
  start s F f h _ hf := by
    refine ⟨fun g hg => ?_, h.attached, fun hruntime => ?_, h.installed, h.stopped⟩
    · rcases mem_cons.mp hg with rfl | hold
      · exact knows_entry hf
      · exact h.knows g hold
    · exact (h.started hruntime).imp_right fun ⟨api, hmem⟩ =>
        ⟨api, hmem.imp mem_cons_of_mem mem_cons_of_mem⟩
  env s s' F a h _ ha := by
    obtain ⟨hclient, -, hctl, -, hbind⟩ := envStep ha
    have hclosed : s'.ctl.closed = s.ctl.closed := by rw [hctl]
    have hstarted : s'.ctl.started = s.ctl.started := by rw [hctl]
    have hruntime : s'.ctl.runtimeStarted = s.ctl.runtimeStarted := by rw [hctl]
    have hapi : s'.ctl.deviceAPI = s.ctl.deviceAPI := by rw [hctl]
    have hgen : s'.ctl.deviceGeneration = s.ctl.deviceGeneration := by rw [hctl]
    have hdevices (api : Nat) (hmem : api ∈ s.devices) := env_devices ha hmem
    have husable (hnone : s.usableAPI = none) : s'.usableAPI = none :=
      usableAPI_eq_none.mpr fun api hat =>
        have hat := hapi.symm.trans hat
        (hdevices api (h.attached api hat)).2.1 (usableAPI_eq_none.mp hnone api hat)
    refine ⟨fun g hg => (h.knows g hg).keep ⟨fun _ => ⟨hclosed, hstarted, hruntime, hapi⟩,
      fun _ => hapi, hclosed.trans, fun _ => husable, .inl ⟨hgen, hapi⟩,
      fun api hmem => (hdevices api hmem).1, hbind.trans⟩, fun api hat => ?_, ?_, ?_, ?_⟩
    · exact (hdevices api (h.attached api (hapi.symm.trans hat))).1
    · rw [hruntime, hstarted]
      exact h.started
    · rw [hruntime, hbind]
      exact h.installed
    · rw [hclient, hclosed]
      exact h.stopped

end

theorem lifecycle_initial (opts : Options) (privateKey : Option PrivateKey) :
    Lifecycle (initial opts privateKey).shared (initial opts privateKey).frames where
  knows _ hg := absurd hg (notMem_zero _)
  attached api hapi := by
    cases privateKey with
    | none => cases hapi
    | some privateKey =>
      cases hapi
      exact mem_insert.mpr (.inl rfl)
  started hruntime := absurd hruntime Bool.false_ne_true
  installed hruntime := absurd hruntime Bool.false_ne_true
  stopped hstop := absurd hstop Bool.false_ne_true

end WgoTailscale
