import WgoTailscale.Program

/-!
# Control flow

What a step of the program can be, read from its end: which frame a frame was called from
(`Frame.From`), which frame executes a section (`Section.By`), calls the bind (`BindAct.By`), the
device or the hub, which frames change the flags that outlive a step (`CtlStep`), take or release locks
(`LockStep`) or have to do with the queues of the workers (`Effect.Idle`). The tables are established
together, over all frames (`tabled_effect`), and every invariant of the program is proved from them.
Most steps leave the words alone: one lemma says for all of them that only what they call and do has
to be looked up (`Tabled.quiet`).
-/

namespace WgoTailscale

open Machine

/-! ## Frames of the runtime -/

/-- Sections that only goroutines of the runtime execute. -/
def Section.isRuntime : Section → Bool
  | .applyMapResponse _ | .reportError _ none | .reportError _ (some .degraded)
  | .setInteraction _ _ _ | .setTerminalError _ | .registered _ | .pingAnswered _ => true
  | _ => false

/-- The frames of the goroutines that `launchRuntimeLocked` and `watchDeviceLocked` start. -/
def Frame.isRuntime : Frame → Bool
  | .authenticate _ | .authWait _ | .authFailed _ _ | .awaitDone | .mapLoop | .mapStream
  | .mapEnded _ | .mapWait | .peerReconciler | .healthWorker | .endpointUpdater | .updaterAuth
  | .updaterEndpoints | .updaterRequest _ | .controlPingWorker | .answerPing _ | .unmarkPing _ _
  | .workerDone | .watch _ _ | .watchLock _ | .watching _ => true
  | .sec x => x.isRuntime
  | _ => false

/-- The frames that start goroutines of the runtime. -/
def Frame.Launches (s : Sys) : Frame → Prop
  | .starting (.launch (some _)) => s.ctl.runtimeStarted = true
  | .attaching _ (.release _) => s.ctl.started = true
  | _ => False

/-! ## Where frames come from -/

/-- `f.From s g`: in state `s`, frame `f` may call or spawn `g`. Calls that follow a section are not
listed here: they are part of the section's result. -/
def Frame.From (s : Sys) (f : Frame) : Frame → Prop
  | .publish e => (∃ api, f = .starting (.finish api)) ∧ e.revision = s.client.revision
  | .publishing e _ => f = .publish e ∨ ∃ phase, f = .publishing e phase
  | .closeHub => f = .closing .unstarted ∨ f = .closing .stopped
  | .sec x => x.isRuntime = true ∧ f.isRuntime = true ∨
      (∃ id, f = .confirmPeer id ∧ x = .confirmPeer id) ∨
      ∃ id, f = .revokePeerConfirmation id ∧ x = .revokePeerConfirmation id
  | .call c => c = .signalEndpointUpdate ∨
      c = .reconcilePeers ∧ (f = .peerReconciler ∨ ∃ api sw, f = .attaching api (.release sw))
  | .enqueuePing ping => f = .call (.answerControlPing ping)
  | .reconcileWait api => f = .call .reconcilePeers ∧ s.usableAPI = some api
  | .reconcileSnapshot api => f = .reconcileWait api
  | .reconciling _ => (∃ api, f = .reconcileSnapshot api) ∨ ∃ r, f = .reconciling r
  | .deviceRUnlock => (∃ r, f = .reconciling r) ∨ ∃ r, f = .removingOwned r
  | .cacheUnlock => (∃ id, f = .confirmPeer id) ∨ ∃ id, f = .revokePeerConfirmation id
  | .starting phase => match phase with
    | .begin => f = .start ∧ s.ctl.closed = false ∧ s.ctl.started = false
    | .device => f = .starting .begin
    | .generation api => ∃ cache, f = .initializing .start api (.install cache)
    | .finish none => f = .starting .device ∧ s.usableAPI = none
    | .finish (some api) => f = .starting (.generation api)
    | .launch api => f = .starting (.finish api)
    | .failed => ∃ api phase, f = .initializing .start api phase ∧ ∀ cache, phase ≠ .install cache
  | .initializing caller api phase => match phase with
    | .identity => (caller = .start ∧ f = .starting .device ∧ s.usableAPI = some api) ∨
        (caller = .attach ∧ f = .attaching api .check ∧ s.usableAPI = none ∧
          s.ctl.started = true ∧ s.ctl.runtimeStarted = false)
    | .cache => f = .initializing caller api .identity
    | .transport _ => f = .initializing caller api .cache
    | .install cache => f = .initializing caller api (.transport cache)
  | .close => f = .closeOnCancel
  | .closing phase => match phase with
    | .unstarted => f = .close ∧ s.ctl.started = false
    | .unstartedDone => f = .closing .unstarted
    | .stopping => f = .close ∧ s.ctl.started = true
    | .cancel => f = .closing .stopping
    | .wait => f = .closing .cancel
    | .transport => f = .closing .wait
    | .shutdown => f = .closing .transport
    | .stopped => f = .closing .shutdown
    | .finish => f = .closing .stopped
  | .awaitClosed => f = .close
  | .closeOnCancel => ∃ api, f = .starting (.launch api)
  | .removeOwned => f = .closing .wait
  | .removeOwnedWait api => f = .removeOwned ∧ s.ctl.deviceAPI = api
  | .removeOwnedSnapshot api => f = .removeOwnedWait api
  | .removingOwned _ => (∃ api, f = .removeOwnedSnapshot api) ∨ ∃ r, f = .removingOwned r
  | .attachEnter api => f = .attachDevice api ∧ s.isClosed api = false
  | .attaching api phase => match phase with
    | .check => f = .attachEnter api ∧ s.ctl.closed = false
    | .transport => f = .attaching api .check ∧ s.usableAPI = none ∧
        s.ctl.runtimeStarted = true ∧
        (s.privateKey api).publicNode s.client.opts.packages =
          s.client.nodePrivate.publicNode s.client.opts.packages
    | .clear => f = .attaching api .transport
    | .relock => ∃ cache, f = .initializing .attach api (.install cache)
    | .install false => f = .attaching api .clear ∨ f = .attaching api .check ∧
        s.usableAPI = none ∧ s.ctl.started = false ∧ s.ctl.runtimeStarted = false
    | .install true => f = .attaching api .relock
    | .release sw => f = .attaching api (.install sw)
    | .unlock => (∃ phase, f = .attaching api phase) ∨
        ∃ phase, f = .initializing .attach api phase ∧ ∀ cache, phase ≠ .install cache
  | .watch api generation => generation = s.ctl.deviceGeneration ∧
      (f = .starting (.launch (some api)) ∧ s.ctl.runtimeStarted = true ∨
        (∃ sw, f = .attaching api (.release sw)) ∧ s.ctl.started = true)
  | .watchLock generation => ∃ api, f = .watch api generation ∧ s.isClosed api = true
  | .watching phase => match phase with
    | .clear => f = .watchLock s.ctl.deviceGeneration
    | .report => f = .watching .clear
    | .unlock => f = .watching .report
  | .recordSTUN mapped => ∃ tx, f = .handleSTUN tx mapped
  | .installLocal generation _ => f = .refreshLocal generation
  | .kickDiscovery => f = .bindOpen ∨ ∃ m h rev, f = .call (.updateDERPMap m h rev)
  | .notifyEndpoints => f = .bindOpen ∨ f = .kickDiscovery ∨ (∃ mapped, f = .recordSTUN mapped) ∨
      ∃ generation l, f = .installLocal generation l
  | .deliverEndpoints endpoints number => f = .notifyEndpoints ∧
      number = s.ctl.notified + 1 ∧ ∃ b, s.bind = some b ∧ endpoints = b.currentEndpoints
  | .confirmPeer _ | .revokePeerConfirmation _ | .resumeInteraction _ | .start | .attachDevice _
  | .bindOpen | .handleSTUN _ _ | .refreshLocal _ => False
  -- the other frames are those of the runtime's goroutines
  | _ => f.isRuntime = true ∨ f.Launches s

/-! ## Who executes what -/

/-- `x.By f`: frame `f` executes section `x`. The sections not listed are only executed by frames that
consist of a section. -/
def Section.By (f : Frame) : Section → Prop
  | .onEndpoints endpoints => ∃ number, f = .deliverEndpoints endpoints number
  | .startBegin => f = .starting .begin
  | .startFailed => f = .starting .failed
  | .runtimeInstalled _ cache => ∃ caller api, f = .initializing caller api (.install cache)
  | .closeUnstarted => f = .closing .unstarted
  | .closeStopping => f = .closing .stopping
  | .closeStopped _ => f = .closing .stopped
  | .restoreStateAfterDeviceAttach => ∃ api sw, f = .attaching api (.install sw)
  | .reportClosedDevice => f = .watching .report
  | .clearAppliedDevice => f = .watching .clear ∨ ∃ api, f = .attaching api .clear
  | .resumeInteraction id => f = .resumeInteraction id
  | .recoverStaleDirectPaths _ => f = .healthWorker
  | .setPeerError _ _ | .peerRemoved _ | .peerTakenOver _ | .peerApplied _ _ | .dropUnused _
  | .announcePeers => ∃ r, f = .reconciling r
  | .forgetPeers _ => ∃ r, f = .removingOwned r
  | _ => False

/-- `act.By f`: frame `f` makes the call `act` to the bind. -/
def BindAct.By (f : Frame) : BindAct → Prop
  | .create _ => ∃ caller api cache, f = .initializing caller api (.transport cache)
  | .updatePeer _ => ∃ r, f = .reconciling r
  | .removePeer _ => (∃ r, f = .reconciling r) ∨ ∃ r, f = .removingOwned r
  | .removePeers _ => f = .watching .clear ∨ ∃ api, f = .attaching api .clear
  | .updateDERPMap derpMap selfDERP => ∃ revision, f = .call (.updateDERPMap derpMap selfDERP revision)
  | .openBind .. => f = .bindOpen
  | .shutdown => f = .closing .shutdown
  | .answerSTUN tx => ∃ mapped, f = .handleSTUN tx mapped
  | .recordSTUN mapped _ => f = .recordSTUN mapped
  | .pruneSTUN _ => f = .kickDiscovery
  | .installLocal generation localEndpoints => f = .installLocal generation localEndpoints

/-- The frames that talk to a device about peers. -/
def Frame.isLoop : Frame → Bool
  | .reconciling _ | .removingOwned _ => true
  | _ => false

/-- The frames that change the hub. -/
def Frame.isHub : Frame → Bool
  | .publish _ | .publishing _ _ | .closeHub => true
  | _ => false

/-- What a frame can do to the flags that outlive its step. -/
structure CtlStep (s : Sys) (f : Frame) (ctl : Control) : Prop where
  closed : ctl.closed = s.ctl.closed ∨
    f = .close ∧ s.ctl.lifeMu = false ∧ s.ctl.closed = false ∧ ctl.closed = true
  started : ctl.started = s.ctl.started ∨ (∃ api, f = .starting (.finish api)) ∧ ctl.started = true
  runtimeStarted : ctl.runtimeStarted = s.ctl.runtimeStarted ∨
    (∃ caller api cache, f = .initializing caller api (.install cache)) ∧ ctl.runtimeStarted = true
  deviceAPI : ctl.deviceAPI = s.ctl.deviceAPI ∨
    ∃ api sw, f = .attaching api (.install sw) ∧ ctl.deviceAPI = some api
  deviceGeneration : ctl.deviceGeneration = s.ctl.deviceGeneration ∨
    ((∃ api, f = .starting (.generation api)) ∨ ∃ api sw, f = .attaching api (.install sw)) ∧
      ctl.deviceGeneration = s.ctl.deviceGeneration + 1
  notified : ctl.notified = s.ctl.notified ∨
    f = .notifyEndpoints ∧ ctl.notified = s.ctl.notified + 1
  reconcileWake : ctl.reconcileWake = s.ctl.reconcileWake ∨
    f = .call .requestPeerReconcile ∧ ctl.reconcileWake = true ∨ f = .peerReconciler
  exclusive : (s.ctl.deviceWriter = true → s.ctl.deviceReaders = 0) →
    ctl.deviceWriter = true → ctl.deviceReaders = 0

/-- The flags that `CtlStep` is about. -/
def Control.flags (ctl : Control) :=
  (ctl.closed, ctl.started, ctl.runtimeStarted, ctl.deviceAPI, ctl.deviceGeneration, ctl.notified,
    ctl.reconcileWake)

variable {s : Sys} {f g : Frame} {e : Effect} {r : Reconcile} {api : Nat}

/-- A step that leaves the flags alone. -/
theorem CtlStep.same {ctl : Control} (h : ctl.flags = s.ctl.flags)
    (hexclusive : (s.ctl.deviceWriter = true → s.ctl.deviceReaders = 0) →
      ctl.deviceWriter = true → ctl.deviceReaders = 0) : CtlStep s f ctl := by
  simp only [Control.flags, Prod.mk.injEq] at h
  obtain ⟨hclosed, hstarted, hruntime, hapi, hgeneration, hnotified, hwake⟩ := h
  exact ⟨.inl hclosed, .inl hstarted, .inl hruntime, .inl hapi, .inl hgeneration, .inl hnotified,
    .inl hwake, hexclusive⟩

/-- What a frame can do. -/
structure Traced (s : Sys) (f : Frame) (e : Effect) : Prop where
  calls : ∀ g ∈ e.frames ++ e.spawned.flatten, f.From s g
  sec : ∀ x, e.sec = some x → f = .sec x ∨ x.By f
  bind : ∀ act, e.bind = some act → act.By f
  device : e.device ≠ none → f.isLoop = true
  hub : e.hub ≠ none → f.isHub = true
  ctl : CtlStep s f e.ctl

/-! ## Locks -/

/-- The locks that outlive a step. -/
inductive Lock where
  | life
  | reconcile
  | deviceRead
  | deviceWrite
  | hub
  deriving DecidableEq

/-- The locks a frame holds. -/
def Frame.locks : Frame → List Lock
  | .starting _ | .initializing _ _ _ => [.life]
  | .attaching _ .check | .attaching _ .relock | .attaching _ .unlock => [.life]
  | .attaching _ _ => [.life, .deviceWrite]
  | .closing .unstarted | .closing .unstartedDone | .closing .stopping => [.life]
  | .reconcileWait _ | .deviceRUnlock | .removeOwnedWait _ => [.deviceRead]
  | .reconcileSnapshot _ | .reconciling _ | .removeOwnedSnapshot _ | .removingOwned _ =>
    [.deviceRead, .reconcile]
  | .watching _ => [.deviceWrite]
  | .publishing _ _ => [.hub]
  | _ => []

/-- What the lock words say. -/
def lockLevel (ctl : Control) (hub : Hub) : Lock → Nat
  | .life => ctl.lifeMu.toNat
  | .reconcile => ctl.reconcileMu.toNat
  | .deviceRead => ctl.deviceReaders
  | .deviceWrite => ctl.deviceWriter.toNat
  | .hub => hub.locked.toNat

/-- The locks that the frames of an effect hold. -/
def Effect.held (e : Effect) : List Lock := (e.frames ++ e.spawned.flatten).flatMap Frame.locks

/-- A step keeps its locks, takes one or releases one. -/
inductive LockStep (s : Sys) (f : Frame) (e : Effect) : Prop where
  | keep (hheld : e.held = f.locks)
      (hlevel : lockLevel e.ctl (e.hub.getD s.hub) = lockLevel s.ctl s.hub)
  | take (ℓ : Lock) (hheld : e.held = f.locks ++ [ℓ])
      (hlevel : ∀ k, lockLevel e.ctl (e.hub.getD s.hub) k =
        lockLevel s.ctl s.hub k + if k = ℓ then 1 else 0)
  | release (ℓ : Lock) (hheld : f.locks = e.held ++ [ℓ])
      (hlevel : ∀ k, lockLevel e.ctl (e.hub.getD s.hub) k =
        lockLevel s.ctl s.hub k - if k = ℓ then 1 else 0)

/-- Releasing a mutex leaves its word at zero. -/
theorem toNat_sub_one (b : Bool) : b.toNat - 1 = 0 := Nat.sub_eq_zero_of_le (Bool.toNat_le b)

/-! ## Queues -/

/-- What the workers take their work from, and the last request of the updater. -/
def Control.queues (ctl : Control) :=
  (ctl.pingWake, ctl.pingPending, ctl.endpointWake, ctl.mapUpdate)

/-- The frames that have work of a worker in hand, the updater itself, and the end of the
authentication. -/
def Frame.busy : Frame → Bool
  | .enqueuePing _ | .answerPing _ | .unmarkPing _ _ | .sec (.pingAnswered _) | .endpointUpdater
  | .updaterAuth | .updaterEndpoints | .updaterRequest _ | .sec (.registered _) => true
  | _ => false

/-- The frames that change the queues or call a frame that is busy. -/
def Frame.works : Frame → Bool
  | .call (.answerControlPing _) | .call .signalEndpointUpdate | .enqueuePing _
  | .controlPingWorker | .answerPing _ | .unmarkPing _ _ | .endpointUpdater | .updaterAuth
  | .updaterEndpoints | .updaterRequest _ | .authenticate _ | .starting (.launch (some _))
  | .attaching _ (.release true) => true
  | _ => false

/-- An effect that leaves the queues alone and calls no busy frame. -/
structure Effect.Idle (s : Sys) (e : Effect) : Prop where
  queues : e.ctl.queues = s.ctl.queues
  frames : (e.frames ++ e.spawned.flatten).all (fun g => !g.busy) = true

/-- What a frame can do, all tables together. -/
structure Tabled (s : Sys) (f : Frame) (e : Effect) : Prop extends Traced s f e where
  locks : LockStep s f e
  idle : f.works = false → e.Idle s

/-- What a frame calls, and what it does to the client, the bind, the device and the hub, is in the
tables. -/
def Effect.Listed (s : Sys) (f : Frame) (e : Effect) : Prop :=
  (∀ g ∈ e.frames ++ e.spawned.flatten, f.From s g) ∧ (∀ x, e.sec = some x → f = .sec x ∨ x.By f) ∧
    (∀ act, e.bind = some act → act.By f) ∧ (e.device ≠ none → f.isLoop = true) ∧
    (e.hub ≠ none → f.isHub = true)

/-- Nothing to do with the queues: the frame is one that works, or it leaves them alone. -/
def Effect.Rests (s : Sys) (f : Frame) (e : Effect) : Prop :=
  f.works = true ∨ e.ctl.queues = s.ctl.queues ∧
    (e.frames ++ e.spawned.flatten).all (fun g => !g.busy) = true

theorem Tabled.of (hlisted : e.Listed s f) (ctl : CtlStep s f e.ctl) (locks : LockStep s f e)
    (hrests : e.Rests s f) : Tabled s f e := by
  obtain ⟨hcalls, hsec, hbind, hdevice, hhub⟩ := hlisted
  refine ⟨⟨hcalls, hsec, hbind, hdevice, hhub, ctl⟩, locks, fun hf => ?_⟩
  obtain ⟨hqueues, hframes⟩ := hrests.resolve_left (hf ▸ Bool.false_ne_true)
  exact ⟨hqueues, hframes⟩

/-- A step that keeps its locks and leaves the flags alone. -/
theorem Tabled.quiet (hlisted : e.Listed s f) (hflags : e.ctl.flags = s.ctl.flags)
    (hheld : e.held = f.locks) (hlevel : lockLevel e.ctl (e.hub.getD s.hub) = lockLevel s.ctl s.hub)
    (hrests : e.Rests s f) : Tabled s f e := by
  refine .of hlisted (.same hflags ?_) (.keep hheld hlevel) hrests
  have hreaders : e.ctl.deviceReaders = s.ctl.deviceReaders := congrFun hlevel .deviceRead
  have hwriter : e.ctl.deviceWriter.toNat = s.ctl.deviceWriter.toNat := congrFun hlevel .deviceWrite
  intro hs hw
  rw [hreaders]
  refine hs (Bool.toNat_eq_one.mp ?_)
  rw [← hwriter, hw, Bool.toNat_true]

section
variable {ch : Choice}

theorem goOn_eq {frames : List Frame} (h : goOn s frames = some e) : e = { ctl := s.ctl, frames } :=
  (Option.some.inj h).symm

theorem clearEffect_eq {frames : List Frame} (h : clearEffect ch s frames = some e) :
    s.ctl.reconcileMu = false ∧ s.client.peerLocal.Listing ch.keyOrder ∧
      e = { ctl := s.ctl, sec := some .clearAppliedDevice,
            bind := some (.removePeers ch.keyOrder), frames } := by
  unfold clearEffect at h
  split at h
  · cases h
  · next hfree =>
    split at h
    · next horder => exact ⟨Bool.eq_false_iff.mpr hfree, horder, (Option.some.inj h).symm⟩
    · cases h

attribute [local simp] Effect.Listed Reconcile.goTo RemoveOwned.goTo workers watcher initFailed
  initDone Frame.isLoop Frame.isHub Frame.isRuntime Section.isRuntime Frame.Launches

/-- The steps of `Start`. -/
theorem tabled_startEffect {phase : StartPhase} (h : startEffect s phase = some e) :
    Tabled s (.starting phase) e := by
  revert h
  fun_cases startEffect s phase <;> intro h <;> cases h
  all_goals first
    | refine .quiet ?_ rfl rfl rfl (.inr ⟨rfl, rfl⟩)
    | refine .quiet ?_ rfl rfl rfl (.inl rfl)
    | refine .of ?_ ⟨.inl rfl, .inr ⟨⟨_, rfl⟩, rfl⟩, .inl rfl, .inl rfl, .inl rfl, .inl rfl, .inl rfl,
        id⟩ (.keep rfl rfl) (.inr ⟨rfl, rfl⟩)
    | refine .of ?_ ⟨.inl rfl, .inl rfl, .inl rfl, .inl rfl, .inr ⟨.inl ⟨_, rfl⟩, rfl⟩, .inl rfl,
        .inl rfl, id⟩ (.keep rfl rfl) (.inr ⟨rfl, rfl⟩)
    | refine .of ?_ (.same rfl id) (.release .life rfl fun k => by
        cases k <;> simp [lockLevel, toNat_sub_one]) (.inl rfl)
    | refine .of ?_ (.same rfl id) (.release .life rfl fun k => by
        cases k <;> simp [lockLevel, toNat_sub_one]) (.inr ⟨rfl, rfl⟩)
  all_goals (simp; dsimp only [Frame.From, Section.By] <;> simp [*])

/-- The steps of `initializeRuntime`. -/
theorem tabled_initEffect {caller : InitCaller} {phase : InitPhase}
    (h : initEffect ch s caller api phase = some e) :
    Tabled s (.initializing caller api phase) e := by
  revert h
  fun_cases initEffect ch s caller api phase <;> intro h <;> cases h <;> cases caller
  all_goals first
    | refine .quiet ?_ rfl rfl rfl (.inr ⟨rfl, rfl⟩)
    | refine .of ?_ ⟨.inl rfl, .inl rfl, .inr ⟨⟨_, _, _, rfl⟩, rfl⟩, .inl rfl, .inl rfl, .inl rfl,
        .inl rfl, id⟩ (.keep rfl rfl) (.inr ⟨rfl, rfl⟩)
  all_goals (simp; dsimp only [Frame.From, Section.By, BindAct.By] <;> simp)

/-- The steps of `AttachDevice`. -/
theorem tabled_attachEffect {phase : AttachPhase} (h : attachEffect ch s api phase = some e) :
    Tabled s (.attaching api phase) e := by
  revert h
  fun_cases attachEffect ch s api phase <;> intro h
  all_goals first
    | cases h
    | obtain ⟨-, -, rfl⟩ := clearEffect_eq h
  all_goals first
    | refine .quiet ?_ rfl rfl rfl (.inr ⟨rfl, rfl⟩)
    | refine .of ?_ ⟨.inl rfl, .inl rfl, .inl rfl, .inr ⟨_, _, rfl, rfl⟩,
        .inr ⟨.inr ⟨_, _, rfl⟩, rfl⟩, .inl rfl, .inl rfl, id⟩ (.keep rfl rfl) (.inr ⟨rfl, rfl⟩)
    | refine .of ?_ (.same rfl fun _ _ => ‹s.ctl.deviceFree›.right) (.take .deviceWrite rfl fun k => by
        cases k <;> simp_all [lockLevel, Control.deviceFree]) (.inr ⟨rfl, rfl⟩)
    | refine .of ?_ (.same rfl fun _ hw => absurd hw Bool.false_ne_true) (.release .deviceWrite rfl
        fun k => by cases k <;> simp [lockLevel, toNat_sub_one]) (.inr ⟨rfl, rfl⟩)
    | refine .of ?_ (.same rfl fun _ hw => absurd hw Bool.false_ne_true) (.release .deviceWrite rfl
        fun k => by cases k <;> simp [lockLevel, toNat_sub_one]) (.inl rfl)
    | refine .of ?_ (.same rfl id) (.release .life rfl fun k => by
        cases k <;> simp [lockLevel, toNat_sub_one]) (.inr ⟨rfl, rfl⟩)
  all_goals simp <;> dsimp only [Frame.From, Section.By, BindAct.By] <;> simp_all

/-- Publishing takes the lock of the hub, and gives it back at its end. -/
theorem tabled_publishEffect {ev : Event} (h : publishEffect ch s ev = some e) :
    Tabled s (.publish ev) e := by
  revert h
  fun_cases publishEffect ch s ev <;> intro h <;> cases h
  · next hnone =>
    obtain rfl := Hub.publishBegin_none hnone
    refine .quiet ?_ rfl rfl rfl (.inr ⟨rfl, rfl⟩)
    simp
  · next hsome =>
    obtain ⟨hfree, htaken⟩ := Hub.locked_publishBegin hsome
    refine .of ?_ (.same rfl id) (.take .hub rfl fun k => by
      cases k <;> simp [lockLevel, hfree, htaken]) (.inr ⟨rfl, rfl⟩)
    simp [Frame.From]

theorem tabled_publishingEffect {ev : Event} {phase : PublishPhase}
    (h : publishingEffect s ev phase = some e) : Tabled s (.publishing ev phase) e := by
  revert h
  fun_cases publishingEffect s ev phase <;> intro h <;> cases h
  · next hnone =>
    refine .of ?_ (.same rfl id) (.release .hub rfl fun k => by
      cases k <;> simp [lockLevel, toNat_sub_one, Hub.locked_publishStep_none hnone])
      (.inr ⟨rfl, rfl⟩)
    simp
  · next hsome =>
    refine .quiet ?_ rfl rfl ?_ (.inr ⟨rfl, rfl⟩)
    · simp [Frame.From]
    · funext k
      cases k <;> simp [lockLevel, Hub.locked_publishStep_some hsome]

/-- Every step is in the tables. -/
theorem tabled_effect (h : effect ch s f = some e) : Tabled s f e := by
  revert h
  fun_cases effect ch s f
  -- the functions that change one of the words at most
  all_goals try first
    | fun_cases reconcileEffect
    | fun_cases removeOwnedEffect
    | fun_cases watchEffect
    | fun_cases closeEffect
    | fun_cases callEffect
    | fun_cases authenticateEffect
    | fun_cases mapStreamEffect
    | fun_cases healthEffect
    | fun_cases enqueuePingEffect
    | fun_cases kickEffect
    | fun_cases notifyEffect
    | fun_cases openEffect
    | fun_cases handleSTUNEffect
    | fun_cases refreshEffect
  all_goals intro h
  all_goals with_reducible first
    | cases h
    | obtain rfl := goOn_eq h; clear h
    | obtain ⟨-, -, rfl⟩ := clearEffect_eq h
    | exact tabled_startEffect h
    | exact tabled_initEffect h
    | exact tabled_attachEffect h
    | exact tabled_publishEffect h
    | exact tabled_publishingEffect h
  all_goals first
    | refine .quiet ?_ rfl rfl rfl (.inr ⟨rfl, rfl⟩)
    | refine .quiet ?_ rfl rfl rfl (.inl rfl)
    -- the locks
    | refine .of ?_ (.same rfl id) (.take .life rfl fun k => by cases k <;> simp_all [lockLevel])
        (.inr ⟨rfl, rfl⟩)
    | refine .of ?_ (.same rfl id) (.release .life rfl fun k => by
        cases k <;> simp [lockLevel, toNat_sub_one]) (.inr ⟨rfl, rfl⟩)
    | refine .of ?_ (.same rfl id) (.take .reconcile rfl fun k => by cases k <;> simp_all [lockLevel])
        (.inr ⟨rfl, rfl⟩)
    | refine .of ?_ (.same rfl id) (.release .reconcile rfl fun k => by
        cases k <;> simp [lockLevel, toNat_sub_one]) (.inr ⟨rfl, rfl⟩)
    | refine .of ?_ (.same rfl fun _ hw => absurd hw ‹_›) (.take .deviceRead rfl fun k => by
        cases k <;> simp [lockLevel]) (.inr ⟨rfl, rfl⟩)
    | refine .of ?_ (.same rfl fun hs hw => Nat.sub_eq_zero_of_le ((hs hw).trans_le (Nat.zero_le 1)))
        (.release .deviceRead rfl fun k => by cases k <;> simp [lockLevel]) (.inr ⟨rfl, rfl⟩)
    | refine .of ?_ (.same rfl fun _ _ => ‹s.ctl.deviceFree›.right) (.take .deviceWrite rfl fun k => by
        cases k <;> simp_all [lockLevel, Control.deviceFree]) (.inr ⟨rfl, rfl⟩)
    | refine .of ?_ (.same rfl fun _ hw => absurd hw Bool.false_ne_true) (.release .deviceWrite rfl
        fun k => by cases k <;> simp [lockLevel, toNat_sub_one]) (.inr ⟨rfl, rfl⟩)
    | refine .quiet ?_ rfl rfl (by funext k; cases k <;> simp [lockLevel, (Hub.quiet_close ‹_›).locked])
        (.inr ⟨rfl, rfl⟩)
    -- the flags
    | refine .of ?_ ⟨.inr ⟨rfl, by simpa using ‹¬ s.ctl.lifeMu = true›,
        by simpa using ‹¬ s.ctl.closed = true›, rfl⟩, .inl rfl, .inl rfl, .inl rfl, .inl rfl, .inl rfl,
        .inl rfl, id⟩ (.take .life rfl fun k => by cases k <;> simp_all [lockLevel]) (.inr ⟨rfl, rfl⟩)
    | refine .of ?_ ⟨.inl rfl, .inl rfl, .inl rfl, .inl rfl, .inl rfl, .inr ⟨rfl, rfl⟩, .inl rfl, id⟩
        (.keep rfl rfl) (.inr ⟨rfl, rfl⟩)
    | refine .of ?_ ⟨.inl rfl, .inl rfl, .inl rfl, .inl rfl, .inl rfl, .inl rfl,
        .inr (.inl ⟨rfl, rfl⟩), id⟩ (.keep rfl rfl) (.inr ⟨rfl, rfl⟩)
    | refine .of ?_ ⟨.inl rfl, .inl rfl, .inl rfl, .inl rfl, .inl rfl, .inl rfl, .inr (.inr rfl), id⟩
        (.keep rfl rfl) (.inr ⟨rfl, rfl⟩)
  all_goals simp <;> dsimp only [Frame.From, Section.By, BindAct.By] <;> simp_all

/-- Every step is in the table of calls. -/
theorem traced_effect (h : effect ch s f = some e) : Traced s f e :=
  (tabled_effect h).toTraced

end

/-! ## The loops -/

section
variable {ch : Choice}

/-- The loops of `reconcilePeers` keep its snapshot. -/
theorem reconcile_frames (h : reconcileEffect ch s r = some e)
    (hg : g ∈ e.frames ++ e.spawned.flatten) : g = .deviceRUnlock ∨ ∃ r', g = .reconciling r' ∧
      r'.api = r.api ∧ r'.desired = r.desired ∧ r'.applied = r.applied := by
  revert h
  fun_cases reconcileEffect ch s r <;> intro h <;> cases h <;> simp only [Reconcile.goTo,
    List.flatten_nil, List.append_nil, List.mem_singleton] at hg <;> subst hg
  all_goals first
    | exact .inl rfl
    | exact .inr ⟨_, rfl, rfl, rfl, rfl⟩

/-- The loop of `removeOwnedPeers` keeps its snapshot. -/
theorem removeOwned_frames {r : RemoveOwned} (h : removeOwnedEffect ch s r = some e)
    (hg : g ∈ e.frames ++ e.spawned.flatten) : g = .deviceRUnlock ∨ ∃ r', g = .removingOwned r' ∧
      r'.api = r.api ∧ r'.applied = r.applied ∧ r'.keys = r.keys := by
  revert h
  fun_cases removeOwnedEffect ch s r <;> intro h <;> cases h <;> simp only [RemoveOwned.goTo,
    List.flatten_nil, List.append_nil, List.mem_singleton] at hg <;> subst hg
  all_goals first
    | exact .inl rfl
    | exact .inr ⟨_, rfl, rfl, rfl, rfl⟩

/-- `reconcilePeers` starts with the snapshot it takes. -/
theorem reconcile_snapshot (h : effect ch s (.reconcileSnapshot api) = some e)
    (hr : .reconciling r ∈ e.frames ++ e.spawned.flatten) :
    s.client.peers.Listing ch.nodeOrder ∧ s.client.applied.Listing ch.keyOrder ∧
      r = { api, desired := s.client.desired ch.nodeOrder, applied := s.client.applied
            phase := .removeNext ch.keyOrder } := by
  dsimp only [effect] at h
  split at h
  · next horder =>
    cases h
    simp only [List.flatten_nil, List.append_nil, List.mem_singleton, Frame.reconciling.injEq] at hr
    exact ⟨horder.1, horder.2, hr⟩
  · cases h

/-- `removeOwnedPeers` starts with the snapshot it takes. -/
theorem removeOwned_snapshot {api : Option Nat} {r : RemoveOwned}
    (h : effect ch s (.removeOwnedSnapshot api) = some e)
    (hr : .removingOwned r ∈ e.frames ++ e.spawned.flatten) :
    s.client.applied.Listing ch.keyOrder ∧
      r = { api, applied := s.client.applied, keys := ch.keyOrder, phase := .next ch.keyOrder } := by
  dsimp only [effect] at h
  split at h
  · next horder =>
    cases h
    simp only [List.flatten_nil, List.append_nil, List.mem_singleton, Frame.removingOwned.injEq]
      at hr
    exact ⟨horder, hr⟩
  · cases h

end

/-! ## The frames after a step -/

/-- What a step adds: the events and calls of its section, and its own frames. -/
theorem mem_frames_apply {now : Time} :
    g ∈ (e.apply now s).frames ↔ (∃ ev ∈ (e.done now s.client).events, g = .publish ev) ∨
      (∃ c ∈ (e.done now s.client).calls, g = .call c) ∨ g ∈ e.frames ++ e.spawned.flatten := by
  simp only [Outcome.frames, Effect.apply, Multiset.mem_add, Multiset.mem_coe, List.mem_append,
    List.mem_map, or_assoc, eq_comm]

/-- Where the events and calls of a section weigh nothing, a step adds what its own frames weigh. -/
theorem weight_apply {weight : Frame → Nat} (hpublish : ∀ ev, weight (.publish ev) = 0)
    (hcall : ∀ c, weight (.call c) = 0) (e : Effect) (now : Time) (s : Sys) :
    Outcome.weight weight (e.apply now s) =
      ((e.frames ++ e.spawned.flatten).map weight).sum := by
  have hpublish : ∀ l : List Event, (l.map fun ev => weight (.publish ev)).sum = 0 :=
    fun l => List.sum_eq_zero (by simp [hpublish])
  have hcall : ∀ l : List Call, (l.map fun c => weight (.call c)).sum = 0 :=
    fun l => List.sum_eq_zero (by simp [hcall])
  simp only [Outcome.weight, Effect.apply, List.map_append, List.sum_append,
    List.map_map, Function.comp_def, hpublish, hcall, Nat.zero_add]

/-- The frames that no section leaves to do. -/
def Frame.isOwn : Frame → Bool
  | .publish _ | .call _ => false
  | _ => true

/-- A frame that is there after a step was there before or is in the table. -/
theorem mem_or_from {ch : Choice} {R : Multiset Frame} (h : effect ch s f = some e)
    (hg : g ∈ (e.apply ch.now s).frames + R) (hown : g.isOwn = true) : g ∈ R ∨ f.From s g := by
  rcases Multiset.mem_add.mp hg with hnew | hold
  · refine .inr ?_
    rcases mem_frames_apply.mp hnew with ⟨ev, -, rfl⟩ | ⟨c, -, rfl⟩ | hframe
    · cases hown
    · cases hown
    · exact (traced_effect h).calls g hframe
  · exact .inl hold

/-- An effect has a section or leaves the client alone. -/
theorem done_cases (e : Effect) (now : Time) (c : Client) :
    (e.sec = none ∧ e.done now c = { client := c }) ∨
      ∃ x, e.sec = some x ∧ e.done now c = x.run c now := by
  unfold Effect.done
  cases e.sec with
  | none => exact .inl ⟨rfl, rfl⟩
  | some x => exact .inr ⟨x, rfl, rfl⟩

/-! ## The environment -/

/-- What the environment leaves alone. -/
structure EnvStep (s s' : Sys) : Prop where
  client : s'.client = s.client
  calls : s'.calls = s.calls
  ctl : s'.ctl = { s.ctl with ctx := s'.ctl.ctx }
  hub : s.hub.Quiet s'.hub
  bind : s'.bind.isSome = s.bind.isSome

theorem envStep {a : EnvAct} {s' : Sys} (h : environment a s = some s') : EnvStep s s' := by
  revert h
  fun_cases environment a s <;> intro h <;> cases h
  case case17 hs => exact ⟨rfl, rfl, rfl, Hub.quiet_subscribe hs, rfl⟩
  case case19 hs => exact ⟨rfl, rfl, rfl, Hub.quiet_unsubscribe hs, rfl⟩
  case case21 hs => exact ⟨rfl, rfl, rfl, Hub.quiet_receive hs, rfl⟩
  case case11 hb _ _ _ => exact ⟨rfl, rfl, rfl, .refl _, by rw [hb]; rfl⟩
  case case14 hb _ => exact ⟨rfl, rfl, rfl, .refl _, by rw [hb]; rfl⟩
  all_goals exact ⟨rfl, rfl, rfl, .refl _, rfl⟩

/-! ## The client -/

/-- What the sections that a policy admits keep of the client, its runs keep. -/
theorem keeps_sections {I : Client → Prop} {p : Policy Sys Frame Choice EnvAct}
    (hI : ∀ s f R ch e x, p.run s f R ch → effect ch s f = some e → e.sec = some x → I s.client →
      I (x.run s.client ch.now).client) : program.Keeps p fun s _ => I s.client where
  run s f R ch o h hp ho := by
    obtain ⟨e, he, rfl⟩ := Option.map_eq_some_iff.mp ho
    show I (e.done ch.now s.client).client
    rcases done_cases e ch.now s.client with ⟨-, hdone⟩ | ⟨x, hx, hdone⟩
    · rw [hdone]
      exact h
    · rw [hdone]
      exact hI s f R ch e x hp he hx h
  start s F f h _ _ := h
  env s s' F a h _ ha := by
    rw [(envStep ha).client]
    exact h

/-- What every section keeps of the client, every run keeps. -/
theorem keeps_client {I : Client → Prop} (hI : ∀ c now x, I c → I (Section.run c now x).client)
    (p : Policy Sys Frame Choice EnvAct) : program.Keeps p fun s _ => I s.client :=
  keeps_sections fun _ _ _ _ _ _ _ _ _ h => hI _ _ _ h

end WgoTailscale
