import WgoTailscale.Lifecycle

/-!
# The client before its runtime is launched

Until the goroutines of the runtime are launched, the client has received nothing from control and has
published nothing, and a `reconcilePeers` that runs has nothing to do (`Dormant`, `keeps_dormant`). So
whatever the bind and the client have to agree on holds when the bind is created.

`Orderly` collects this with what is known of the locks and of the flags.
-/

namespace WgoTailscale

open Multiset

/-! ## The client before the launch -/

/-- The client has received nothing and published nothing. -/
structure Dormant (c : Client) : Prop where
  peers : c.peers = ∅
  applied : c.applied = ∅
  peerLocal : c.peerLocal = ∅
  self : c.self = none
  dns : c.dns = none
  derpMap : c.derpMap = none
  derpLatency : c.derpLatency = ∅
  preferredDERP : c.preferredDERP = 0

/-- The frames between the installation of the runtime and the launch of its goroutines. -/
def Frame.preLaunch : Frame → Bool
  | .starting (.generation _) | .starting (.finish (some _)) | .starting (.launch (some _))
  | .attaching _ .relock | .attaching _ (.install true) | .attaching _ (.release true) => true
  | _ => false

/-- `reconcilePeers` with nothing to do. -/
structure Reconcile.Idle (r : Reconcile) : Prop where
  desired : r.desired = ∅
  applied : r.applied = ∅
  changed : r.changed = false
  phase : match r.phase with
    | .removeNext [] | .upsertBegin | .upsertNext [] | .dropUnused | .announce | .unlock => True
    | _ => False

/-- `removeOwnedPeers` with nothing to do. -/
structure RemoveOwned.Idle (r : RemoveOwned) : Prop where
  keys : r.keys = []
  phase : match r.phase with
    | .next [] | .commit | .unlock => True
    | _ => False

/-- The frames that there are before the launch. -/
def Frame.Sleeps : Frame → Prop
  | .call (.updateDERPMap _ _ _) => False
  | .reconciling r => r.Idle
  | .removingOwned r => r.Idle
  | f => f.isRuntime = false

/-- Was the runtime not launched yet? -/
def Asleep (s : Sys) (F : Multiset Frame) : Prop :=
  s.ctl.runtimeStarted = false ∨ ∃ g ∈ F, g.preLaunch = true

/-- Before the launch, the client is dormant. -/
def SleepsSound (s : Sys) (F : Multiset Frame) : Prop :=
  Asleep s F → Dormant s.client ∧ ∀ g ∈ F, g.Sleeps

section
variable {c : Client} {now : Time}

/-- The sections that run before the launch. -/
def Section.early : Section → Bool
  | .confirmPeer _ | .revokePeerConfirmation _ | .onPath _ | .onDERPLatency _ | .onEndpoints _
  | .startBegin | .startFailed | .runtimeInstalled _ _ | .closeUnstarted | .closeStopping
  | .closeStopped _ | .restoreStateAfterDeviceAttach | .resumeInteraction _ | .dropUnused _
  | .forgetPeers _ => true
  | _ => false

/-- Without a DERP map no measurement counts. -/
theorem foldl_recordLatency_none (l : List DERPRegionLatency)
    (acc : FinMap Int DERPRegionLatency × Bool) : l.foldl (Client.recordLatency none) acc = acc := by
  induction l with
  | nil => rfl
  | cons metric l ih =>
    rw [List.foldl_cons, Client.recordLatency, if_pos (.inr (.inr rfl)), ih]

theorem Dormant.onDERPLatency (h : Dormant c) (report : DERPLatencyReport) :
    c.onDERPLatency report now = { client := c } := by
  unfold Client.onDERPLatency
  split
  · rfl
  have hpreferred (measured : FinMap Int DERPRegionLatency) :
      choosePreferredDERPMeasured none 0 measured = 0 := rfl
  have hstart : (if report.full = true ∧ c.derpLatency.keys ≠ ∅ then
      ((∅ : FinMap Int DERPRegionLatency), true) else (c.derpLatency, false)) =
        (c.derpLatency, false) := by
    rw [if_neg]
    rintro ⟨-, hne⟩
    exact hne (by rw [h.derpLatency]; rfl)
  simp only [hstart, h.derpMap, h.preferredDERP, foldl_recordLatency_none, hpreferred, ite_self,
    ne_eq, not_true_eq_false, Bool.false_eq_true, or_self, not_false_eq_true, if_true, if_false]
  rw [← h.preferredDERP, ← h.derpMap]

/-- The sections that run before the launch leave the client dormant and hand the bind nothing. -/
theorem Dormant.run (h : Dormant c) {x : Section} (hx : x.early = true) :
    Dormant (x.run c now).client ∧ ∀ m home rev, .updateDERPMap m home rev ∉ (x.run c now).calls := by
  have hsame {d : Done} (hclient : d.client = c) (hcalls : d.calls = []) :
      Dormant d.client ∧ ∀ m home rev, .updateDERPMap m home rev ∉ d.calls := by
    rw [hclient, hcalls]
    exact ⟨h, by simp⟩
  cases x with
  | onDERPLatency report =>
    have heq : c.onDERPLatency report now = { client := c } := h.onDERPLatency report
    exact hsame (congrArg Done.client heq) (congrArg Done.calls heq)
  | onPath update =>
    have hknown : ((c.peerLocal.get update.nodeKey).isSome ||
        c.peers.any fun _ peer => peer.key = update.nodeKey) = false := by
      rw [h.peerLocal, h.peers]
      rfl
    have heq : c.onPath update now = { client := c } := by
      exact if_pos (.inr hknown)
    exact hsame (congrArg Done.client heq) (congrArg Done.calls heq)
  | confirmPeer id =>
    have heq : c.confirmPeer id now = { client := c } := by
      unfold Client.confirmPeer
      split
      · rfl
      · exact if_neg (by rw [h.peers]; exact Bool.false_ne_true)
    exact hsame (congrArg Done.client heq) (congrArg Done.calls heq)
  | dropUnused desired =>
    refine ⟨⟨h.peers, h.applied, ?_, h.self, h.dns, h.derpMap, h.derpLatency, h.preferredDERP⟩,
      by simp [Section.run, Client.dropUnused]⟩
    show c.peerLocal.filter _ = ∅
    rw [h.peerLocal]
    rfl
  | forgetPeers keys =>
    refine ⟨⟨h.peers, ?_, ?_, h.self, h.dns, h.derpMap, h.derpLatency, h.preferredDERP⟩,
      by simp [Section.run, Client.forgetPeers]⟩
    · show c.applied.eraseAll keys = ∅
      exact FinMap.ext_get fun k => by rw [FinMap.get_eraseAll, h.applied]; simp
    · show c.peerLocal.eraseAll keys = ∅
      exact FinMap.ext_get fun k => by rw [FinMap.get_eraseAll, h.peerLocal]; simp
  | _ =>
    first
    | cases hx; done
    | dsimp only [Section.run, Client.revokePeerConfirmation,
      Client.confirmationChanged, Client.syncConfirmedCache, Client.onEndpoints,
      Client.resumeInteraction, Client.restoreStateAfterDeviceAttach,
      Client.startBegin, Client.startFailed, Client.runtimeInstalled, Client.closeUnstarted,
      Client.closeStopping, Client.closeStopped, Client.bump]
      repeat' split
      all_goals exact ⟨⟨h.peers, h.applied, h.peerLocal, h.self, h.dns, h.derpMap, h.derpLatency,
        h.preferredDERP⟩, by simp⟩

end

section
variable {ch : Choice} {s : Sys} {f g : Frame} {e : Effect} {R : Multiset Frame}

theorem Frame.Sleeps.isRuntime (h : f.Sleeps) : f.isRuntime = false := by
  cases f with
  | reconciling | removingOwned | call => rfl
  | _ => exact h

theorem life_of_preLaunch (h : g.preLaunch = true) : .life ∈ g.locks := by
  cases g with
  | starting phase => exact List.mem_cons_self
  | attaching api phase => cases phase <;> exact List.mem_cons_self
  | _ => cases h

/-- While another frame holds `lifeMu`, only a runtime that is not installed is asleep. -/
theorem Asleep.of_life (h : Asleep s (f ::ₘ R)) (hlocks : LocksHeld s (f ::ₘ R))
    (hlife : .life ∈ f.locks) (hf : f.preLaunch = false) : s.ctl.runtimeStarted = false := by
  rcases h with hruntime | ⟨g, hg, hpre⟩
  · exact hruntime
  · rcases mem_cons.mp hg with rfl | hR
    · rw [hf] at hpre
      cases hpre
    · exact absurd (life_of_preLaunch hpre) (hlocks.alone (by simp) hlife hR)

/-- The frames before the launch come from the installation of the runtime and from each other. -/
theorem preLaunch_from (hfrom : f.From s g) (hpre : g.preLaunch = true) :
    (∃ caller api cache, f = .initializing caller api (.install cache)) ∨
      f.preLaunch = true ∧ ¬ f.Launches s := by
  cases g with
  | starting phase =>
    cases phase with
    | generation api =>
      obtain ⟨cache, rfl⟩ := hfrom
      exact .inl ⟨_, _, _, rfl⟩
    | finish api | launch api =>
      cases api with
      | none => cases hpre
      | some api =>
        obtain rfl : f = _ := hfrom
        exact .inr ⟨rfl, id⟩
    | _ => cases hpre
  | attaching api phase =>
    cases phase with
    | relock =>
      obtain ⟨cache, rfl⟩ := hfrom
      exact .inl ⟨_, _, _, rfl⟩
    | install startWorkers | release startWorkers =>
      cases startWorkers with
      | false => cases hpre
      | true =>
        obtain rfl : f = _ := hfrom
        exact .inr ⟨rfl, id⟩
    | _ => cases hpre
  | _ => cases hpre

theorem isOwn_of_preLaunch (h : g.preLaunch = true) : g.isOwn = true := by
  cases g with
  | publish | call => cases h
  | _ => rfl

/-- The launch is not undone. -/
theorem Asleep.back (h : Asleep (e.apply ch.now s).state ((e.apply ch.now s).frames + R))
    (hlife : Lifecycle s (f ::ₘ R)) (he : effect ch s f = some e) : Asleep s (f ::ₘ R) := by
  rcases h with hruntime | ⟨g, hg, hpre⟩
  · rcases (traced_effect he).ctl.runtimeStarted with hsame | ⟨-, htrue⟩
    · exact .inl (hsame.symm.trans hruntime)
    · exact absurd (htrue.symm.trans hruntime) (by simp)
  rcases mem_or_from he hg (isOwn_of_preLaunch hpre) with hR | hfrom
  · exact .inr ⟨g, mem_cons_of_mem hR, hpre⟩
  rcases preLaunch_from hfrom hpre with ⟨caller, api, cache, rfl⟩ | ⟨hf, -⟩
  · exact .inl (hlife.knows _ (mem_cons_self _ _)).2.1
  · exact .inr ⟨f, mem_cons_self _ _, hf⟩

/-- The launch ends the sleep. -/
theorem Asleep.not_launches
    (h : Asleep (e.apply ch.now s).state ((e.apply ch.now s).frames + R))
    (hlife : Lifecycle s (f ::ₘ R)) (hlocks : LocksHeld s (f ::ₘ R))
    (he : effect ch s f = some e) : ¬ f.Launches s := by
  intro hlaunch
  have hf := hlife.knows f (mem_cons_self _ _)
  -- whoever launches holds `lifeMu` and finds the runtime installed
  have hheld : .life ∈ f.locks ∧ s.ctl.runtimeStarted = true := by
    cases f with
    | starting phase =>
      cases phase with
      | launch api =>
        cases api with
        | none => exact hlaunch.elim
        | some api => exact ⟨List.mem_cons_self, hf.2.2.1⟩
      | _ => exact hlaunch.elim
    | attaching api phase =>
      cases phase with
      | release startWorkers =>
        cases startWorkers with
        | true => exact ⟨List.mem_cons_self, hf.2.2.2.1⟩
        | false => exact ⟨List.mem_cons_self, hf.2.2.1 hlaunch⟩
      | _ => exact hlaunch.elim
    | _ => exact hlaunch.elim
  rcases h with hruntime | ⟨g, hg, hpre⟩
  · rcases (traced_effect he).ctl.runtimeStarted with hsame | ⟨-, htrue⟩
    · exact absurd ((hheld.2.symm.trans hsame.symm).trans hruntime) (by simp)
    · exact absurd (htrue.symm.trans hruntime) (by simp)
  rcases mem_or_from he hg (isOwn_of_preLaunch hpre) with hR | hfrom
  · exact hlocks.alone (by simp) hheld.1 hR (life_of_preLaunch hpre)
  rcases preLaunch_from hfrom hpre with ⟨caller, api, cache, rfl⟩ | ⟨-, hnot⟩
  · exact hlaunch
  · exact hnot hlaunch

/-- An effect as there is before the launch. -/
def Effect.Sleeps (e : Effect) : Prop :=
  (∀ x, e.sec = some x → x.early = true) ∧ ∀ g ∈ e.frames ++ e.spawned.flatten, g.Sleeps

theorem Effect.sleeps_of {ctl : Control} (hg : g.Sleeps) : Effect.Sleeps { ctl, frames := [g] } :=
  ⟨by simp, List.forall_mem_singleton.mpr hg⟩

theorem Effect.sleeps_sec {ctl : Control} {x : Section} (hx : x.early = true) (hg : g.Sleeps) :
    Effect.Sleeps { ctl, sec := some x, frames := [g] } :=
  ⟨fun _ heq => Option.some.inj heq ▸ hx, List.forall_mem_singleton.mpr hg⟩

/-- `reconcilePeers` with nothing to do does nothing. -/
theorem Reconcile.Idle.effect {r : Reconcile} (hr : r.Idle) (h : reconcileEffect ch s r = some e) :
    e.Sleeps := by
  obtain ⟨api, desired, applied, changed, phase⟩ := r
  obtain ⟨rfl, rfl, rfl, hphase⟩ := hr
  have hidle {phase : ReconcilePhase} (hphase : match phase with
        | .removeNext [] | .upsertBegin | .upsertNext [] | .dropUnused | .announce | .unlock => True
        | _ => False) : Frame.Sleeps (.reconciling { api, desired := ∅, applied := ∅, phase }) :=
    show Reconcile.Idle _ from ⟨rfl, rfl, rfl, hphase⟩
  cases phase with
  | removeNext keys | upsertNext keys =>
    cases keys with
    | nil => exact goOn_eq h ▸ Effect.sleeps_of (hidle trivial)
    | cons key keys => exact hphase.elim
  | upsertBegin =>
    dsimp only [reconcileEffect] at h
    split at h
    · next horder =>
      rw [horder.eq_nil] at h
      exact goOn_eq h ▸ Effect.sleeps_of (hidle trivial)
    · cases h
  | dropUnused =>
    cases h
    exact Effect.sleeps_sec rfl (hidle trivial)
  | announce => exact goOn_eq h ▸ Effect.sleeps_of (hidle trivial)
  | unlock =>
    cases h
    exact Effect.sleeps_of rfl
  | _ => exact hphase.elim

/-- `removeOwnedPeers` with nothing to do does nothing. -/
theorem RemoveOwned.Idle.effect {r : RemoveOwned} (hr : r.Idle)
    (h : removeOwnedEffect ch s r = some e) : e.Sleeps := by
  obtain ⟨api, applied, keys, phase⟩ := r
  obtain ⟨rfl, hphase⟩ := hr
  cases phase with
  | next keys =>
    cases keys with
    | nil => exact goOn_eq h ▸ Effect.sleeps_of (show RemoveOwned.Idle _ from ⟨rfl, trivial⟩)
    | cons key keys => exact hphase.elim
  | commit =>
    cases h
    exact Effect.sleeps_sec rfl (show RemoveOwned.Idle _ from ⟨rfl, trivial⟩)
  | unlock =>
    cases h
    exact Effect.sleeps_of rfl
  | _ => exact hphase.elim

/-- Before the launch only early sections run. -/
theorem early_of_asleep {x : Section} (h : Asleep s (f ::ₘ R)) (hsleeps : f.Sleeps)
    (hlife : Lifecycle s (f ::ₘ R)) (hlocks : LocksHeld s (f ::ₘ R))
    (he : effect ch s f = some e) (hx : e.sec = some x) : x.early = true := by
  have hf := hlife.knows f (mem_cons_self _ _)
  have hruntime := hsleeps.isRuntime
  rcases (traced_effect he).sec x hx with rfl | hby
  · have hcalled : x.isCalled = true := hf
    unfold Section.isCalled at hcalled
    split at hcalled
    · rfl
    · rfl
    · rfl
    · rfl
    · rw [show x.isRuntime = false from hruntime] at hcalled
      cases hcalled
  have hloop {r : Reconcile} (hr : f = .reconciling r) : x.early = true := by
    subst hr
    exact (hsleeps.effect he).1 x hx
  cases x with
  | clearAppliedDevice =>
    rcases hby with rfl | ⟨api, rfl⟩
    · cases hruntime
    · have hnot := h.of_life hlocks List.mem_cons_self rfl
      rw [hf.2.2.1] at hnot
      cases hnot
  | reportClosedDevice | recoverStaleDirectPaths =>
    obtain rfl : f = _ := hby
    cases hruntime
  | setPeerError | peerRemoved | peerTakenOver | peerApplied | announcePeers =>
    obtain ⟨r, hr⟩ := hby
    exact hloop hr
  | _ =>
    first
    | rfl
    | exact hby.elim

/-- Before the launch the frames that a step adds sleep. -/
theorem sleeps_new (hdormant : Dormant s.client) (hsleeps : f.Sleeps) (hlaunch : ¬ f.Launches s)
    (he : effect ch s f = some e) (hg : g ∈ e.frames ++ e.spawned.flatten) : g.Sleeps := by
  have hfrom := (traced_effect he).calls g hg
  have hruntime := hsleeps.isRuntime
  have hworker (h : f.isRuntime = true ∨ f.Launches s) : g.Sleeps := by
    rcases h with hr | hl
    · rw [hruntime] at hr
      cases hr
    · exact absurd hl hlaunch
  cases g with
  | call c =>
    rcases hfrom with rfl | ⟨rfl, -⟩
    · rfl
    · rfl
  | reconciling r =>
    rcases hfrom with ⟨api, rfl⟩ | ⟨r', rfl⟩
    · obtain ⟨hnodes, hkeys, rfl⟩ := reconcile_snapshot he hg
      rw [hdormant.peers] at hnodes
      rw [hdormant.applied] at hkeys
      refine ⟨?_, hdormant.applied, rfl, ?_⟩
      · rw [hnodes.eq_nil]
        rfl
      · rw [hkeys.eq_nil]
        trivial
    · exact (hsleeps.effect he).2 _ hg
  | removingOwned r =>
    rcases hfrom with ⟨api, rfl⟩ | ⟨r', rfl⟩
    · obtain ⟨hkeys, rfl⟩ := removeOwned_snapshot he hg
      rw [hdormant.applied] at hkeys
      refine ⟨hkeys.eq_nil, ?_⟩
      rw [hkeys.eq_nil]
      trivial
    · exact (hsleeps.effect he).2 _ hg
  | sec x =>
    rcases hfrom with ⟨-, hr⟩ | ⟨id, -, rfl⟩ | ⟨id, -, rfl⟩
    · rw [hruntime] at hr
      cases hr
    · rfl
    · rfl
  | watch api generation =>
    refine hworker (.inr ?_)
    rcases hfrom.2 with ⟨rfl, hr⟩ | ⟨⟨sw, rfl⟩, hs⟩
    · exact hr
    · exact hs
  | watchLock generation =>
    obtain ⟨api, rfl, -⟩ := hfrom
    cases hruntime
  | watching phase =>
    cases phase with
    | _ =>
      obtain rfl : f = _ := hfrom
      cases hruntime
  | _ =>
    first
    | rfl
    | exact hworker hfrom

theorem sleeps_entry (h : entry s f = true) : f.Sleeps ∧ f.preLaunch = false := by
  revert h
  fun_cases entry s f
  all_goals first
    | exact fun _ => ⟨rfl, rfl⟩
    | exact fun h => absurd h Bool.false_ne_true

/-- Before the launch the client is dormant. -/
theorem keeps_dormant : program.Keeps
    { run := fun s f R _ => LocksHeld s (f ::ₘ R) ∧ Lifecycle s (f ::ₘ R) } SleepsSound where
  run s f R ch o h hp ho := by
    obtain ⟨e, he, rfl⟩ := Option.map_eq_some_iff.mp ho
    obtain ⟨hlocks, hlife⟩ := hp
    intro hasleep
    have hbefore := hasleep.back hlife he
    obtain ⟨hdormant, hsleeps⟩ := h hbefore
    have hf := hsleeps f (mem_cons_self _ _)
    have hdone : Dormant (e.done ch.now s.client).client ∧
        ∀ m home rev, .updateDERPMap m home rev ∉ (e.done ch.now s.client).calls := by
      rcases done_cases e ch.now s.client with ⟨-, hdone⟩ | ⟨x, hx, hdone⟩
      · rw [hdone]
        exact ⟨hdormant, by simp⟩
      · rw [hdone]
        exact hdormant.run (early_of_asleep hbefore hf hlife hlocks he hx)
    refine ⟨hdone.1, fun g hg => ?_⟩
    rcases mem_add.mp hg with hnew | hold
    · rcases mem_frames_apply.mp hnew with ⟨ev, -, rfl⟩ | ⟨c, hc, rfl⟩ | hframe
      · rfl
      · cases c with
        | updateDERPMap m home rev => exact absurd hc (hdone.2 m home rev)
        | _ => rfl
      · exact sleeps_new hdormant hf (hasleep.not_launches hlife hlocks he) he hframe
    · exact hsleeps g (mem_cons_of_mem hold)
  start s F f h _ hf := by
    intro hasleep
    obtain ⟨hsleeps, hpre⟩ := sleeps_entry hf
    have hbefore : Asleep s F := by
      rcases hasleep with hruntime | ⟨g, hg, hg'⟩
      · exact .inl hruntime
      · rcases mem_cons.mp hg with rfl | hold
        · rw [hpre] at hg'
          cases hg'
        · exact .inr ⟨g, hold, hg'⟩
    refine ⟨(h hbefore).1, fun g hg => ?_⟩
    rcases mem_cons.mp hg with rfl | hold
    · exact hsleeps
    · exact (h hbefore).2 g hold
  env s s' F a h _ ha := by
    intro hasleep
    obtain ⟨hclient, -, hctl, -, -⟩ := envStep ha
    rw [hclient]
    refine h (hasleep.imp_left fun hruntime => ?_)
    rw [hctl] at hruntime
    exact hruntime

end

/-! ## The invariants together -/

/-- Who holds which lock, what the frames know of the flags, and what is there before the launch. -/
structure Orderly (s : Sys) (F : Multiset Frame) : Prop where
  locks : LocksHeld s F
  life : Lifecycle s F
  sleeps : SleepsSound s F

theorem keeps_orderly (p : Machine.Policy Sys Frame Choice EnvAct) : program.Keeps p Orderly :=
  (((keeps_locks p).known keeps_lifecycle).known keeps_dormant).congr fun _ _ =>
    ⟨fun h => ⟨⟨h.locks, h.life⟩, h.sleeps⟩, fun h => ⟨h.1.1, h.1.2, h.2⟩⟩

theorem orderly_initial (opts : Options) (privateKey : Option PrivateKey) :
    Orderly (initial opts privateKey).shared (initial opts privateKey).frames where
  locks := locksHeld_initial opts privateKey
  life := lifecycle_initial opts privateKey
  sleeps _ := ⟨⟨rfl, rfl, rfl, rfl, rfl, rfl, rfl, rfl⟩, fun _ hg => absurd hg (notMem_zero _)⟩

end WgoTailscale
