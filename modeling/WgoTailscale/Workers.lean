import WgoTailscale.Dormancy

/-!
# The workers' queues

`endpointUpdater` and `controlPingWorker` take their work from channels. Few frames put something in
or have work of theirs in hand (`Frame.works`); all others leave the queues alone and call no frame
that is about them (`idle_effect`). The frames of one turn of the updater stand on the frame that
waits for the next one, and the section that completes the authentication on the signal that follows
it, so neither of the lower ones runs before the upper ones have returned (`reaches_stands`); and
there is at most one updater (`keeps_oneUpdater`).
-/

namespace WgoTailscale

open Machine

section
variable {ch : Choice} {s : Sys} {e : Effect} {f g : Frame}

theorem Effect.Idle.busy_eq_false (h : e.Idle s) (hg : g ∈ e.frames ++ e.spawned.flatten) :
    g.busy = false := by
  have hall := List.all_eq_true.mp h.frames g hg
  simpa using hall

/-- The other frames have nothing to do with the workers. -/
theorem idle_effect (hf : f.works = false) (h : effect ch s f = some e) : e.Idle s :=
  (tabled_effect h).idle hf

end

/-! ## What the working frames do -/

/-- The effects, in state `s`, of the frames that work. -/
inductive Work (s : Sys) : Frame → Effect → Prop
  | answerIgnored (ping : PingRequest) (h : ping.types ≠ "" ∨ s.client.lastPingURL = ping.url) :
      Work s (.call (.answerControlPing ping)) { ctl := s.ctl }
  | answer (ping : PingRequest) (h : ¬ (ping.types ≠ "" ∨ s.client.lastPingURL = ping.url)) :
      Work s (.call (.answerControlPing ping)) { ctl := s.ctl, frames := [.enqueuePing ping] }
  | enqueueMarked (ping : PingRequest) (h : ping.url ∈ s.ctl.pingPending) :
      Work s (.enqueuePing ping) { ctl := s.ctl }
  | enqueueFull (ping : PingRequest) (h : ping.url ∉ s.ctl.pingPending)
      (hfull : maxPendingControlPings ≤ s.ctl.pingWake.length) :
      Work s (.enqueuePing ping) { ctl := s.ctl }
  | enqueue (ping : PingRequest) (h : ping.url ∉ s.ctl.pingPending)
      (hroom : s.ctl.pingWake.length < maxPendingControlPings) :
      Work s (.enqueuePing ping) { ctl := { s.ctl with
        pingWake := s.ctl.pingWake ++ [ping]
        pingPending := insert ping.url s.ctl.pingPending } }
  | pingsDone : Work s .controlPingWorker { ctl := s.ctl }
  | receive (ping : PingRequest) (queue : List PingRequest) (h : s.ctl.pingWake = ping :: queue) :
      Work s .controlPingWorker { ctl := { s.ctl with pingWake := queue },
                                  frames := [.answerPing ping, .controlPingWorker] }
  | answered (ping : PingRequest) :
      Work s (.answerPing ping)
        { ctl := s.ctl, frames := [.sec (.pingAnswered ping.url), .unmarkPing ping.url none] }
  | answerFailed (ping : PingRequest) (err : String) :
      Work s (.answerPing ping) { ctl := s.ctl, frames := [.unmarkPing ping.url (some err)] }
  | unmark (url : String) (err : Option String) :
      Work s (.unmarkPing url err)
        { ctl := { s.ctl with pingPending := s.ctl.pingPending.erase url } }
  | unmarkReport (url err : String) :
      Work s (.unmarkPing url (some err))
        { ctl := { s.ctl with pingPending := s.ctl.pingPending.erase url },
          frames := [.sec (.reportError ("tailscale: answer control ping: " ++ err) none)] }
  | signal : Work s (.call .signalEndpointUpdate) { ctl := { s.ctl with endpointWake := true } }
  | updaterDone : Work s .endpointUpdater { ctl := s.ctl }
  | wake (h : s.ctl.endpointWake = true) :
      Work s .endpointUpdater { ctl := { s.ctl with endpointWake := false },
                                frames := [.updaterAuth, .endpointUpdater] }
  | unauthenticated (h : s.client.authenticated = false) : Work s .updaterAuth { ctl := s.ctl }
  | authenticated (h : s.client.authenticated = true) :
      Work s .updaterAuth { ctl := s.ctl, frames := [.updaterEndpoints] }
  | endpoints :
      Work s .updaterEndpoints { ctl := s.ctl, frames := [.updaterRequest s.client.endpoints] }
  | request (endpoints : List EndpointCandidate) :
      Work s (.updaterRequest endpoints)
        { ctl := { s.ctl with mapUpdate := some ⟨endpoints, s.client.preferredDERP⟩ } }
  | requestFailed (endpoints : List EndpointCandidate) (err : String) :
      Work s (.updaterRequest endpoints)
        { ctl := { s.ctl with mapUpdate := some ⟨endpoints, s.client.preferredDERP⟩ },
          frames := [.sec (.reportError ("tailscale: publish endpoints: " ++ err) none)] }
  | notRegistered (followup : String) (frames : List Frame)
      (h : frames.all (fun g => !g.busy) = true) :
      Work s (.authenticate followup) { ctl := s.ctl, frames }
  | registered (followup : String) (response : RegisterResponse) :
      Work s (.authenticate followup)
        { ctl := s.ctl,
          frames := [.sec (.registered response), .call .signalEndpointUpdate, .mapLoop] }
  | launchStart (api : Nat) :
      Work s (.starting (.launch (some api)))
        { ctl := { s.ctl with lifeMu := false, wg := s.ctl.wg + 6 },
          spawned := workers ++ [watcher api s.ctl.deviceGeneration, [.closeOnCancel]] }
  | launchAttach (api : Nat) :
      Work s (.attaching api (.release true))
        { ctl := { s.ctl with deviceWriter := false, wg := s.ctl.wg + 6 },
          spawned := workers ++ [watcher api s.ctl.deviceGeneration],
          frames := [.call .reconcilePeers, .attaching api .unlock] }
  | notLaunched {f : Frame} {e : Effect} (hf : f.preLaunch = true) (h : e.Idle s) : Work s f e

section
variable {ch : Choice} {s : Sys} {e : Effect} {f g : Frame}

theorem work_authenticate {followup : String} (h : authenticateEffect ch s followup = some e) :
    Work s (.authenticate followup) e := by
  revert h
  fun_cases authenticateEffect ch s followup <;> intro h <;> cases h <;>
    first
    | exact .registered followup _
    | exact .notRegistered followup _ rfl

/-- Every working frame does what the table says. -/
theorem work_effect (hf : f.works = true) (he : effect ch s f = some e) : Work s f e := by
  cases f with
  | call c =>
    have he : callEffect ch s c = some e := he
    cases c with
    | answerControlPing ping =>
      dsimp only [callEffect] at he
      split at he <;> cases he
      · exact .answerIgnored ping ‹_›
      · exact .answer ping ‹_›
    | signalEndpointUpdate =>
      cases he
      exact .signal
    | _ => cases hf
  | enqueuePing ping =>
    have he : enqueuePingEffect s ping = some e := he
    unfold enqueuePingEffect at he
    split at he <;> cases he
    · next h =>
      by_cases hmem : ping.url ∈ s.ctl.pingPending
      · exact .enqueueMarked ping hmem
      · exact .enqueueFull ping hmem (h.resolve_left hmem)
    · next h =>
      obtain ⟨hmem, hroom⟩ := not_or.mp h
      exact .enqueue ping hmem (not_le.mp hroom)
  | controlPingWorker | answerPing | unmarkPing | endpointUpdater | updaterAuth | updaterEndpoints
  | updaterRequest =>
    dsimp only [effect] at he
    repeat' split at he
    all_goals cases he
    all_goals first
      | exact .pingsDone
      | exact .receive _ _ ‹_›
      | exact .answered _
      | exact .answerFailed _ _
      | exact .unmark _ _
      | exact .unmarkReport _ _
      | exact .updaterDone
      | exact .wake ‹_›
      | exact .authenticated ‹_›
      | exact .unauthenticated (Bool.eq_false_iff.mpr ‹_›)
      | exact .endpoints
      | exact .requestFailed _ _
      | exact .request _
  | authenticate followup => exact work_authenticate he
  | starting phase =>
    have he : startEffect s phase = some e := he
    cases phase with
    | launch api =>
      cases api with
      | none => cases hf
      | some api =>
        dsimp only [startEffect] at he
        split at he <;> cases he
        · exact .launchStart api
        · exact .notLaunched rfl ⟨rfl, rfl⟩
    | _ => cases hf
  | attaching api phase =>
    have he : attachEffect ch s api phase = some e := he
    cases phase with
    | release startWorkers =>
      cases startWorkers with
      | false => cases hf
      | true =>
        dsimp only [attachEffect] at he
        split at he <;> cases he
        · exact .launchAttach api
        · exact .notLaunched rfl ⟨rfl, rfl⟩
    | _ => cases hf
  | _ => cases hf

end

/-! ## Stacks -/

/-- The frame that waits for a frame to return. -/
def Frame.needs : Frame → Option Frame
  | .updaterAuth | .updaterEndpoints | .updaterRequest _ => some .endpointUpdater
  | .sec (.registered _) => some (.call .signalEndpointUpdate)
  | _ => none

section
variable {ch : Choice} {s : Sys} {e : Effect} {f g : Frame} {rest : List Frame}

theorem needs_of_not_busy (h : g.busy = false) : g.needs = none := by
  unfold Frame.needs
  split
  all_goals first
    | rfl
    | cases h

theorem needs_of_all {l : List Frame} (h : l.all (fun g => g.needs.isNone) = true) :
    ∀ g ∈ l, g.needs = none := fun g hg =>
  Option.isNone_iff_eq_none.mp (List.all_eq_true.mp h g hg)

/-- A step that calls no frame that stands on another leaves the stacks in order. -/
theorem stands_of_needs (h : ∀ g ∈ e.frames ++ e.spawned.flatten, g.needs = none)
    (hrest : Stands Frame.needs rest) : Stands Frame.needs (e.frames ++ rest) ∧
      ∀ stack ∈ e.spawned, Stands Frame.needs stack := by
  refine ⟨hrest.append fun g hg => h g (List.mem_append_left _ hg), fun stack hstack => ?_⟩
  rw [← List.append_nil stack]
  exact Stands.append trivial fun g hg =>
    h g (List.mem_append_right _ (List.mem_flatten.mpr ⟨stack, hstack, hg⟩))

/-- A working frame leaves the stacks in order. -/
theorem Work.stands (h : Work s f e) (hstack : Stands Frame.needs (f :: rest)) :
    Stands Frame.needs (e.frames ++ rest) ∧
      ∀ stack ∈ e.spawned, Stands Frame.needs stack := by
  obtain ⟨hneeds, hrest⟩ := hstack
  cases h with
  | wake => exact ⟨⟨by simp [Frame.needs], by simp [Frame.needs], hrest⟩, nofun⟩
  | authenticated | endpoints => exact ⟨⟨by simpa [Frame.needs] using hneeds, hrest⟩, nofun⟩
  | registered =>
    exact ⟨⟨by simp [Frame.needs], by simp [Frame.needs], by simp [Frame.needs], hrest⟩, nofun⟩
  | notRegistered followup frames hframes =>
    have hidle : Effect.Idle s { ctl := s.ctl, frames } := ⟨rfl, by simpa using hframes⟩
    exact stands_of_needs (fun g hg => needs_of_not_busy (hidle.busy_eq_false hg)) hrest
  | notLaunched hf hidle =>
    exact stands_of_needs (fun g hg => needs_of_not_busy (hidle.busy_eq_false hg)) hrest
  | _ => exact stands_of_needs (needs_of_all rfl) hrest

/-- Every step leaves the stacks in order. -/
theorem stands_apply (he : effect ch s f = some e)
    (hstack : Stands Frame.needs (f :: rest)) :
    Stands Frame.needs ((e.apply ch.now s).calls ++ rest) ∧
      ∀ stack ∈ (e.apply ch.now s).spawned, Stands Frame.needs stack := by
  have hown : Stands Frame.needs (e.frames ++ rest) ∧
      ∀ stack ∈ e.spawned, Stands Frame.needs stack := by
    by_cases hf : f.works
    · exact (work_effect hf he).stands hstack
    · have hidle := idle_effect (Bool.eq_false_iff.mpr hf) he
      exact stands_of_needs (fun g hg => needs_of_not_busy (hidle.busy_eq_false hg)) hstack.2
  refine ⟨?_, hown.2⟩
  rw [Effect.apply, List.append_assoc, List.append_assoc]
  refine Stands.append (hown.1.append fun g hg => ?_) fun g hg => ?_
  · obtain ⟨c, -, rfl⟩ := List.mem_map.mp hg
    rfl
  · obtain ⟨ev, -, rfl⟩ := List.mem_map.mp hg
    rfl

theorem needs_entry (h : entry s f = true) : f.needs = none := by
  revert h
  fun_cases entry s f
  all_goals first
    | exact fun _ => rfl
    | exact fun h => absurd h Bool.false_ne_true

/-- No run executes a frame that another one stands on. -/
theorem reaches_stands {p : Policy Sys Frame Choice EnvAct} {opts : Options}
    {privateKey : Option PrivateKey} {cfg : Config Sys Frame}
    (h : program.Reaches p (initial opts privateKey) cfg) :
    program.Reaches (.stands Frame.needs) (initial opts privateKey) cfg := by
  refine h.stands nofun (fun s f ch o rest ho hstack => ?_) fun s f hf => needs_entry hf
  obtain ⟨e, he, rfl⟩ := Option.map_eq_some_iff.mp ho
  exact stands_apply he hstack

end

/-! ## One updater -/

/-- Is this the updater? -/
def Frame.updater : Frame → Nat
  | .endpointUpdater => 1
  | _ => 0

/-- There is at most one updater. -/
def OneUpdater (_ : Sys) (F : Multiset Frame) : Prop := weightOf Frame.updater F ≤ 1

section
variable {ch : Choice} {s : Sys} {e : Effect} {f g : Frame} {R : Multiset Frame}

theorem updater_of_not_busy (h : g.busy = false) : g.updater = 0 := by
  unfold Frame.updater
  split
  · cases h
  · rfl

/-- How many updaters a step adds. -/
def Effect.updaters (e : Effect) : Nat := ((e.frames ++ e.spawned.flatten).map Frame.updater).sum

theorem Effect.Idle.updaters (h : e.Idle s) : e.updaters = 0 := by
  refine List.sum_eq_zero fun n hn => ?_
  obtain ⟨g, hg, rfl⟩ := List.mem_map.mp hn
  exact updater_of_not_busy (h.busy_eq_false hg)

/-- An updater is added by the launch, or goes on. -/
theorem updaters_effect (he : effect ch s f = some e) :
    e.updaters ≤ f.updater ∨ f.preLaunch = true ∧ e.updaters = 1 := by
  by_cases hf : f.works
  · cases work_effect hf he with
    | launchStart | launchAttach =>
      exact .inr ⟨rfl, by simp [Effect.updaters, workers, watcher, Frame.updater]⟩
    | notLaunched _ hidle => exact .inl (hidle.updaters ▸ Nat.zero_le _)
    | notRegistered followup frames hframes =>
      have hidle : Effect.Idle s { ctl := s.ctl, frames } := ⟨rfl, by simpa using hframes⟩
      exact .inl (hidle.updaters ▸ Nat.zero_le _)
    | _ => exact .inl (by simp [Effect.updaters, Frame.updater])
  · exact .inl ((idle_effect (Bool.eq_false_iff.mpr hf) he).updaters ▸ Nat.zero_le _)

theorem keeps_oneUpdater : program.Keeps
    { run := fun s f R _ => Orderly s (f ::ₘ R) } OneUpdater where
  run s f R ch o h horderly ho := by
    obtain ⟨e, he, rfl⟩ := Option.map_eq_some_iff.mp ho
    have h : weightOf Frame.updater (f ::ₘ R) ≤ 1 := h
    show weightOf Frame.updater _ ≤ 1
    rw [weightOf_cons] at h
    rw [weightOf_add, weightOf_frames, weight_apply (fun _ => rfl) (fun _ => rfl)]
    show e.updaters + _ ≤ 1
    rcases updaters_effect he with hle | ⟨hpre, hone⟩
    · omega
    · -- before the launch there is no updater
      obtain ⟨-, hsleeps⟩ := horderly.sleeps (.inr ⟨f, Multiset.mem_cons_self _ _, hpre⟩)
      have hzero : weightOf Frame.updater R = 0 := by
        refine Multiset.sum_eq_zero fun n hn => ?_
        obtain ⟨g, hg, rfl⟩ := Multiset.mem_map.mp hn
        have hg := (hsleeps g (Multiset.mem_cons_of_mem hg)).isRuntime
        unfold Frame.updater
        split
        · cases hg
        · rfl
      omega
  start s F f h _ hf := by
    have hzero : f.updater = 0 := by
      have hsleeps := (sleeps_entry hf).1.isRuntime
      unfold Frame.updater
      split
      · cases hsleeps
      · rfl
    show weightOf Frame.updater (f ::ₘ F) ≤ 1
    rw [weightOf_cons, hzero, Nat.zero_add]
    exact h
  env s s' F a h _ ha := h

end

end WgoTailscale
