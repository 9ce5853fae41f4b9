import WgoTailscale.Degradation
import WgoTailscale.Dormancy

/-!
# Shutdown

`Close` sets the state to stopping and later to stopped. Most sections that write the state look at it
first, or can no longer run. The others bring a client back that was shut down: a registration, an
error or an interaction that was under way when `Close` came, and a map response that finds the self
node expired (`Section.revives`). `shutdown_absorbing_iff` says that there is no other way back.
-/

namespace WgoTailscale

open Machine

/-- The client is shut down, and wants its network to be down. -/
structure ShutDown (c : Client) : Prop where
  state : c.state = .stopping ∨ c.state = .stopped
  down : ∀ order, (c.networkView order).up = false

/-- The sections that write the state without a look at whether the client is shut down. -/
def Section.revives (c : Client) (now : Time) : Section → Bool
  | .applyMapResponse response => c.expiresSelf response now
  | .reportError _ (some _) | .setInteraction _ _ _ | .setTerminalError _ | .registered _ => true
  | _ => false

/-- The step executes no section that revives the client. -/
def KeepsShut (cfg : Config Sys Frame) : Act Frame Choice EnvAct → Prop
  | .run t ch => ∀ x, cfg.top t = some (.sec x) → x.revives cfg.shared.client ch.now = false
  | _ => True

section
variable {c : Client} {now : Time}

theorem shutDown_iff : ShutDown c ↔ c.state.isStop = true := by
  constructor
  · rintro ⟨hstate | hstate, -⟩ <;> rw [hstate] <;> rfl
  · intro hstop
    refine ⟨?_, fun order => ?_⟩
    · cases hstate : c.state with
      | stopping => exact .inl rfl
      | stopped => exact .inr rfl
      | _ =>
        rw [hstate] at hstop
        cases hstop
    · show c.up = false
      unfold Client.up
      rw [hstop, Bool.not_true, Bool.and_false]

/-- A section leaves a client shut down exactly if it does not revive it; `Start` does not get to its
sections any more. -/
theorem isStop_run_iff {x : Section} (hstop : c.state.isStop = true)
    (hstart : x ≠ .startBegin ∧ x ≠ .startFailed)
    (hreport : ∀ err state, x = .reportError err (some state) → state = .degraded) :
    (x.run c now).client.state.isStop = true ↔ x.revives c now = false := by
  by_cases hmap : ∃ response, x = .applyMapResponse response
  · obtain ⟨response, rfl⟩ := hmap
    have hstate : ((Section.applyMapResponse response).run c now).client.state =
        c.stateAfter response now := (expiry_applyMapResponse c response now).2.2
    have hne : c.state ≠ .degraded := by
      intro heq
      rw [heq] at hstop
      cases hstop
    rw [hstate]
    show _ ↔ c.expiresSelf response now = false
    unfold Client.stateAfter
    split
    · next hexpires =>
      rw [hexpires]
      exact iff_of_false Bool.false_ne_true nofun
    · next hexpires =>
      rw [if_neg fun h => hne h.1]
      exact iff_of_true hstop (Bool.eq_false_iff.mpr hexpires)
  have hstate := ((frame_run c now x).resolve_left hmap).state
  cases x with
  | applyMapResponse response => exact absurd ⟨response, rfl⟩ hmap
  | reportError err state =>
    cases state with
    | none => exact iff_of_true hstop rfl
    | some state =>
      obtain rfl := hreport err state rfl
      exact iff_of_false Bool.false_ne_true nofun
  | setInteraction kind url message =>
    refine iff_of_false ?_ nofun
    rw [hstate]
    dsimp only [Section.onState]
    split <;> exact Bool.false_ne_true
  | setTerminalError | registered => exact iff_of_false Bool.false_ne_true nofun
  | startBegin => exact absurd rfl hstart.1
  | startFailed => exact absurd rfl hstart.2
  | closeUnstarted | closeStopping | closeStopped => exact iff_of_true rfl rfl
  | _ =>
    refine iff_of_true ?_ rfl
    rw [hstate]
    first
    | exact hstop
    | exact (congrArg State.isStop (if_pos hstop)).trans hstop

end

section
variable {ch : Choice} {s : Sys} {f : Frame} {e : Effect} {R : Multiset Frame}

/-- A frame that consists of a section does that. -/
theorem sec_effect {x : Section} (he : effect ch s (.sec x) = some e) : e.sec = some x := by
  cases he
  rfl

/-- A frame that does not consist of a section leaves a client shut down. -/
theorem isStop_apply_of_not (h : Lifecycle s (f ::ₘ R)) (he : effect ch s f = some e)
    (hf : ∀ x, f ≠ .sec x) (hstop : s.client.state.isStop = true) :
    (e.apply ch.now s).state.client.state.isStop = true := by
  have hclosed := h.stopped hstop
  have hknows := h.knows f (Multiset.mem_cons_self _ _)
  rcases done_cases e ch.now s.client with ⟨-, hdone⟩ | ⟨x, hx, hdone⟩
  · rw [show (e.apply ch.now s).state.client = s.client from congrArg Done.client hdone]
    exact hstop
  · rw [show (e.apply ch.now s).state.client = (x.run s.client ch.now).client from
      congrArg Done.client hdone]
    have hby : x.By f := ((traced_effect he).sec x hx).resolve_left (hf x)
    -- `Start` holds `lifeMu` and has seen that the client is not closed
    have hopen {phase : StartPhase} (heq : f = .starting phase) : False := by
      subst heq
      rw [hknows.1] at hclosed
      cases hclosed
    refine (isStop_run_iff hstop ⟨?_, ?_⟩ ?_).mpr ?_
    · rintro rfl
      exact hopen hby
    · rintro rfl
      exact hopen hby
    · rintro err state rfl
      exact hby.elim
    · cases x with
      | applyMapResponse | reportError | setInteraction | setTerminalError | registered =>
        exact hby.elim
      | _ => rfl

/-- A frame that consists of a section leaves it shut down exactly if the section does. -/
theorem isStop_apply_sec {x : Section} (h : Lifecycle s (.sec x ::ₘ R))
    (he : effect ch s (.sec x) = some e) (hstop : s.client.state.isStop = true) :
    (e.apply ch.now s).state.client.state.isStop = true ↔ x.revives s.client ch.now = false := by
  have hcalled : x.isCalled = true := h.knows _ (Multiset.mem_cons_self _ _)
  have hclient : (e.apply ch.now s).state.client = (x.run s.client ch.now).client := by
    show (e.done ch.now s.client).client = _
    unfold Effect.done
    rw [sec_effect he]
  rw [hclient]
  refine isStop_run_iff hstop ⟨?_, ?_⟩ ?_
  · rintro rfl
    cases hcalled
  · rintro rfl
    cases hcalled
  · rintro err state rfl
    cases state with
    | degraded => rfl
    | _ => cases hcalled

theorem shutDown_step {cfg cfg' : Config Sys Frame} {a : Act Frame Choice EnvAct}
    (h : Lifecycle cfg.shared cfg.frames) (hshut : ShutDown cfg.shared.client)
    (hstep : program.step cfg a = some cfg') : ShutDown cfg'.shared.client ↔ KeepsShut cfg a := by
  rcases step_cases hstep with ⟨t, ch, f, o, rfl, hf, ho, rfl⟩ | ⟨f, rfl, -, rfl⟩ |
    ⟨env, s', rfl, henv, rfl⟩
  · obtain ⟨e, he, rfl⟩ := Option.map_eq_some_iff.mp ho
    rw [Config.frames_eq hf] at h
    have hstop := shutDown_iff.mp hshut
    rw [shutDown_iff]
    by_cases hsec : ∃ x, f = .sec x
    · obtain ⟨x, rfl⟩ := hsec
      refine (isStop_apply_sec h he hstop).trans ⟨fun hx x' htop => ?_, fun hkeeps => hkeeps x hf⟩
      cases hf.symm.trans htop
      exact hx
    · have hnot : ∀ x, f ≠ .sec x := fun x heq => hsec ⟨x, heq⟩
      refine iff_of_true (isStop_apply_of_not h he hnot hstop) fun x htop => ?_
      exact absurd (Option.some.inj (hf.symm.trans htop)) (hnot x)
  · exact iff_of_true hshut trivial
  · refine iff_of_true ?_ trivial
    show ShutDown s'.client
    rw [(envStep henv).client]
    exact hshut

end

/-- Once `Close` has set the state to stopping, the client stays shut down exactly if no section
revives it. -/
theorem shutdown_absorbing_iff {opts : Options} {privateKey : Option PrivateKey}
    {cfg : Config Sys Frame} (h : program.Reaches .any (initial opts privateKey) cfg)
    (hstopping : cfg.shared.client.state = .stopping) (acts : List (Act Frame Choice EnvAct)) :
    program.system.Visits (fun cfg => ShutDown cfg.shared.client) cfg acts ↔
      program.system.Meets KeepsShut cfg acts := by
  have horderly := (keeps_orderly .any).invariant h (orderly_initial opts privateKey)
  refine System.visits_iff_meets (J := fun cfg => Orderly cfg.shared cfg.frames) ?_ ?_ horderly ?_ acts
  · exact fun _ _ _ hcfg hstep => (keeps_orderly .any).step hstep hcfg
  · exact fun _ _ _ hcfg hshut hstep => shutDown_step hcfg.life hshut hstep
  · exact shutDown_iff.mpr (by rw [hstopping]; rfl)

/-- The client is closed while its registration is under way. -/
def closeWhileRegistering : Schedule :=
  startRun [] ++ steps 1 1 ++ [.start .close] ++ steps 8 2

theorem shutdown_absorbing_iff_registering :
    ∃ cfg, program.Reaches .any sampleClient cfg ∧ cfg.shared.client.state = .stopping ∧
      ∀ acts, program.system.Visits (fun cfg => ShutDown cfg.shared.client) cfg acts ↔
        program.system.Meets KeepsShut cfg acts := by
  have hrun : (program.system.runIf (Policy.any).Admits sampleClient
      closeWhileRegistering).map (fun cfg => cfg.shared.client.state) = some .stopping := by
    decide +kernel
  obtain ⟨cfg, hreach, hstopping⟩ := System.exists_reach_of_runIf hrun
  exact ⟨cfg, hreach, hstopping, shutdown_absorbing_iff hreach hstopping⟩

/-- The registration comes to its end, and the client is running again. -/
theorem running_after_close :
    ∃ cfg cfg', program.Reaches .any sampleClient cfg ∧ cfg.shared.client.state = .stopping ∧
      program.Reaches .any cfg cfg' ∧ cfg'.shared.client.state = .running := by
  have hrun : (program.system.runIf (Policy.any).Admits sampleClient
      closeWhileRegistering).map (fun cfg => (cfg.shared.client.state,
        (program.system.runIf (Policy.any).Admits cfg (steps 1 1)).map
          fun cfg' => cfg'.shared.client.state)) = some (.stopping, some .running) := by
    decide +kernel
  obtain ⟨cfg, hreach, hview⟩ := System.exists_reach_of_runIf hrun
  obtain ⟨hstopping, hnext⟩ := Prod.mk.inj hview
  obtain ⟨cfg', hreach', hrunning⟩ := System.exists_reach_of_runIf hnext
  exact ⟨cfg, cfg', hreach, hstopping, hreach', hrunning⟩

end WgoTailscale
