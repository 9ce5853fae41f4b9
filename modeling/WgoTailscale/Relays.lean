import WgoTailscale.BindNetwork
import WgoTailscale.Dormancy
import WgoTailscale.Lib.Delivery
import WgoTailscale.ViewRevisions

/-!
# The DERP configuration of the bind

`applyMapResponse` and `onDERPLatency` take the DERP map and the home region under `c.mu` and hand them
to the bind when they have released it. The bind has the client's current configuration whenever
nobody is about to hand one over, as long as they are handed over in the order in which they were taken
(`relays_current`); in another order the bind is left with an old one (`relays_stale`).
-/

namespace WgoTailscale

open Delivery Machine

/-! ## Configurations -/

/-- The DERP configuration of a bind. -/
def Bind.relays (b : Bind) : Option DERPMap × Int := (b.derpMap, b.selfDERP)

/-- The DERP configuration that the client wants its bind to have. -/
def Client.relays (c : Client) : Option DERPMap × Int := (cloneDERPMap c.derpMap, c.selfDERP)

/-- The DERP configuration that a frame is about to hand to the bind, and the revision at which it was
taken. -/
def Frame.relays : Frame → Option (Nat × Option DERPMap × Int)
  | .call (.updateDERPMap derpMap selfDERP revision) =>
    some (revision, cloneDERPMap derpMap, selfDERP)
  | _ => none

theorem relays_eq_some {f : Frame} {p : Nat × Option DERPMap × Int} (h : f.relays = some p) :
    ∃ derpMap selfDERP revision, f = .call (.updateDERPMap derpMap selfDERP revision) ∧
      p = (revision, cloneDERPMap derpMap, selfDERP) := by
  unfold Frame.relays at h
  split at h
  · exact ⟨_, _, _, rfl, (Option.some.inj h).symm⟩
  · cases h

/-- What a call makes of the DERP configuration of a bind. -/
def BindAct.onRelays (relays : Option DERPMap × Int) : BindAct → Option DERPMap × Int
  | .create _ => (none, 0)
  | .updateDERPMap derpMap selfDERP => (cloneDERPMap derpMap, selfDERP)
  | _ => relays

theorem relays_of_network {b b' : Bind} (h : b'.network = b.network) : b'.relays = b.relays := by
  simp only [Bind.network, Prod.mk.injEq] at h
  exact Prod.ext h.2.2.2.1 h.2.2.2.2

/-- A call to the bind does to its DERP configuration what the table says. -/
theorem relays_run {b b' : Bind} {act : BindAct} (h : act.run (some b) = some b') :
    b'.relays = act.onRelays b.relays := by
  have hpeers (hact : act.ofPeers = true) : b'.relays = b.relays := by
    have hsame := network_run (some b) hact
    rw [h] at hsame
    exact relays_of_network (Option.some.inj hsame)
  cases act with
  | create | recordSTUN | pruneSTUN =>
    cases h
    rfl
  | updateDERPMap derpMap selfDERP =>
    cases h
    unfold Bind.updateDERPMap
    dsimp only
    split
    · next heq => exact Prod.ext heq.2 heq.1
    · rfl
  | openBind listen now order interfaces =>
    obtain ⟨-, hmap, hself, -⟩ :=
      b.network_openBind listen now order interfaces (Option.some.inj h)
    exact Prod.ext hmap hself
  | installLocal generation localEndpoints =>
    cases h
    dsimp only [Bind.refreshLocalEndpoints]
    split <;> rfl
  | updatePeer | removePeer | removePeers | shutdown | answerSTUN => exact hpeers rfl

/-- Where the DERP configuration of the bind comes from after a step. -/
theorem relays_apply {e : Effect} {now : Time} {s : Sys} {b' : Bind}
    (h : (e.apply now s).state.bind = some b') :
    (∃ cfg, e.bind = some (.create cfg) ∧ b'.relays = (none, 0)) ∨
      ∃ b, s.bind = some b ∧ (∀ cfg, e.bind ≠ some (.create cfg)) ∧
        b'.relays = e.bind.elim b.relays fun act => act.onRelays b.relays := by
  cases hact : e.bind with
  | none =>
    rw [bind_apply_none hact] at h
    exact .inr ⟨b', h, by simp, rfl⟩
  | some act =>
    rw [bind_apply_some hact] at h
    by_cases hcreate : ∃ cfg, act = .create cfg
    · obtain ⟨cfg, rfl⟩ := hcreate
      cases h
      exact .inl ⟨cfg, rfl, rfl⟩
    · have hnot (cfg : BindConfig) : some act ≠ some (.create cfg) :=
        fun heq => hcreate ⟨cfg, Option.some.inj heq⟩
      cases hbind : s.bind with
      | some b =>
        rw [hbind] at h
        exact .inr ⟨b, rfl, hnot, relays_run h⟩
      | none =>
        rw [hbind] at h
        cases act with
        | create cfg => exact absurd rfl (hnot cfg)
        | _ => cases h

/-! ## Handing over -/

/-- Every configuration on its way was taken before now, and the last of them is the current one. -/
structure RelaysInStep (s : Sys) (F : Multiset Frame) : Prop where
  taken : ∀ p ∈ underWay Frame.relays F, p.1 ≤ s.client.revision
  inStep : ∀ b, s.bind = some b → InStep s.client.relays b.relays (underWay Frame.relays F)

section
variable {ch : Choice} {s : Sys} {f : Frame} {e : Effect} {R : Multiset Frame}

/-- Configurations are taken in sections. -/
theorem mem_relays_apply (he : effect ch s f = some e) {p : Nat × Option DERPMap × Int} :
    p ∈ underWay Frame.relays ((e.apply ch.now s).frames + R) ↔
      (∃ derpMap selfDERP revision, .updateDERPMap derpMap selfDERP revision ∈
          (e.done ch.now s.client).calls ∧ p = (revision, cloneDERPMap derpMap, selfDERP)) ∨
        p ∈ underWay Frame.relays R := by
  rw [mem_underWay_add]
  refine or_congr_left ⟨?_, ?_⟩
  · rintro ⟨g, hg, hp⟩
    obtain ⟨derpMap, selfDERP, revision, rfl, rfl⟩ := relays_eq_some hp
    rcases mem_frames_apply.mp hg with ⟨ev, -, heq⟩ | ⟨c, hc, heq⟩ | hframe
    · cases heq
    · cases heq
      exact ⟨_, _, _, hc, rfl⟩
    · rcases (traced_effect he).calls _ hframe with heq | ⟨heq, -⟩
      · cases heq
      · cases heq
  · rintro ⟨derpMap, selfDERP, revision, hc, rfl⟩
    exact ⟨_, mem_frames_apply.mpr (.inr (.inl ⟨_, hc, rfl⟩)), rfl⟩

/-- A section that hands nothing over leaves the current configuration as it was. -/
theorem RelaysInStep.section (h : RelaysInStep s (f ::ₘ R)) (he : effect ch s f = some e)
    (hf : f.relays = none) :
    (∀ p ∈ underWay Frame.relays ((e.apply ch.now s).frames + R),
        p.1 ≤ (e.done ch.now s.client).client.revision) ∧
      ∀ b, s.bind = some b → InStep (e.done ch.now s.client).client.relays b.relays
        (underWay Frame.relays ((e.apply ch.now s).frames + R)) := by
  have htaken := h.taken
  have hinStep := h.inStep
  rw [underWay_cons_none hf] at htaken hinStep
  have hquiet {c' : Client} (hrevision : s.client.revision ≤ c'.revision)
      (hsame : SameDERP s.client c')
      (hnone : ∀ m home rev, .updateDERPMap m home rev ∉ (e.done ch.now s.client).calls) :
      (∀ p ∈ underWay Frame.relays ((e.apply ch.now s).frames + R), p.1 ≤ c'.revision) ∧
        ∀ b, s.bind = some b → InStep c'.relays b.relays
          (underWay Frame.relays ((e.apply ch.now s).frames + R)) := by
    have hway : underWay Frame.relays ((e.apply ch.now s).frames + R) =
        underWay Frame.relays R := by
      ext p
      rw [mem_relays_apply he]
      exact or_iff_right fun ⟨m, home, rev, hmem, _⟩ => hnone m home rev hmem
    have hrelays : c'.relays = s.client.relays := by
      unfold Client.relays
      rw [hsame.1, hsame.2]
    rw [hway, hrelays]
    exact ⟨fun p hp => (htaken p hp).trans hrevision, hinStep⟩
  rcases done_cases e ch.now s.client with ⟨-, hdone⟩ | ⟨x, -, hdone⟩
  · rw [hdone]
    exact hquiet le_rfl ⟨rfl, rfl⟩ (by rw [hdone]; simp)
  have hstep := sectionStep_run s.client ch.now x
  rw [← hdone] at hstep
  by_cases htakes : ∃ m home rev, .updateDERPMap m home rev ∈ (e.done ch.now s.client).calls
  · -- the section has taken the configuration that it leaves behind
    obtain ⟨m, home, rev, hmem⟩ := htakes
    obtain ⟨rfl, rfl, rfl, hnew⟩ := hstep.derpCall m home rev hmem
    have hall : ∀ p ∈ underWay Frame.relays ((e.apply ch.now s).frames + R),
        p.1 ≤ (e.done ch.now s.client).client.revision := by
      intro p hp
      rcases (mem_relays_apply he).mp hp with ⟨m, home, rev, hmem, rfl⟩ | hold
      · exact (hstep.derpCall m home rev hmem).2.2.1.le
      · exact (htaken p hold).trans hstep.revision
    have hcopy := cloneDERPMap_cloneDERPMap (e.done ch.now s.client).client.derpMap
    have hcurrent : ((e.done ch.now s.client).client.revision,
        (e.done ch.now s.client).client.relays) ∈
          underWay Frame.relays ((e.apply ch.now s).frames + R) := by
      rw [mem_relays_apply he, Client.relays]
      exact .inl ⟨_, _, _, hmem, by rw [hcopy]⟩
    exact ⟨hall, fun b _ => inStep_of_taken hcurrent hall⟩
  · have hnone : ∀ m home rev, .updateDERPMap m home rev ∉ (e.done ch.now s.client).calls :=
      fun m home rev hmem => htakes ⟨m, home, rev, hmem⟩
    exact hquiet hstep.revision (hstep.derp.resolve_right (hnone _ _ _)) hnone

/-- The call to `UpdateDERPMap`. -/
theorem updateDERPMap_effect {derpMap : Option DERPMap} {selfDERP : Int} {revision : Nat}
    (he : effect ch s (.call (.updateDERPMap derpMap selfDERP revision)) = some e) :
    e.sec = none ∧ ∀ b, s.bind = some b →
      (e.bind = none ∧ b.relays = (cloneDERPMap derpMap, selfDERP)) ∨
        e.bind = some (.updateDERPMap derpMap selfDERP) := by
  have he : callEffect ch s (.updateDERPMap derpMap selfDERP revision) = some e := he
  dsimp only [callEffect] at he
  split at he
  · next hnone =>
    cases he
    refine ⟨rfl, fun b hb => ?_⟩
    cases hnone.symm.trans hb
  · next b hb =>
    split at he
    · next heq =>
      cases he
      refine ⟨rfl, fun b' hb' => .inl ⟨rfl, ?_⟩⟩
      cases hb.symm.trans hb'
      exact Prod.ext heq.2 heq.1
    · cases he
      exact ⟨rfl, fun _ _ => .inr rfl⟩

/-- While the bind is created the client has nothing to hand over. -/
theorem relays_create (h : Orderly s (f ::ₘ R)) (he : effect ch s f = some e) {cfg : BindConfig}
    (hcreate : e.bind = some (.create cfg)) :
    (e.done ch.now s.client).client.relays = (none, 0) ∧
      underWay Frame.relays ((e.apply ch.now s).frames + R) = ∅ := by
  obtain ⟨caller, api, cache, rfl⟩ := (traced_effect he).bind _ hcreate
  have hknows := h.life.knows _ (Multiset.mem_cons_self _ _)
  obtain ⟨hdormant, hsleeps⟩ := h.sleeps (.inl hknows.2.1)
  have hsec : e.sec = none := by
    cases hx : e.sec with
    | none => rfl
    | some x =>
      rcases (traced_effect he).sec x hx with heq | hby
      · cases heq
      · cases x with
        | runtimeInstalled nodePrivate cache =>
          obtain ⟨caller, api, heq⟩ := hby
          cases heq
        | _ => simp [Section.By] at hby
  have hdone : e.done ch.now s.client = { client := s.client } := by
    unfold Effect.done
    rw [hsec]
  rw [hdone]
  refine ⟨?_, Set.eq_empty_of_forall_notMem fun p hp => ?_⟩
  · unfold Client.relays Client.selfDERP
    rw [hdormant.derpMap, hdormant.preferredDERP, hdormant.self]
    rfl
  · rcases (mem_relays_apply he).mp hp with ⟨m, home, rev, hmem, -⟩ | ⟨g, hg, hp⟩
    · rw [hdone] at hmem
      cases hmem
    · obtain ⟨m, home, rev, rfl, -⟩ := relays_eq_some hp
      exact hsleeps _ (Multiset.mem_cons_of_mem hg)

/-- A step that hands a configuration over. -/
theorem RelaysInStep.handOver {derpMap : Option DERPMap} {selfDERP : Int} {revision : Nat}
    (h : RelaysInStep s (.call (.updateDERPMap derpMap selfDERP revision) ::ₘ R))
    (he : effect ch s (.call (.updateDERPMap derpMap selfDERP revision)) = some e)
    (horder : (inOrder Frame.relays : Policy Sys Frame Choice EnvAct).run s
      (.call (.updateDERPMap derpMap selfDERP revision)) R ch) :
    RelaysInStep (e.apply ch.now s).state ((e.apply ch.now s).frames + R) := by
  obtain ⟨hsec, hbind⟩ := updateDERPMap_effect he
  have hdone : e.done ch.now s.client = { client := s.client } := by
    unfold Effect.done
    rw [hsec]
  have hclient : (e.apply ch.now s).state.client = s.client := congrArg Done.client hdone
  have hway : underWay Frame.relays ((e.apply ch.now s).frames + R) = underWay Frame.relays R := by
    ext p
    rw [mem_relays_apply he, hdone]
    exact or_iff_right (by simp)
  constructor
  · intro p hp
    rw [hway] at hp
    rw [hclient]
    exact h.taken p (mem_underWay_cons.mpr (.inr hp))
  · intro b' hb'
    rw [hway, hclient]
    rcases relays_apply hb' with ⟨cfg, hcreate, -⟩ | ⟨b, hb, -, hrelays⟩
    · obtain ⟨caller, api, cache, heq⟩ := (traced_effect he).bind _ hcreate
      cases heq
    · have hnew : b'.relays = (cloneDERPMap derpMap, selfDERP) := by
        rcases hbind b hb with ⟨hnone, hsame⟩ | hact
        · rw [hrelays, hnone]
          exact hsame
        · rw [hrelays, hact]
          rfl
      rw [hnew]
      exact (h.inStep b hb).deliver rfl horder

/-- Any other step. -/
theorem RelaysInStep.other (h : RelaysInStep s (f ::ₘ R)) (horderly : Orderly s (f ::ₘ R))
    (he : effect ch s f = some e) (hf : f.relays = none) :
    RelaysInStep (e.apply ch.now s).state ((e.apply ch.now s).frames + R) := by
  obtain ⟨htaken, hinStep⟩ := h.section he hf
  refine ⟨htaken, fun b' hb' => ?_⟩
  rcases relays_apply hb' with ⟨cfg, hcreate, hnew⟩ | ⟨b, hb, hnot, hrelays⟩
  · obtain ⟨hclient, hway⟩ := relays_create horderly he hcreate
    exact .inl ⟨hway, hnew.trans hclient.symm⟩
  · have hsame : b'.relays = b.relays := by
      cases hact : e.bind with
      | none => rw [hrelays, hact]; rfl
      | some act =>
        have hby := (traced_effect he).bind act hact
        rw [hrelays, hact]
        cases act with
        | create cfg => exact absurd hact (hnot cfg)
        | updateDERPMap derpMap selfDERP =>
          obtain ⟨revision, rfl⟩ := hby
          cases hf
        | _ => rfl
    rw [hsame]
    exact hinStep b hb

theorem keeps_relaysInStep :
    program.Keeps (inOrder Frame.relays) fun s F => Orderly s F ∧ RelaysInStep s F := by
  refine (keeps_orderly _).and ⟨?_, ?_, ?_⟩
  · rintro s f R ch o h ⟨horder, horderly⟩ ho
    obtain ⟨e, he, rfl⟩ := Option.map_eq_some_iff.mp ho
    cases hf : f.relays with
    | some p =>
      obtain ⟨derpMap, selfDERP, revision, rfl, -⟩ := relays_eq_some hf
      exact h.handOver he horder
    | none => exact h.other horderly he hf
  · intro s F f h _ hentry
    have hf : f.relays = none := by
      cases hf : f.relays with
      | none => rfl
      | some p =>
        obtain ⟨derpMap, selfDERP, revision, rfl, -⟩ := relays_eq_some hf
        cases hentry
    have hway := underWay_cons_none (F := F) hf
    exact ⟨fun p hp => h.taken p (hway ▸ hp), fun b hb => by
      rw [hway]
      exact h.inStep b hb⟩
  · intro s s' F a h _ ha
    have hnetwork := network_env ha
    refine ⟨(envStep ha).client ▸ h.taken, fun b' hb' => ?_⟩
    rw [hb', Option.map_some] at hnetwork
    obtain ⟨b, hb, hsame⟩ := Option.map_eq_some_iff.mp hnetwork.symm
    rw [(envStep ha).client, relays_of_network hsame.symm]
    exact h.inStep b hb

end

/-! ## Copies -/

theorem derpMap_reduceMap (response : MapResponse) (now : Time) (c : Client) :
    (reduceMap c response now).client.derpMap =
      response.derpMap.elim c.derpMap (mergeDERPMap c.derpMap) := by
  obtain ⟨_, _, _, _, _, _, _, hfacts⟩ := client_reduceFacts c response now
  obtain ⟨_, _, _, _, hexpiry⟩ := client_reduceExpiry now (reduceFacts c response now) c.selfExpired
  show (reduceExpiry now (reduceFacts c response now) c.selfExpired).client.derpMap = _
  rw [hexpiry, hfacts]

/-- The DERP map that a client holds is its own copy. -/
theorem keeps_copied (p : Policy Sys Frame Choice EnvAct) :
    program.Keeps p fun s _ => cloneDERPMap s.client.derpMap = s.client.derpMap := by
  refine keeps_client (I := fun c => cloneDERPMap c.derpMap = c.derpMap) (fun c now x h => ?_) p
  rcases frame_run c now x with ⟨response, rfl⟩ | hframe
  · have hsame : (Section.run c now (.applyMapResponse response)).client.derpMap = _ :=
      applyMapResponse_view Client.derpMap (fun _ _ => rfl) c response now
    rw [hsame, derpMap_reduceMap]
    cases response.effective.derpMap with
    | none => exact h
    | some update => exact cloneDERPMap_mergeDERPMap _ update
  · have hfacts := hframe.facts
    simp only [Client.mapFacts, Prod.mk.injEq] at hfacts
    rw [hfacts.2.2.2.2.2.1, h]

/-- As long as DERP configurations are handed to the bind in the order in which they were taken, the
bind has the client's whenever none is about to be handed over. -/
theorem relays_current {opts : Options} {privateKey : Option PrivateKey} {cfg : Config Sys Frame}
    (h : program.Reaches (inOrder Frame.relays) (initial opts privateKey) cfg)
    (hidle : ∀ derpMap selfDERP revision,
      .call (.updateDERPMap derpMap selfDERP revision) ∉ cfg.frames)
    {b : Bind} (hb : cfg.shared.bind = some b) :
    b.derpMap = cfg.shared.client.derpMap ∧ b.selfDERP = cfg.shared.client.selfDERP := by
  have hinit : RelaysInStep (initial opts privateKey).shared (initial opts privateKey).frames :=
    ⟨fun p ⟨g, hg, _⟩ => absurd hg (Multiset.notMem_zero _),
      fun b hb => absurd (show none = some b from hb) (by simp)⟩
  have hinStep := (keeps_relaysInStep.invariant h ⟨orderly_initial opts privateKey, hinit⟩).2.inStep b hb
  have hcopied : cloneDERPMap cfg.shared.client.derpMap = cfg.shared.client.derpMap :=
    (keeps_copied _).invariant h rfl
  have hnone : underWay Frame.relays cfg.frames = ∅ := by
    refine Set.eq_empty_of_forall_notMem ?_
    rintro p ⟨g, hg, hp⟩
    obtain ⟨derpMap, selfDERP, revision, rfl, -⟩ := relays_eq_some hp
    exact hidle derpMap selfDERP revision hg
  obtain ⟨hmap, hself⟩ := Prod.mk.inj (hinStep.settled hnone)
  exact ⟨hmap.trans hcopied, hself⟩

/-! ## Particular runs -/

/-- Is no DERP configuration about to be handed over? -/
def noRelays (cfg : Config Sys Frame) : Bool :=
  cfg.threads.all fun stack => stack.all fun f => f.relays.isNone

theorem not_mem_of_noRelays {cfg : Config Sys Frame} (h : noRelays cfg = true)
    (derpMap : Option DERPMap) (selfDERP : Int) (revision : Nat) :
    .call (.updateDERPMap derpMap selfDERP revision) ∉ cfg.frames := by
  intro hmem
  obtain ⟨stack, hstack, hf⟩ := List.mem_flatten.mp (Multiset.mem_coe.mp hmem)
  have hnone := List.all_eq_true.mp (List.all_eq_true.mp h stack hstack) _ hf
  cases hnone

/-- A measurement that makes the second region the home. -/
def secondRegion : DERPLatencyReport :=
  { regions := [{ regionID := 2, latency := 5, source := .stun, time := 1 }], full := false }

/-- The bind is open and has a DERP map. A response with another map and the measurement have been
applied; neither configuration was handed over yet. -/
def takeRelays : Schedule :=
  receiveRelays ++ [.start .bindOpen] ++ steps 8 7 { listen := .ok ⟨.v4 0x0a000001, 41641⟩ } ++
    steps 1 1 { stream := .response (relaysResponse [1, 2, 3]) } ++ steps 1 3 ++
    [.start (.sec (.onDERPLatency secondRegion))] ++ steps 9 5

/-- The home regions of the bind and of the client, and whether both operations have ended. -/
def homeRegions (cfg : Config Sys Frame) : Option Int × Int × Bool :=
  (cfg.shared.bind.map Bind.selfDERP, cfg.shared.client.selfDERP,
    noRelays cfg && (cfg.top 9).isNone && (cfg.top 1).any fun f => match f with
      | .mapStream => true
      | _ => false)

theorem relays_current_inOrder :
    ∃ cfg b, program.Reaches (inOrder Frame.relays) sampleClient cfg ∧
      cfg.shared.bind = some b ∧ b.selfDERP = 2 ∧ b.derpMap = cfg.shared.client.derpMap ∧
      b.selfDERP = cfg.shared.client.selfDERP := by
  have hrun : (program.system.runIf (inOrder Frame.relays).Admits sampleClient
      (takeRelays ++ steps 1 1 ++ steps 9 13 ++ steps 1 1)).map homeRegions =
        some (some 2, 2, true) := by decide +kernel
  obtain ⟨cfg, hreach, hview⟩ := System.exists_reach_of_runIf hrun
  obtain ⟨hhome, -, hended⟩ := by simpa only [homeRegions, Prod.mk.injEq] using hview
  obtain ⟨b, hb, hself⟩ := Option.map_eq_some_iff.mp hhome
  have hidle := not_mem_of_noRelays (by simp only [Bool.and_eq_true] at hended; exact hended.1.1)
  obtain ⟨hmap, hcurrent⟩ := relays_current hreach hidle hb
  exact ⟨cfg, b, hreach, hb, hself, hmap, hcurrent⟩

/-- The measurement is handed over before the response, whose configuration is older: the bind keeps
the first region as its home, while the client has the second. -/
theorem relays_stale :
    ∃ cfg b, program.Reaches .any sampleClient cfg ∧
      (∀ derpMap selfDERP revision,
        .call (.updateDERPMap derpMap selfDERP revision) ∉ cfg.frames) ∧
      cfg.top 9 = none ∧ cfg.top 1 = some .mapStream ∧
      cfg.shared.bind = some b ∧ b.selfDERP = 1 ∧ cfg.shared.client.selfDERP = 2 := by
  have hrun : (program.system.runIf (Policy.any).Admits sampleClient
      (takeRelays ++ steps 9 1 ++ steps 1 1 ++ steps 9 12 ++ steps 1 1)).map homeRegions =
        some (some 1, 2, true) := by decide +kernel
  obtain ⟨cfg, hreach, hview⟩ := System.exists_reach_of_runIf hrun
  obtain ⟨hhome, hclient, hended⟩ := by simpa only [homeRegions, Prod.mk.injEq] using hview
  obtain ⟨b, hb, hself⟩ := Option.map_eq_some_iff.mp hhome
  simp only [Bool.and_eq_true, Option.isNone_iff_eq_none] at hended
  obtain ⟨⟨hidle, hlatency⟩, hmapStream⟩ := hended
  refine ⟨cfg, b, hreach, not_mem_of_noRelays hidle, hlatency, ?_, hb, hself, hclient⟩
  obtain ⟨f, hf, hmatch⟩ := (Option.any_eq_true _ _).mp hmapStream
  cases f with
  | mapStream => exact hf
  | _ => cases hmatch

end WgoTailscale
