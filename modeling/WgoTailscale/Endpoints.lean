import WgoTailscale.BindNetwork
import WgoTailscale.Dormancy
import WgoTailscale.Lib.Delivery

/-!
# The endpoints of the bind

What changes the bind's own endpoints (`Open`, a STUN answer, the pruning of old ones, a refresh of the
local ones) calls `notifyEndpoints` when it has released `b.mu`, which reads the list and then delivers
it to the client. The client has the bind's list whenever none of this is under way, as long as the
lists are delivered in the order in which they were read (`endpoints_current`); in another order the
client is left with an old list (`endpoints_stale`).
-/

namespace WgoTailscale

open Delivery Multiset FinMap

/-! ## The bind's own endpoints -/

/-- The list that a frame is about to deliver, and its number. -/
def Frame.endpoints : Frame → Option (Nat × List EndpointCandidate)
  | .deliverEndpoints endpoints number => some (number, endpoints)
  | _ => none

/-- The endpoints learned by STUN are stored under their addresses. -/
def Bind.STUNKeyed (b : Bind) : Prop := ∀ a e, b.stun.get a = some e → e = ⟨a, .stun⟩

section
variable {b b' : Bind}

theorem currentEndpoints_of_network (h : b'.network = b.network) :
    b'.currentEndpoints = b.currentEndpoints ∧ (b.STUNKeyed → b'.STUNKeyed) := by
  simp only [Bind.network, Prod.mk.injEq] at h
  obtain ⟨hcfg, hlocal, hstun, -, -⟩ := h
  refine ⟨?_, fun hkeyed a e he => hkeyed a e (hstun ▸ he)⟩
  simp only [Bind.currentEndpoints, Bind.endpoints, Bind.endpointsFrom, hcfg, hlocal, hstun]

theorem currentEndpoints_newBind (cfg : BindConfig) : (newBind cfg).currentEndpoints = [] := by
  have hstun (order : List AddrPort) : order.filterMap (newBind cfg).stun.get = [] :=
    List.filterMap_eq_nil_iff.mpr fun _ _ => rfl
  unfold Bind.currentEndpoints
  split
  · rfl
  · unfold Bind.endpoints Bind.endpointsFrom
    rw [hstun]
    rfl

/-- A bind that has just been opened has no STUN endpoints. -/
theorem stunKeyed_openBind {listen : Bind.Listen} {now : Time} {order : List NodePublic}
    {interfaces : List String} (h : b.STUNKeyed) :
    (b.openBind listen now order interfaces).STUNKeyed := by
  rcases openBind_cases b listen now order interfaces with
    ⟨-, closed, heq⟩ | ⟨-, -, conn, localEndpoints, heq⟩
  · rw [heq]
    exact h
  · obtain ⟨-, hnetwork, -⟩ := reopen_keeps (b.installed conn) now order
    simp only [Bind.network, Prod.mk.injEq] at hnetwork
    rw [heq]
    intro a e he
    cases (congrArg (fun stun => stun.get a) hnetwork.2.2.1).symm.trans he

/-- A STUN endpoint that is known changes nothing. -/
theorem recordSTUN_spec (h : b.STUNKeyed) (mapped : AddrPort) (now : Time) :
    (b.recordSTUN mapped now).1.STUNKeyed ∧ ((b.recordSTUN mapped now).2 = false →
      (b.recordSTUN mapped now).1.currentEndpoints = b.currentEndpoints) := by
  constructor
  · intro a e he
    have he : (b.stun.insert mapped ⟨mapped, .stun⟩).get a = some e := he
    rw [get_insert] at he
    split at he
    · next heq =>
      cases he
      rw [heq]
    · exact h a e he
  · intro hknown
    have hmem : mapped ∈ b.stun := by
      have hnot : ¬ mapped ∉ b.stun := of_decide_eq_false hknown
      exact not_not.mp hnot
    obtain ⟨e, he⟩ := mem_iff.mp hmem
    have hsame : b.stun.insert mapped ⟨mapped, .stun⟩ = b.stun :=
      insert_eq_self (h mapped e he ▸ he)
    have hnetwork : (b.recordSTUN mapped now).1.network = b.network := by
      simp only [Bind.network, Bind.recordSTUN, hsame]
    exact (currentEndpoints_of_network hnetwork).1

/-- Pruning that finds nothing changes nothing. -/
theorem pruneSTUN_spec (h : b.STUNKeyed) (now : Time) :
    (b.pruneSTUNEndpoints now).1.STUNKeyed ∧ ((b.pruneSTUNEndpoints now).2 = false →
      (b.pruneSTUNEndpoints now).1.currentEndpoints = b.currentEndpoints) := by
  constructor
  · intro a e he
    have he : (b.stun.filter _).get a = some e := he
    rw [get_filter] at he
    exact h a e (Option.filter_eq_some_iff.mp he).1
  · intro hnone
    have hfresh := any_eq_false.mp hnone
    have hsame : (b.pruneSTUNEndpoints now).1.stun = b.stun := by
      refine ext_get fun a => ?_
      show (b.stun.filter _).get a = _
      rw [get_filter]
      cases hget : b.stun.get a with
      | none => rfl
      | some e =>
        refine Option.filter_some_pos ?_
        cases hat : b.stunAt.get a with
        | none => rfl
        | some observed => exact congrArg not (hfresh a observed hat)
    have hnetwork : (b.pruneSTUNEndpoints now).1.network = b.network := by
      simp only [Bind.network, hsame]
      rfl
    exact (currentEndpoints_of_network hnetwork).1

/-- A refresh that finds nothing new changes nothing. -/
theorem refreshLocal_spec (h : b.STUNKeyed) (generation : Nat) (l : List EndpointCandidate) :
    (b.refreshLocalEndpoints generation l).1.STUNKeyed ∧
      ((b.refreshLocalEndpoints generation l).2 = false →
        (b.refreshLocalEndpoints generation l).1.currentEndpoints = b.currentEndpoints) := by
  unfold Bind.refreshLocalEndpoints
  split
  · exact ⟨h, fun _ => rfl⟩
  · exact ⟨h, nofun⟩

end

section
variable {ch : Choice} {s : Sys} {f : Frame} {e : Effect} {R : Multiset Frame} {b : Bind}

/-- A step that changes the bind's own endpoints goes on with `notifyEndpoints`. -/
theorem endpoints_apply (he : effect ch s f = some e) (hb : s.bind = some b) (hkeyed : b.STUNKeyed)
    (hnot : ∀ cfg, e.bind ≠ some (.create cfg)) :
    ∃ b', (e.apply ch.now s).state.bind = some b' ∧ b'.STUNKeyed ∧
      (b'.currentEndpoints = b.currentEndpoints ∨ .notifyEndpoints ∈ e.frames) := by
  cases hact : e.bind with
  | none => exact ⟨b, (bind_apply_none hact).trans hb, hkeyed, .inl rfl⟩
  | some act =>
    rw [bind_apply_some hact, hb]
    have hby := (traced_effect he).bind act hact
    have hpeers (hp : act.ofPeers = true) : ∃ b', act.run (some b) = some b' ∧ b'.STUNKeyed ∧
        (b'.currentEndpoints = b.currentEndpoints ∨ .notifyEndpoints ∈ e.frames) := by
      have hsame := network_run (some b) hp
      obtain ⟨b', hrun, hnetwork⟩ := Option.map_eq_some_iff.mp hsame
      obtain ⟨hcurrent, hkeyed'⟩ := currentEndpoints_of_network hnetwork
      exact ⟨b', hrun, hkeyed' hkeyed, .inl hcurrent⟩
    cases act with
    | create cfg => exact absurd hact (hnot cfg)
    | updatePeer | removePeer | removePeers | shutdown | answerSTUN => exact hpeers rfl
    | updateDERPMap derpMap selfDERP =>
      refine ⟨_, rfl, ?_⟩
      unfold Bind.updateDERPMap
      dsimp only
      split
      · exact ⟨hkeyed, .inl rfl⟩
      · exact ⟨hkeyed, .inl rfl⟩
    | openBind listen now order interfaces =>
      obtain rfl : f = _ := hby
      refine ⟨_, rfl, stunKeyed_openBind hkeyed, ?_⟩
      have he : openEffect ch s = some e := he
      dsimp only [openEffect] at he
      rw [hb] at he
      dsimp only at he
      split at he
      · split at he
        · cases he
          exact .inr List.mem_cons_self
        · next hnotOpened =>
          cases he
          cases hact
          obtain ⟨-, -, -, hopened | hnetwork⟩ :=
            b.network_openBind ch.listen ch.now ch.keyOrder ch.interfaces rfl
          · exact absurd hopened hnotOpened
          · exact .inl (currentEndpoints_of_network hnetwork).1
      · cases he
    | recordSTUN mapped now =>
      obtain rfl : f = _ := hby
      refine ⟨_, rfl, (recordSTUN_spec hkeyed mapped now).1, ?_⟩
      dsimp only [effect] at he
      rw [hb] at he
      split at he
      · cases he
        exact .inr List.mem_cons_self
      · next hknown =>
        cases he
        cases hact
        exact .inl ((recordSTUN_spec hkeyed mapped _).2 (Bool.eq_false_iff.mpr hknown))
    | pruneSTUN now =>
      obtain rfl : f = _ := hby
      refine ⟨_, rfl, (pruneSTUN_spec hkeyed now).1, ?_⟩
      have he : kickEffect ch s = some e := he
      dsimp only [kickEffect] at he
      rw [hb] at he
      dsimp only at he
      split at he
      · cases he
        cases hact
      · split at he
        · cases he
          exact .inr List.mem_cons_self
        · next hnone =>
          cases he
          cases hact
          exact .inl ((pruneSTUN_spec hkeyed _).2 (Bool.eq_false_iff.mpr hnone))
    | installLocal generation localEndpoints =>
      obtain rfl : f = _ := hby
      refine ⟨_, rfl, (refreshLocal_spec hkeyed generation localEndpoints).1, ?_⟩
      dsimp only [effect] at he
      rw [hb] at he
      split at he
      · cases he
        exact .inr List.mem_cons_self
      · next hsame =>
        exact .inl ((refreshLocal_spec hkeyed generation localEndpoints).2 (Bool.eq_false_iff.mpr hsame))

/-! ## Deliveries -/

/-- Every list on its way was read before now. The latest of them is the bind's, unless another one is
about to be read; before there is a bind there are no endpoints. -/
structure EndpointsInStep (s : Sys) (F : Multiset Frame) : Prop where
  taken : ∀ p ∈ underWay Frame.endpoints F, p.1 ≤ s.ctl.notified
  absent : s.bind = none → s.client.endpoints = [] ∧ underWay Frame.endpoints F = ∅
  created : s.bind.isSome = true → s.ctl.runtimeStarted = true ∨
    ∃ caller api cache, .initializing caller api (.install cache) ∈ F
  keyed : ∀ b, s.bind = some b → b.STUNKeyed
  inStep : ∀ b, s.bind = some b → .notifyEndpoints ∈ F ∨
    InStep b.currentEndpoints s.client.endpoints (underWay Frame.endpoints F)

theorem endpoints_eq_some {p : Nat × List EndpointCandidate} (h : f.endpoints = some p) :
    f = .deliverEndpoints p.2 p.1 := by
  unfold Frame.endpoints at h
  split at h
  · cases h
    rfl
  · cases h

/-- Lists are read by `notifyEndpoints`. -/
theorem mem_endpoints_apply (he : effect ch s f = some e) {p : Nat × List EndpointCandidate}
    (hp : p ∈ underWay Frame.endpoints ((e.apply ch.now s).frames + R)) :
    (f = .notifyEndpoints ∧ p.1 = s.ctl.notified + 1 ∧ ∃ b, s.bind = some b ∧ p.2 = b.currentEndpoints) ∨
      p ∈ underWay Frame.endpoints R := by
  rcases mem_underWay_add.mp hp with ⟨g, hg, hpg⟩ | hold
  · obtain rfl := endpoints_eq_some hpg
    rcases mem_frames_apply.mp hg with ⟨ev, -, heq⟩ | ⟨c, -, heq⟩ | hframe
    · cases heq
    · cases heq
    · exact .inl ((traced_effect he).calls _ hframe)
  · exact .inr hold

/-- Only `notifyEndpoints` adds a list. -/
theorem underWay_endpoints_apply (he : effect ch s f = some e) (hf : f ≠ .notifyEndpoints) :
    underWay Frame.endpoints ((e.apply ch.now s).frames + R) = underWay Frame.endpoints R := by
  ext p
  exact ⟨fun hp => (mem_endpoints_apply he hp).resolve_left fun h => hf h.1,
    fun hp => mem_underWay_add.mpr (.inr hp)⟩

/-- The client has the endpoints that were last delivered to it. -/
theorem client_endpoints_apply (hlife : Lifecycle s (f ::ₘ R)) (he : effect ch s f = some e)
    (hf : f.endpoints = none) :
    (e.apply ch.now s).state.client.endpoints = s.client.endpoints := by
  show (e.done ch.now s.client).client.endpoints = _
  rcases done_cases e ch.now s.client with ⟨-, hdone⟩ | ⟨x, hx, hdone⟩
  · rw [hdone]
  · rw [hdone]
    refine (sectionStep_run s.client ch.now x).endpoints.resolve_right fun heq => ?_
    rw [heq] at hx
    rcases (traced_effect he).sec _ hx with rfl | ⟨number, rfl⟩
    · cases hlife.knows _ (mem_cons_self _ _)
    · cases hf

/-- There is no bind before `initializeRuntime` has created one. -/
theorem bind_none_of_create (h : EndpointsInStep s (f ::ₘ R)) (horderly : Orderly s (f ::ₘ R))
    (he : effect ch s f = some e) {cfg : BindConfig} (hcreate : e.bind = some (.create cfg)) :
    s.bind = none := by
  obtain ⟨caller, api, cache, rfl⟩ := (traced_effect he).bind _ hcreate
  have hruntime := (horderly.life.knows _ (mem_cons_self _ _)).2.1
  cases hbind : s.bind with
  | none => rfl
  | some b =>
    rcases h.created (by rw [hbind]; rfl) with hstarted | ⟨caller', api', cache', hinstall⟩
    · rw [hruntime] at hstarted
      cases hstarted
    · rcases mem_cons.mp hinstall with heq | hR
      · cases heq
      · exact absurd List.mem_cons_self
          (horderly.locks.alone (ℓ := .life) nofun List.mem_cons_self hR)

theorem created_apply (h : EndpointsInStep s (f ::ₘ R)) (he : effect ch s f = some e)
    (hsome : (e.apply ch.now s).state.bind.isSome = true) : e.ctl.runtimeStarted = true ∨
      ∃ caller api cache, .initializing caller api (.install cache) ∈ (e.apply ch.now s).frames + R := by
  have hold (hsome : s.bind.isSome = true) : e.ctl.runtimeStarted = true ∨
      ∃ caller api cache,
        .initializing caller api (.install cache) ∈ (e.apply ch.now s).frames + R := by
    rcases (traced_effect he).ctl.runtimeStarted with hsame | ⟨-, hstarted⟩
    · rcases h.created hsome with hstarted | ⟨caller, api, cache, hinstall⟩
      · exact .inl (hsame.trans hstarted)
      · rcases mem_cons.mp hinstall with rfl | hR
        · cases he
          exact .inl rfl
        · exact .inr ⟨caller, api, cache, mem_add.mpr (.inr hR)⟩
    · exact .inl hstarted
  cases hact : e.bind with
  | none =>
    rw [bind_apply_none hact] at hsome
    exact hold hsome
  | some act =>
    rw [bind_apply_some hact] at hsome
    by_cases hcreate : ∃ cfg, act = .create cfg
    · obtain ⟨cfg, rfl⟩ := hcreate
      obtain ⟨caller, api, cache, rfl⟩ := (traced_effect he).bind _ hact
      have he : initEffect ch s caller api (.transport cache) = some e := he
      dsimp only [initEffect] at he
      split at he
      · cases he
        exact .inr ⟨caller, api, cache, mem_add.mpr (.inl
          (mem_frames_apply.mpr (.inr (.inr List.mem_cons_self))))⟩
      · cases he
        cases hact
    · refine hold ?_
      cases hbind : s.bind with
      | some b => rfl
      | none =>
        rw [hbind] at hsome
        cases act with
        | create cfg => exact absurd ⟨cfg, rfl⟩ hcreate
        | _ => cases hsome

/-- A list is delivered. -/
theorem EndpointsInStep.delivered {endpoints : List EndpointCandidate} {number : Nat}
    (h : EndpointsInStep s (.deliverEndpoints endpoints number ::ₘ R))
    (he : effect ch s (.deliverEndpoints endpoints number) = some e)
    (horder : (inOrder Frame.endpoints : Machine.Policy Sys Frame Choice EnvAct).run s
      (.deliverEndpoints endpoints number) R ch) :
    EndpointsInStep (e.apply ch.now s).state ((e.apply ch.now s).frames + R) := by
  have hway := underWay_endpoints_apply (R := R) he nofun
  have hcreated := created_apply h he
  cases he
  refine ⟨fun p hp => ?_, fun hnone => ?_, hcreated, h.keyed, fun b hb => ?_⟩
  · rw [hway] at hp
    exact h.taken p (mem_underWay_cons.mpr (.inr hp))
  · have hmem : (number, endpoints) ∈
        underWay Frame.endpoints (.deliverEndpoints endpoints number ::ₘ R) :=
      mem_underWay_cons.mpr (.inl rfl)
    rw [(h.absent hnone).2] at hmem
    exact absurd hmem (Set.notMem_empty _)
  · rw [hway]
    rcases h.inStep b hb with hnotify | hinStep
    · rcases mem_cons.mp hnotify with heq | hR
      · cases heq
      · exact .inl (mem_add.mpr (.inr hR))
    · exact .inr (hinStep.deliver rfl horder)

/-- A list is read. -/
theorem EndpointsInStep.read (h : EndpointsInStep s (.notifyEndpoints ::ₘ R))
    (he : effect ch s .notifyEndpoints = some e) :
    EndpointsInStep (e.apply ch.now s).state ((e.apply ch.now s).frames + R) := by
  have hcreated := created_apply h he
  have hway (p : Nat × List EndpointCandidate) := mem_endpoints_apply (R := R) he (p := p)
  have hlatest : ∀ p ∈ underWay Frame.endpoints ((e.apply ch.now s).frames + R),
      p.1 ≤ s.ctl.notified + 1 := by
    intro p hp
    rcases hway p hp with ⟨-, hnumber, -⟩ | hold
    · exact hnumber.le
    · exact (h.taken p (mem_underWay_cons.mpr (.inr hold))).trans (Nat.le_succ _)
  have he : notifyEffect s = some e := he
  dsimp only [notifyEffect] at he
  split at he
  · next hnone =>
    cases he
    obtain ⟨hempty, hnothing⟩ := h.absent hnone
    rw [underWay_cons_none rfl] at hnothing
    have hstill (p : Nat × List EndpointCandidate) :
        p ∉ underWay Frame.endpoints ((Effect.apply { ctl := s.ctl } ch.now s).frames + R) := by
      intro hp
      rcases hway p hp with ⟨-, -, b, hb, -⟩ | hold
      · cases hnone.symm.trans hb
      · rw [hnothing] at hold
        exact Set.notMem_empty _ hold
    have hnobody {b : Bind} (hb : s.bind = some b) : False := by cases hnone.symm.trans hb
    exact ⟨fun p hp => absurd hp (hstill p),
      fun _ => ⟨hempty, Set.eq_empty_of_forall_notMem hstill⟩, hcreated,
      fun b hb => (hnobody hb).elim, fun b hb => (hnobody hb).elim⟩
  · next b hb =>
    cases he
    refine ⟨hlatest, fun hnone => ?_, hcreated, h.keyed, fun b' hb' => .inr ?_⟩
    · cases hb.symm.trans hnone
    · cases hb.symm.trans hb'
      refine inStep_of_taken (mem_underWay_add.mpr (.inl ?_)) hlatest
      exact ⟨.deliverEndpoints b.currentEndpoints (s.ctl.notified + 1),
        mem_frames_apply.mpr (.inr (.inr List.mem_cons_self)), rfl⟩

/-- Any other step. -/
theorem EndpointsInStep.other (h : EndpointsInStep s (f ::ₘ R)) (horderly : Orderly s (f ::ₘ R))
    (he : effect ch s f = some e) (hf : f.endpoints = none) (hne : f ≠ .notifyEndpoints) :
    EndpointsInStep (e.apply ch.now s).state ((e.apply ch.now s).frames + R) := by
  have hway := underWay_endpoints_apply (R := R) he hne
  have hclient := client_endpoints_apply horderly.life he hf
  have hnotified : e.ctl.notified = s.ctl.notified :=
    (traced_effect he).ctl.notified.resolve_right fun hn => hne hn.1
  have htaken : ∀ p ∈ underWay Frame.endpoints ((e.apply ch.now s).frames + R),
      p.1 ≤ e.ctl.notified := by
    intro p hp
    rw [hway] at hp
    rw [hnotified]
    exact h.taken p (mem_underWay_cons.mpr (.inr hp))
  have habsent := h.absent
  have hinStep := h.inStep
  rw [underWay_cons_none hf, ← hway, ← hclient] at habsent
  simp only [underWay_cons_none hf, ← hway, ← hclient] at hinStep
  by_cases hcreate : ∃ cfg, e.bind = some (.create cfg)
  · -- a new bind has no endpoints, and the client had none
    obtain ⟨cfg, hcreate⟩ := hcreate
    have hnew : (e.apply ch.now s).state.bind = some (newBind cfg) := bind_apply_some hcreate
    obtain ⟨hempty, hnothing⟩ := habsent (bind_none_of_create h horderly he hcreate)
    refine ⟨htaken, fun hnone => ?_, created_apply h he, fun b hb => ?_, fun b hb => .inr (.inl ?_)⟩
    · cases hnew.symm.trans hnone
    · cases hnew.symm.trans hb
      intro a e he
      cases he
    · cases hnew.symm.trans hb
      exact ⟨hnothing, hempty.trans (currentEndpoints_newBind cfg).symm⟩
  · have hnot (cfg : BindConfig) : e.bind ≠ some (.create cfg) := fun heq => hcreate ⟨cfg, heq⟩
    cases hbind : s.bind with
    | none =>
      have hnone : (e.apply ch.now s).state.bind = none := by
        cases hact : e.bind with
        | none => exact (bind_apply_none hact).trans hbind
        | some act =>
          rw [bind_apply_some hact, hbind]
          cases act with
          | create cfg => exact absurd hact (hnot cfg)
          | _ => rfl
      refine ⟨htaken, fun _ => habsent hbind, created_apply h he, fun b hb => ?_, fun b hb => ?_⟩
      · cases hnone.symm.trans hb
      · cases hnone.symm.trans hb
    | some b =>
      obtain ⟨b', hb', hkeyed, hcurrent⟩ := endpoints_apply he hbind (h.keyed b hbind) hnot
      refine ⟨htaken, fun hnone => ?_, created_apply h he, fun b₁ hb₁ => ?_, fun b₁ hb₁ => ?_⟩
      · cases hb'.symm.trans hnone
      · cases hb'.symm.trans hb₁
        exact hkeyed
      · cases hb'.symm.trans hb₁
        rcases hcurrent with hsame | hnotify
        · rcases hinStep b hbind with hnotify | hstep
          · rcases mem_cons.mp hnotify with heq | hR
            · exact absurd heq.symm hne
            · exact .inl (mem_add.mpr (.inr hR))
          · rw [hsame]
            exact .inr hstep
        · exact .inl (mem_add.mpr (.inl (mem_frames_apply.mpr
            (.inr (.inr (List.mem_append_left _ hnotify))))))

theorem keeps_endpointsInStep :
    program.Keeps (inOrder Frame.endpoints) fun s F => Orderly s F ∧ EndpointsInStep s F := by
  refine (keeps_orderly _).and ⟨?_, ?_, ?_⟩
  · rintro s f R ch o h ⟨horder, horderly⟩ ho
    obtain ⟨e, he, rfl⟩ := Option.map_eq_some_iff.mp ho
    cases hf : f.endpoints with
    | some p =>
      obtain rfl := endpoints_eq_some hf
      exact h.delivered he horder
    | none =>
      by_cases hnotify : f = .notifyEndpoints
      · subst hnotify
        exact h.read he
      · exact h.other horderly he hf hnotify
  · intro s F f h _ hentry
    have hf : f.endpoints = none := by
      cases hf : f.endpoints with
      | none => rfl
      | some p =>
        obtain rfl := endpoints_eq_some hf
        cases hentry
    refine ⟨?_, ?_, fun hsome => ?_, h.keyed, fun b hb => ?_⟩
    · rw [underWay_cons_none hf]
      exact h.taken
    · rw [underWay_cons_none hf]
      exact h.absent
    · exact (h.created hsome).imp_right fun ⟨caller, api, cache, hmem⟩ =>
        ⟨caller, api, cache, mem_cons_of_mem hmem⟩
    · rw [underWay_cons_none hf]
      exact (h.inStep b hb).imp_left mem_cons_of_mem
  · intro s s' F a h _ ha
    obtain ⟨hclient, -, hctl, -, hbind⟩ := envStep ha
    have hnotified : s'.ctl.notified = s.ctl.notified := by rw [hctl]
    have hruntime : s'.ctl.runtimeStarted = s.ctl.runtimeStarted := by rw [hctl]
    have hnetwork := network_env ha
    have hsame {b' : Bind} (hb' : s'.bind = some b') :
        ∃ b, s.bind = some b ∧ b'.network = b.network := by
      rw [hb', Option.map_some] at hnetwork
      obtain ⟨b, hb, heq⟩ := Option.map_eq_some_iff.mp hnetwork.symm
      exact ⟨b, hb, heq.symm⟩
    refine ⟨hnotified ▸ h.taken, fun hnone => ?_, ?_, fun b' hb' => ?_, fun b' hb' => ?_⟩
    · rw [hclient]
      refine h.absent ?_
      rw [hnone, Option.isSome_none] at hbind
      exact Option.isSome_eq_false_iff.mp hbind.symm |> Option.isNone_iff_eq_none.mp
    · rw [hbind, hruntime]
      exact h.created
    · obtain ⟨b, hb, heq⟩ := hsame hb'
      exact (currentEndpoints_of_network heq).2 (h.keyed b hb)
    · obtain ⟨b, hb, heq⟩ := hsame hb'
      rw [hclient, (currentEndpoints_of_network heq).1]
      exact h.inStep b hb

end

/-- As long as the bind's lists are delivered in the order in which they were read, the client has the
bind's whenever none is about to be read or delivered. -/
theorem endpoints_current {opts : Options} {privateKey : Option PrivateKey} {cfg : Config Sys Frame}
    (h : program.Reaches (inOrder Frame.endpoints) (initial opts privateKey) cfg)
    (hread : .notifyEndpoints ∉ cfg.frames)
    (hdelivered : ∀ endpoints number, .deliverEndpoints endpoints number ∉ cfg.frames)
    {b : Bind} (hb : cfg.shared.bind = some b) :
    cfg.shared.client.endpoints = b.currentEndpoints := by
  have hnothing : underWay Frame.endpoints (initial opts privateKey).frames = ∅ :=
    Set.eq_empty_of_forall_notMem fun p ⟨g, hg, _⟩ => notMem_zero _ hg
  have hnobody (b : Bind) (hb : (initial opts privateKey).shared.bind = some b) : False :=
    absurd (show none = some b from hb) (by simp)
  have hinit : EndpointsInStep (initial opts privateKey).shared (initial opts privateKey).frames :=
    ⟨fun p hp => absurd (hnothing ▸ hp) (Set.notMem_empty _), fun _ => ⟨rfl, hnothing⟩,
      fun hsome => absurd hsome Bool.false_ne_true, fun b hb => (hnobody b hb).elim,
      fun b hb => (hnobody b hb).elim⟩
  have hinStep := (keeps_endpointsInStep.invariant h
    ⟨orderly_initial opts privateKey, hinit⟩).2.inStep b hb
  refine (hinStep.resolve_left hread).settled (Set.eq_empty_of_forall_notMem ?_)
  rintro p ⟨g, hg, hp⟩
  obtain rfl := endpoints_eq_some hp
  exact hdelivered p.2 p.1 hg

/-! ## Particular runs -/

/-- Is no list about to be read or delivered? -/
def noEndpoints (cfg : Config Sys Frame) : Bool :=
  cfg.threads.all fun stack => stack.all fun f => match f with
    | .notifyEndpoints | .deliverEndpoints _ _ => false
    | _ => true

theorem not_mem_of_noEndpoints {cfg : Config Sys Frame} (h : noEndpoints cfg = true) :
    .notifyEndpoints ∉ cfg.frames ∧
      ∀ endpoints number, .deliverEndpoints endpoints number ∉ cfg.frames := by
  have hall {f : Frame} (hf : f ∈ cfg.frames) :=
    let ⟨stack, hstack, hf⟩ := List.mem_flatten.mp (mem_coe.mp hf)
    List.all_eq_true.mp (List.all_eq_true.mp h stack hstack) f hf
  exact ⟨fun hmem => absurd (hall hmem) Bool.false_ne_true,
    fun endpoints number hmem => absurd (hall hmem) Bool.false_ne_true⟩

/-- The local endpoint, and the one that a STUN server sees. -/
def localEndpoint : EndpointCandidate := ⟨⟨.v4 0x0a000001, 41641⟩, .local⟩
def stunEndpoint : EndpointCandidate := ⟨⟨.v4 0x01020304, 5⟩, .stun⟩

/-- The bind has a DERP map, was opened, and a STUN server has answered; both lists were read. -/
def readEndpoints : Schedule :=
  receiveRelays ++ [.start .bindOpen] ++ steps 8 2 { listen := .ok localEndpoint.addr } ++
    [.env (.querySTUN ⟨1⟩ ⟨1, 1, 1⟩), .start (.handleSTUN ⟨1⟩ stunEndpoint.addr)] ++ steps 9 3

/-- The endpoints of the client and of the bind, and whether both operations have ended. -/
def bothEndpoints (cfg : Config Sys Frame) :
    List EndpointCandidate × Option (List EndpointCandidate) × Bool :=
  (cfg.shared.client.endpoints, cfg.shared.bind.map Bind.currentEndpoints,
    noEndpoints cfg && (cfg.top 8).isNone && (cfg.top 9).isNone)

theorem endpoints_current_inOrder :
    ∃ cfg b, program.Reaches (inOrder Frame.endpoints) sampleClient cfg ∧
      cfg.shared.bind = some b ∧ b.currentEndpoints = [stunEndpoint, localEndpoint] ∧
      cfg.shared.client.endpoints = b.currentEndpoints := by
  have hrun : (program.system.runIf (inOrder Frame.endpoints).Admits sampleClient
      (readEndpoints ++ steps 8 5 ++ steps 9 4)).map bothEndpoints =
      some ([stunEndpoint, localEndpoint], some [stunEndpoint, localEndpoint], true) := by
    decide +kernel
  obtain ⟨cfg, hreach, hview⟩ := System.exists_reach_of_runIf hrun
  obtain ⟨-, hbind, hended⟩ := by simpa only [bothEndpoints, Prod.mk.injEq] using hview
  obtain ⟨b, hb, hcurrent⟩ := Option.map_eq_some_iff.mp hbind
  simp only [Bool.and_eq_true] at hended
  obtain ⟨hread, hdelivered⟩ := not_mem_of_noEndpoints hended.1.1
  exact ⟨cfg, b, hreach, hb, hcurrent, endpoints_current hreach hread hdelivered hb⟩

/-- The list with the STUN endpoint is delivered before the older one without it, with which the
client is left. -/
theorem endpoints_stale :
    ∃ cfg b, program.Reaches .any sampleClient cfg ∧ .notifyEndpoints ∉ cfg.frames ∧
      (∀ endpoints number, .deliverEndpoints endpoints number ∉ cfg.frames) ∧
      cfg.top 8 = none ∧ cfg.top 9 = none ∧
      cfg.shared.bind = some b ∧ b.currentEndpoints = [stunEndpoint, localEndpoint] ∧
      cfg.shared.client.endpoints = [localEndpoint] := by
  have hrun : (program.system.runIf (Machine.Policy.any).Admits sampleClient
      (readEndpoints ++ steps 9 4 ++ steps 8 5)).map bothEndpoints =
      some ([localEndpoint], some [stunEndpoint, localEndpoint], true) := by
    decide +kernel
  obtain ⟨cfg, hreach, hview⟩ := System.exists_reach_of_runIf hrun
  obtain ⟨hclient, hbind, hended⟩ := by simpa only [bothEndpoints, Prod.mk.injEq] using hview
  obtain ⟨b, hb, hcurrent⟩ := Option.map_eq_some_iff.mp hbind
  simp only [Bool.and_eq_true, Option.isNone_iff_eq_none] at hended
  obtain ⟨⟨hidle, hopened⟩, hanswered⟩ := hended
  obtain ⟨hread, hdelivered⟩ := not_mem_of_noEndpoints hidle
  exact ⟨cfg, b, hreach, hread, hdelivered, hopened, hanswered, hb, hcurrent, hclient⟩

end WgoTailscale
