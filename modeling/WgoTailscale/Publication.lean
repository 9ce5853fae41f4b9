import WgoTailscale.BindDisco
import WgoTailscale.Ownership

/-!
# The bind follows what is applied

Whenever no loop over peers is under way, the peers of the bind are those that the client has applied
(`BindFollows`, `keeps_bindFollows`). Within the loops the two differ by the key that is being worked
on, and which one is ahead depends on the point of the loop (`ReconcilePhase.InBind`). Together with
the flags of the local states and the ledger of the device this is `applied_agreement`.
-/

namespace WgoTailscale

open FinMap

/-! ## The peers of the bind -/

/-- The peers of `c.bind`; a nil bind has none. -/
def Sys.bindPeers (s : Sys) : Finset NodePublic := s.bind.elim ∅ fun b => b.peers.keys

/-- What a call makes of the peers of a bind. -/
def BindAct.onPeers (peers : Finset NodePublic) : BindAct → Finset NodePublic
  | .create _ => ∅
  | .updatePeer config => insert config.nodeKey peers
  | .removePeer key => peers.erase key
  | .removePeers keys => peers \ keys.toFinset
  | _ => peers

/-- What an effect makes of the peers of the bind. -/
def peersAfter (peers : Finset NodePublic) : Option BindAct → Finset NodePublic
  | none => peers
  | some act => act.onPeers peers

/-- Operations that keep the configurations keep the set of peers. -/
theorem SameDisco.keys {b b' : Bind} (h : SameDisco b b') : b'.peers.keys = b.peers.keys := by
  ext key
  have hsome := congrArg Option.isSome (h.config key)
  rw [Option.isSome_map, Option.isSome_map] at hsome
  rw [← mem_def, ← mem_def, mem_iff, mem_iff,
    ← Option.isSome_iff_exists, ← Option.isSome_iff_exists, hsome]

theorem keys_updatePeer (b : Bind) (config : PeerConfig) :
    (b.updatePeer config).peers.keys = insert config.nodeKey b.peers.keys := by
  rcases updatePeer_cases b config with ⟨state, hget, -, heq⟩ | ⟨state, -, -, heq⟩
  · rw [heq, Finset.insert_eq_of_mem (mem_of_get hget)]
  · rw [heq, replacePeer_peers]
    rfl

theorem keys_removePeer (b : Bind) (key : NodePublic) :
    (b.removePeer key).peers.keys = b.peers.keys.erase key := by
  rw [removePeer_peers]
  rfl

theorem keys_removePeers (b : Bind) (keys : List NodePublic) :
    (keys.foldl Bind.removePeer b).peers.keys = b.peers.keys \ keys.toFinset := by
  induction keys generalizing b with
  | nil => simp
  | cons key keys ih =>
    rw [List.foldl_cons, ih, keys_removePeer]
    ext key'
    simp only [Finset.mem_sdiff, Finset.mem_erase, List.toFinset_cons, Finset.mem_insert]
    tauto

/-- A call to the bind does to its peers what the table says. -/
theorem keys_run (b : Bind) (act : BindAct) :
    ∃ b', act.run (some b) = some b' ∧ b'.peers.keys = act.onPeers b.peers.keys := by
  cases act with
  | create | answerSTUN | recordSTUN | pruneSTUN => exact ⟨_, rfl, rfl⟩
  | updatePeer config => exact ⟨_, rfl, keys_updatePeer b config⟩
  | removePeer key => exact ⟨_, rfl, keys_removePeer b key⟩
  | removePeers keys => exact ⟨_, rfl, keys_removePeers b keys⟩
  | updateDERPMap derpMap selfDERP =>
    refine ⟨_, rfl, ?_⟩
    unfold Bind.updateDERPMap
    dsimp only
    split <;> rfl
  | openBind listen now order interfaces =>
    exact ⟨_, rfl, (sameDisco_openBind b listen now order interfaces).keys⟩
  | shutdown => exact ⟨_, rfl, (sameDisco_closeBind b).keys⟩
  | installLocal generation localEndpoints =>
    refine ⟨_, rfl, ?_⟩
    dsimp only [Bind.refreshLocalEndpoints]
    split <;> rfl

section
variable {s s' : Sys}

/-- A step does to the peers of the bind what the table says; nobody adds a peer to a nil bind. -/
theorem bindPeers_apply {e : Effect} (now : Time)
    (h : ∀ config, e.bind = some (.updatePeer config) → s.bind.isSome = true) :
    (e.apply now s).state.bindPeers = peersAfter s.bindPeers e.bind := by
  unfold Sys.bindPeers
  cases hact : e.bind with
  | none => rw [bind_apply_none hact, peersAfter]
  | some act =>
    rw [bind_apply_some hact]
    cases hbind : s.bind with
    | some b =>
      obtain ⟨b', hrun, hkeys⟩ := keys_run b act
      show (act.run (some b)).elim ∅ _ = _
      rw [hrun]
      exact hkeys
    | none =>
      cases act with
      | updatePeer config =>
        have hsome := h config hact
        rw [hbind] at hsome
        cases hsome
      | removePeers keys => exact (Finset.empty_sdiff _).symm
      | _ => rfl

/-- The environment keeps the peers of the bind. -/
theorem bindPeers_env {a : EnvAct} (h : environment a s = some s') : s'.bindPeers = s.bindPeers := by
  revert h
  fun_cases environment a s <;> intro h <;> cases h
  case case11 op b hb hinternal b' hb' =>
    have hsame : SameDisco b b' := by
      refine exec_sameDisco hb' ?_ ?_
      · rintro config rfl
        cases hinternal
      · rintro key rfl
        cases hinternal
    simp only [Sys.bindPeers, hb, Option.elim_some]
    exact hsame.keys
  case case14 hb _ => simp only [Sys.bindPeers, hb, Option.elim_some]
  all_goals rfl

end

/-! ## Points of the loops -/

/-- The peers of the bind at a point of `reconcilePeers`. -/
def ReconcilePhase.InBind (peers applied : Finset NodePublic) : ReconcilePhase → Prop
  | .removeCommit key _ => peers = applied.erase key
  | .takeOver key _ => key ∈ applied ∧ peers = applied
  | .takeOverBind key _ | .undoBind key _ _ => key ∉ applied ∧ peers = insert key applied
  | .upsertCall key _ | .apply key _ _ => peers = insert key applied
  | _ => peers = applied

/-- The peers of the bind at a point of `removeOwnedPeers`. -/
def RemoveOwnedPhase.InBind (peers applied : Finset NodePublic) : RemoveOwnedPhase → Prop
  | .unlock => peers = applied
  | phase => peers = phase.todo.toFinset

section
variable {s : Sys} {applied : FinMap NodePublic AppliedPeer} {peers : Finset NodePublic}

theorem Reconcile.inBind_turn {r : Reconcile} (hcurrent : r.Current applied)
    (h : r.phase.InBind peers applied.keys) {phase : ReconcilePhase} {changed : Bool}
    {sec : Option Section} {bind : Option BindAct} {device : Option DeviceAct}
    (ht : r.Turn s r.phase phase changed sec bind device) :
    phase.InBind (peersAfter peers bind) (appliedAfter applied sec).keys := by
  obtain ⟨api, desired, snapshot, changed₀, phase₀⟩ := r
  have hmem {key : NodePublic} (hkey : key ∈ phase₀.todo) : key ∈ applied ↔ key ∈ snapshot :=
    hcurrent.mem_iff hkey
  cases ht with
  | removesDone | stillWanted | readOwned | readForeign | deleted | deleteFailed | removed
  | removeReported | upsertsBegin | upsertsDone | conflicted | upserted | upsertReported
  | applied | droppedUnused | announced | silent | visitedNew | visitedOwned | visitedNamed
  | visitedForeign => exact h
  | removedFromBind => exact congrArg (Finset.erase · _) h
  | visitedLost _ _ hget => exact ⟨(hmem List.mem_cons_self).mpr (mem_of_get hget), h⟩
  | takenOver => exact ⟨Finset.notMem_erase _ _, h.2.trans (Finset.insert_erase h.1).symm⟩
  | takenOverInBind | undoneInBind =>
    obtain ⟨hnot, rfl⟩ := h
    exact Finset.erase_insert hnot
  | updatedBind | refreshedBind => exact congrArg (Insert.insert _) h
  | upsertFailed err hget howned =>
    exact h.trans (Finset.insert_eq_of_mem ((hmem List.mem_cons_self).mpr howned))
  | upsertFailedNew err hget hnew => exact ⟨fun hin => hnew ((hmem List.mem_cons_self).mp hin), h⟩
  | skipped needsUpsert hnone hphase => exact (hcurrent.not_skipped hnone hphase).elim

theorem RemoveOwned.inBind_turn {r : RemoveOwned} (hcurrent : r.Current applied)
    (h : r.phase.InBind peers applied.keys) {phase : RemoveOwnedPhase}
    {sec : Option Section} {bind : Option BindAct} {device : Option DeviceAct}
    (ht : r.Turn s r.phase phase sec bind device) :
    phase.InBind (peersAfter peers bind) (appliedAfter applied sec).keys := by
  have hafter := (hcurrent.turn ht).applied
  obtain ⟨api, snapshot, keys, phase₀⟩ := r
  obtain ⟨hkeys, ⟨past, hpast⟩, -⟩ := hcurrent
  cases ht with
  | done | readOwned | readForeign | called => exact h
  | noAPI hapi hphase =>
    rcases hphase with rfl | rfl
    · exact h
    · exact h
  | @removedFromBind key rest =>
    have hnodup : (key :: rest).Nodup := by
      have hall := hkeys.nodup
      rw [hpast] at hall
      exact (List.nodup_append.mp hall).2.1
    have hnot : key ∉ rest.toFinset := by
      rw [List.mem_toFinset]
      exact (List.nodup_cons.mp hnodup).1
    have h : peers = (key :: rest).toFinset := h
    show peers.erase key = rest.toFinset
    rw [h, List.toFinset_cons, Finset.erase_insert hnot]
  | forgotten =>
    show peers = (appliedAfter applied (some (.forgetPeers keys))).keys
    rw [h, show appliedAfter applied (some (.forgetPeers keys)) = ∅ from hafter]
    rfl

end

/-! ## The bind along runs -/

/-- The peers of the bind, given the loop that is under way. -/
def BindFollows (s : Sys) : Option Frame → Prop
  | some (.reconciling r) => r.phase.InBind s.bindPeers s.client.applied.keys
  | some (.removingOwned r) => r.phase.InBind s.bindPeers s.client.applied.keys
  | _ => s.bindPeers = s.client.applied.keys

section
variable {s s' : Sys} {f : Frame} {R : Multiset Frame} {l : Option Frame}

theorem BindFollows.same (h : BindFollows s l) (hpeers : s'.bindPeers = s.bindPeers)
    (happlied : s'.client.applied = s.client.applied) : BindFollows s' l := by
  unfold BindFollows at h ⊢
  rw [hpeers, happlied]
  exact h

/-- A loop with nothing to do leaves the bind as it should be. -/
theorem bindFollows_idle (hl : ∀ g, l = some g → g.Sleeps) (happlied : s.client.applied = ∅) :
    BindFollows s l ↔ s.bindPeers = ∅ := by
  cases l with
  | none => simp [BindFollows, happlied]
  | some g =>
    have hsleeps := hl g rfl
    cases g with
    | reconciling r =>
      obtain ⟨api, desired, applied, changed, phase⟩ := r
      obtain ⟨-, -, -, hphase⟩ := (hsleeps : Reconcile.Idle _)
      unfold BindFollows ReconcilePhase.InBind
      rw [happlied]
      cases phase with
      | removeNext | upsertBegin | upsertNext | dropUnused | announce | unlock => exact Iff.rfl
      | _ => exact hphase.elim
    | removingOwned r =>
      obtain ⟨api, applied, keys, phase⟩ := r
      obtain ⟨-, hphase⟩ := (hsleeps : RemoveOwned.Idle _)
      unfold BindFollows RemoveOwnedPhase.InBind
      rw [happlied]
      cases phase with
      | next keys =>
        cases keys with
        | nil => exact Iff.rfl
        | cons key keys => exact hphase.elim
      | commit | unlock => exact Iff.rfl
      | _ => exact hphase.elim
    | _ => simp [BindFollows, happlied]

/-- Whoever adds a peer finds a bind. -/
theorem isSome_bind_of_awake (h : Orderly s (f ::ₘ R)) (hf : ¬ f.Sleeps) :
    s.bind.isSome = true := by
  refine h.life.installed (Bool.of_not_eq_false fun hruntime => hf ?_)
  exact (h.sleeps (.inl hruntime)).2 f (Multiset.mem_cons_self _ _)

theorem loopInvariant_bindFollows :
    LoopInvariant { run := fun s f R _ => Steady s (f ::ₘ R) } BindFollows where
  other {s f R ch e l} hp he hloop hf hl h := by
    have horderly := hp.orderly
    have happlied := applied_apply_of_not horderly.life he hf
    have hpeers : (e.apply ch.now s).state.bindPeers = peersAfter s.bindPeers e.bind := by
      refine bindPeers_apply ch.now fun config hact => ?_
      obtain ⟨r, rfl⟩ := (traced_effect he).bind _ hact
      cases hloop
    cases hact : e.bind with
    | none =>
      rw [hact] at hpeers
      exact h.same hpeers happlied
    | some act =>
      rw [hact] at hpeers
      have hby := (traced_effect he).bind act hact
      cases act with
      | create cfg =>
        -- the runtime is being installed: nothing is applied yet
        obtain ⟨caller, api, cache, rfl⟩ := hby
        have hruntime := (horderly.life.knows _ (Multiset.mem_cons_self _ _)).2.1
        obtain ⟨hdormant, hsleeps⟩ := horderly.sleeps (.inl hruntime)
        refine (bindFollows_idle (fun g hg => ?_) (happlied.trans hdormant.applied)).mpr hpeers
        subst hg
        exact hsleeps g (Multiset.mem_cons_of_mem hl.1)
      | updatePeer config =>
        obtain ⟨r, rfl⟩ := hby
        cases hloop
      | removePeer key =>
        rcases hby with ⟨r, rfl⟩ | ⟨r, rfl⟩
        · cases hloop
        · cases hloop
      | removePeers keys => exact absurd (.inr hby) hf
      | _ => exact h.same hpeers happlied
  clear {s f R ch} hp _ hkeys h := by
    show Sys.bindPeers _ = FinMap.keys _
    rw [bindPeers_apply ch.now (by simp), applied_apply]
    have hsub : s.bindPeers ⊆ ch.keyOrder.toFinset := by
      intro key hkey
      rw [show s.bindPeers = s.client.applied.keys from h] at hkey
      have hany := (hp.localAgrees key).mp hkey
      rw [List.mem_toFinset, hkeys.mem_iff]
      cases hget : s.client.peerLocal.get key with
      | none =>
        rw [hget] at hany
        cases hany
      | some localState => exact mem_of_get hget
    exact Finset.sdiff_eq_empty_iff_subset.mpr hsub
  reconcileBegin _ _ h := h
  reconcileTurn {s r R ch phase changed sec bind device} hp ht h := by
    show phase.InBind _ _
    rw [bindPeers_apply ch.now, applied_apply]
    · exact Reconcile.inBind_turn (hp.current.reconciling r (Multiset.mem_cons_self _ _)) h ht
    · rintro config rfl
      refine isSome_bind_of_awake hp.orderly fun hsleeps => ?_
      have hphase := (hsleeps : r.Idle).phase
      generalize r.phase = phase₀ at ht hphase
      cases ht with
      | updatedBind | refreshedBind => exact hphase
  reconcileEnd {s r} hphase h := by
    have h : r.phase.InBind _ _ := h
    rw [hphase] at h
    exact h
  removeOwnedBegin {s api keys} hkeys h := by
    show s.bindPeers = keys.toFinset
    rw [show s.bindPeers = s.client.applied.keys from h]
    ext key
    rw [List.mem_toFinset, hkeys.mem_iff]
    rfl
  removeOwnedTurn {s r R ch phase sec bind device errs} hp ht h := by
    show phase.InBind _ _
    rw [bindPeers_apply ch.now, applied_apply]
    · exact RemoveOwned.inBind_turn (hp.current.removing r (Multiset.mem_cons_self _ _)) h ht
    · rintro config rfl
      generalize r.phase = phase₀ at ht
      cases ht
  removeOwnedEnd {s r} hphase h := by
    have h : r.phase.InBind _ _ := h
    rw [hphase] at h
    exact h
  env {s s' a l} _ ha h := h.same (bindPeers_env ha) (congrArg Client.applied (envStep ha).client)

/-- Whenever no loop is under way, the bind has the peers that are applied. -/
theorem keeps_bindFollows : program.Keeps { run := fun s f R _ => Steady s (f ::ₘ R) }
    fun s F => ∀ l, UnderWay F l → BindFollows s l :=
  loopInvariant_bindFollows.keeps fun _ _ _ _ hp => hp.orderly

end

/-! ## Agreement -/

/-- What is applied, where no loop is under way. -/
structure AppliedAgrees (s : Sys) : Prop where
  localState : ∀ key, key ∈ s.client.applied ↔
    (s.client.peerLocal.get key).any PeerLocalState.applied = true
  inBind : ∀ key, key ∈ s.client.applied ↔ key ∈ s.bindPeers
  owned : s.ctl.closed = false → ∀ api, s.usableAPI = some api → ∀ key,
    ownedEndpoint api key s.calls ≠ none → key ∈ s.client.applied

/-- However `reconcilePeers`, `removeOwnedPeers`, the paths of the bind, closing and attaching devices
and the writes of other controllers interleave, and whichever calls to the devices fail: whenever no
loop over peers is under way, a peer is applied if and only if its local state says so and if and only
if the bind has it; and before `Close`, a peer that was upserted on the attached API, and neither
deleted nor lost to another controller since, is applied. An API that is closed has released its
peers, so the last part is about an open one. -/
theorem applied_agreement (opts : Options) (privateKey : Option PrivateKey)
    (acts : List (Act Frame Choice EnvAct)) :
    program.system.Visits (fun cfg => (∀ g ∈ cfg.frames, g.isLoop = false) → AppliedAgrees cfg.shared)
      (initial opts privateKey) acts := by
  have hboth := (keeps_steady .any).known (keeps_bindFollows.both keeps_ledger)
  refine hboth.visits (fun cfg h hidle => ?_) ⟨steady_initial opts privateKey,
    fun l hl => ?_, ledger_initial opts privateKey⟩ acts
  · obtain ⟨hsteady, hbind, hledger⟩ := h
    refine ⟨hsteady.localAgrees, fun key => ?_, fun hopen api husable key howned => ?_⟩
    · rw [show cfg.shared.bindPeers = cfg.shared.client.applied.keys from hbind none hidle]
      exact Iff.rfl
    · exact (hledger none hidle).owned api key hopen husable nofun howned
  · obtain rfl := hl.eq_none
    rfl

/-- The client has published a peer, its device closes, and the watch of the device has ended. -/
def closePublished : Schedule :=
  publishRoutedPeer ++ [.env (.closeDevice 0)] ++ steps 6 14 { keyOrder := [⟨42⟩] }

/-- A closed API is still the attached one, and the peer that the client has upserted on it is not
applied. -/
theorem closed_api_unapplied :
    ∃ cfg, program.Reaches .any sampleClient cfg ∧ (∀ g ∈ cfg.frames, g.isLoop = false) ∧
      cfg.shared.ctl.closed = false ∧ cfg.shared.ctl.deviceAPI = some 0 ∧
      ownedEndpoint 0 ⟨42⟩ cfg.shared.calls ≠ none ∧ ⟨42⟩ ∉ cfg.shared.client.applied := by
  have hrun : (program.system.runIf (Machine.Policy.any).Admits sampleClient closePublished).map
      (fun cfg => (cfg.threads.flatten.all fun f => !f.isLoop, cfg.shared.ctl.closed,
        cfg.shared.ctl.deviceAPI, (ownedEndpoint 0 ⟨42⟩ cfg.shared.calls).isSome,
        cfg.shared.client.applied.get ⟨42⟩)) = some (true, false, some 0, true, none) := by
    decide +kernel
  obtain ⟨cfg, hreach, hview⟩ := System.exists_reach_of_runIf hrun
  simp only [Prod.mk.injEq] at hview
  obtain ⟨hidle, hopen, hattached, howned, hnone⟩ := hview
  refine ⟨cfg, hreach, fun g hg => ?_, hopen, hattached, Option.isSome_iff_ne_none.mp howned,
    not_mem_iff.mpr hnone⟩
  simpa using List.all_eq_true.mp hidle g hg

end WgoTailscale
