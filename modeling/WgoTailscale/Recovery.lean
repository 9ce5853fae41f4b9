import WgoTailscale.Paths

/-!
# Recovery from direct paths

`recoverStaleDirectPaths` marks a peer whose direct path led to no handshake with the endpoint that
failed. By `localStep_run` only a path update that is not direct or names another address ends the
mark, and dropping the local state (`recovering_run`). What a reconciliation publishes is decided by
the local state at its snapshot, so whatever holds of the client along a run decides the endpoint of
every reconciliation that begins in it (`keeps_publishedAt`). `direct_recovery_sticks` says this of
the mark and of the direct path that a later update sets.
-/

namespace WgoTailscale

/-! ## The mark -/

/-- The peer is marked, and the failed endpoint is the one given. -/
def Client.Recovering (c : Client) (key : NodePublic) (failed : AddrPort) : Prop :=
  ∃ localState, c.peerLocal.get key = some localState ∧ localState.directRecovery = true ∧
    localState.recoveryDirect = failed ∧ (localState.path = .direct → localState.direct = failed)

/-- The peer has a direct path to the address, and is not marked. -/
def Client.OnDirect (c : Client) (key : NodePublic) (addr : AddrPort) : Prop :=
  ∃ localState, c.peerLocal.get key = some localState ∧ localState.directRecovery = false ∧
    localState.path = .direct ∧ localState.direct = unmapAddrPort addr

/-- A path update for the peer that is not direct or names another address. -/
def PathUpdate.Leaves (update : PathUpdate) (key : NodePublic) (addr : AddrPort) : Prop :=
  update.nodeKey = key ∧ (update.kind ≠ "direct" ∨ unmapAddrPort update.direct ≠ addr)

/-- What ends the recovery of a peer: an update that leaves the failed endpoint, or dropping the
local state. -/
def Section.EndsRecovery (key : NodePublic) (failed : AddrPort) (c : Client) (now : Time)
    (x : Section) : Prop :=
  (∃ update, x = .onPath update ∧ update.Leaves key failed) ∨
    (x.run c now).client.peerLocal.get key = none

/-- What ends a direct path: also a device that is gone, and the mark. -/
def Section.EndsDirect (key : NodePublic) (addr : AddrPort) (c : Client) (now : Time)
    (x : Section) : Prop :=
  x.EndsRecovery key (unmapAddrPort addr) c now ∨ x = .clearAppliedDevice ∨
    ∃ snapshot localState, x = .recoverStaleDirectPaths snapshot ∧
      c.peerLocal.get key = some localState ∧ c.stalePath snapshot now key localState = true

section
variable {c : Client} {now : Time} {key : NodePublic} {failed addr : AddrPort}

/-- The tick marks a stale path with its address. -/
theorem recovering_recoverStaleDirectPaths {snapshot : NodePublic → Option Bool}
    {localState : PeerLocalState} (hget : c.peerLocal.get key = some localState)
    (hstale : c.stalePath snapshot now key localState = true) :
    (c.recoverStaleDirectPaths snapshot now).client.Recovering key localState.direct := by
  refine ⟨{ localState with directRecovery := true, recoveryDirect := localState.direct }, ?_, rfl,
    rfl, fun _ => rfl⟩
  dsimp only [Client.recoverStaleDirectPaths]
  rw [FinMap.get_mapVals, hget, Option.map_some, if_pos hstale]

/-- An update that names the failed endpoint keeps the mark. -/
theorem updatePath_same (now : Time) (old : PeerLocalState) (update : PathUpdate)
    (hkind : update.kind = "direct") (hdirect : update.direct = old.recoveryDirect) :
    (Client.updatePath old update now).directRecovery = old.directRecovery ∧
      (Client.updatePath old update now).recoveryDirect = old.recoveryDirect := by
  unfold Client.updatePath
  simp only [hkind, hdirect, if_true, ne_eq, not_true_eq_false, or_self, if_false]
  split <;> exact ⟨rfl, rfl⟩

/-- A section keeps the mark unless it ends it. -/
theorem recovering_run {x : Section} (h : c.Recovering key failed)
    (hx : ¬ x.EndsRecovery key failed c now) : (x.run c now).client.Recovering key failed := by
  obtain ⟨localState, hget, hrecovery, hfailed, hpath⟩ := h
  unfold Section.EndsRecovery at hx
  rw [not_or] at hx
  obtain ⟨hupdate, hkept⟩ := hx
  unfold Client.Recovering
  have hstep := localStep_run c now x key
  generalize (x.run c now).client.applied.get key = applied at hstep
  generalize (x.run c now).client.peerLocal.get key = localState' at hstep hkept ⊢
  cases hstep with
  | same => exact ⟨localState, hget, hrecovery, hfailed, hpath⟩
  | failed | published | takenOver =>
    rw [hget]
    exact ⟨_, rfl, hrecovery, hfailed, hpath⟩
  | removed => exact absurd rfl hkept
  | path update hkey =>
    have hsame : update.kind = "direct" ∧ unmapAddrPort update.direct = failed := by
      by_contra hne
      exact hupdate ⟨update, rfl, hkey, not_and_or.mp hne⟩
    obtain ⟨hflag, hmark⟩ := updatePath_same now localState
      { update with direct := unmapAddrPort update.direct } hsame.1 (hsame.2.trans hfailed.symm)
    rw [hget]
    exact ⟨_, rfl, hflag.trans hrecovery, hmark.trans hfailed,
      fun _ => (updatePath_sets now localState _).2.1.trans hsame.2⟩
  | recovered snapshot hold hstale =>
    -- a marked path is not stale
    cases hget.symm.trans hold
    simp [Client.stalePath, hrecovery] at hstale
  | cleared =>
    rw [hget]
    exact ⟨_, rfl, hrecovery, hfailed, nofun⟩

/-- A direct update to another address sets the path, ends the mark and asks for a
reconciliation. -/
theorem onDirect_onPath {update : PathUpdate} (h : c.Recovering update.nodeKey failed)
    (hstop : c.state.isStop = false) (hkind : update.kind = "direct")
    (hother : unmapAddrPort update.direct ≠ failed) :
    (c.onPath update now).client.OnDirect update.nodeKey update.direct ∧
      (c.opts.useDefaultTransportForDirectPeers = true →
        .requestPeerReconcile ∈ (c.onPath update now).calls) := by
  obtain ⟨old, hget, -, hfailed, hpath⟩ := h
  have hchanged : old.path ≠ .direct ∨ old.direct ≠ unmapAddrPort update.direct :=
    or_iff_not_imp_left.mpr fun hdirect heq =>
      hother (heq.symm.trans (hpath (not_not.mp hdirect)))
  unfold Client.onPath
  simp only [hget, Option.isSome_some, Bool.true_or, hkind, if_true, Option.getD_some]
  rw [if_neg (by simp [hstop]), if_neg fun h => h.1 hchanged]
  refine ⟨⟨_, FinMap.get_insert_self _ _ _, ?_⟩, fun huse => ?_⟩
  · unfold Client.updatePath
    simp only [if_true]
    rw [if_pos hchanged, if_pos (.inr (hfailed ▸ hother))]
    exact ⟨rfl, rfl, rfl⟩
  · split
    · exact List.mem_singleton_self _
    · next hnot => exact absurd ⟨huse, hchanged⟩ hnot

theorem updatePath_unmarked {old : PeerLocalState} {update : PathUpdate}
    (h : old.directRecovery = false) :
    (Client.updatePath old update now).directRecovery = false := by
  unfold Client.updatePath
  dsimp only
  repeat' split
  all_goals first
    | exact h
    | rfl

/-- A section keeps the direct path unless it ends it. -/
theorem onDirect_run {x : Section} (h : c.OnDirect key addr) (hx : ¬ x.EndsDirect key addr c now) :
    (x.run c now).client.OnDirect key addr := by
  obtain ⟨localState, hget, hunmarked, hpath, hdirect⟩ := h
  unfold Section.EndsDirect Section.EndsRecovery at hx
  simp only [not_or] at hx
  obtain ⟨⟨hupdate, hkept⟩, hclear, hmark⟩ := hx
  unfold Client.OnDirect
  have hstep := localStep_run c now x key
  generalize (x.run c now).client.applied.get key = applied at hstep
  generalize (x.run c now).client.peerLocal.get key = localState' at hstep hkept ⊢
  cases hstep with
  | same => exact ⟨localState, hget, hunmarked, hpath, hdirect⟩
  | failed | published | takenOver =>
    rw [hget]
    exact ⟨_, rfl, hunmarked, hpath, hdirect⟩
  | removed => exact absurd rfl hkept
  | path update hkey =>
    have hsame : update.kind = "direct" ∧ unmapAddrPort update.direct = unmapAddrPort addr := by
      by_contra hne
      exact hupdate ⟨update, rfl, hkey, not_and_or.mp hne⟩
    obtain ⟨-, hset, hpath⟩ := updatePath_sets now localState
      { update with direct := unmapAddrPort update.direct }
    rw [hget]
    exact ⟨_, rfl, updatePath_unmarked hunmarked, hpath.trans (if_pos hsame.1),
      hset.trans hsame.2⟩
  | recovered snapshot hold hstale => exact absurd ⟨snapshot, _, rfl, hold, hstale⟩ hmark
  | cleared => exact absurd rfl hclear

/-! ## What a reconciliation publishes -/

theorem peerEndpoint_recovering (huse : c.opts.useDefaultTransportForDirectPeers = true)
    (h : c.Recovering key failed) {order : List Int} {wanted : DesiredPeer}
    (hwanted : (c.desired order).get key = some wanted) :
    peerEndpoint c.opts wanted = ⟨c.opts.transportID, key.toText⟩ := by
  obtain ⟨id, node, -, -, rfl, rfl⟩ := wanted_of_desired hwanted
  obtain ⟨localState, hget, hrecovery, -⟩ := h
  have hflag : (c.desiredPeer node).directRecovery = true := by
    show ((c.peerLocal.get node.key).getD {}).directRecovery = true
    rw [hget]
    exact hrecovery
  unfold peerEndpoint
  rw [if_pos huse, if_pos hflag]
  rfl

theorem peerEndpoint_onDirect (huse : c.opts.useDefaultTransportForDirectPeers = true)
    (h : c.OnDirect key addr) (hvalid : (unmapAddrPort addr).isValid = true) {order : List Int}
    {wanted : DesiredPeer} (hwanted : (c.desired order).get key = some wanted) :
    peerEndpoint c.opts wanted = ⟨defaultTransportID, (unmapAddrPort addr).toText⟩ := by
  obtain ⟨id, node, -, -, rfl, rfl⟩ := wanted_of_desired hwanted
  obtain ⟨localState, hget, hunmarked, hpath, hdirect⟩ := h
  have hlocal : (c.peerLocal.get node.key).getD {} = localState := by rw [hget, Option.getD_some]
  unfold peerEndpoint Client.desiredPeer
  simp only [hlocal, hunmarked, hpath, hdirect, unmapAddrPort_unmapAddrPort, hvalid, huse, if_true,
    Bool.false_eq_true, if_false, and_self]

end

/-- From one state on, the peer is published at the endpoint: every reconciliation that takes its
snapshot later wants it there, and every later upsert names it, unless a reconciliation makes it
whose snapshot is older. -/
structure PublishedAt (opts : Options) (key : NodePublic) (endpoint : PeerEndpoint)
    (before : Config Sys Frame) (s : Sys) (F : Multiset Frame) : Prop where
  sameOpts : s.client.opts = opts
  snapshot : ∀ r, .reconciling r ∈ F →
    (∃ r₀, .reconciling r₀ ∈ before.frames ∧ r₀.desired = r.desired) ∨
      ∀ wanted, r.desired.get key = some wanted → peerEndpoint opts wanted = endpoint
  calls : ∃ calls, s.calls = calls ++ before.shared.calls ∧
    ∀ api spec ok, .upsert api spec ok ∈ calls → spec.publicKey = key →
      spec.endpoint = some endpoint ∨ ∃ r₀ wanted, .reconciling r₀ ∈ before.frames ∧
        r₀.desired.get key = some wanted ∧ spec = peerSpecFor opts key wanted

/-- The steps that are none of the given ones. -/
def avoiding (ends : Client → Time → Section → Prop) : Machine.Policy Sys Frame Choice EnvAct where
  run s f _ ch := ∀ e x, effect ch s f = some e → e.sec = some x → ¬ ends s.client ch.now x

section
variable {opts : Options} {key : NodePublic} {endpoint : PeerEndpoint} {I : Client → Prop}
  {before : Config Sys Frame}

/-- What holds until it is ended, holds along a run that avoids that. -/
theorem keeps_avoiding {ends : Client → Time → Section → Prop}
    (hI : ∀ c now x, I c → ¬ ends c now x → I (Section.run c now x).client) :
    program.Keeps (avoiding ends) fun s _ => I s.client :=
  keeps_sections fun _ _ _ _ e x hp he hx h => hI _ _ _ h (hp e x he hx)

/-- A client that wants the peer at the endpoint publishes it there. -/
theorem keeps_publishedAt (hI : ∀ c order wanted, I c → c.opts = opts →
      (c.desired order).get key = some wanted → peerEndpoint opts wanted = endpoint) :
    program.Keeps { run := fun s _ _ _ => I s.client }
      (PublishedAt opts key endpoint before) where
  run s f R ch o h hp ho := by
    have hopts := (keeps_opts opts .any).run s f R ch o h.sameOpts trivial ho
    obtain ⟨e, he, rfl⟩ := Option.map_eq_some_iff.mp ho
    refine ⟨hopts, fun r hr => ?_, ?_⟩
    · rcases reconciling_cases he hr with ⟨r', hr', hdesired⟩ | ⟨api, -, hdesired⟩
      · rw [← hdesired]
        exact h.snapshot r' hr'
      · rw [hdesired]
        exact .inr fun wanted hwanted => hI _ _ _ hp h.sameOpts hwanted
    · obtain ⟨calls, hcalls, hupsert⟩ := h.calls
      cases hact : e.device with
      | none => exact ⟨calls, by simp only [Effect.apply, hact, hcalls], hupsert⟩
      | some act =>
        refine ⟨act.log s :: calls, by simp only [Effect.apply, hact, hcalls, List.cons_append], ?_⟩
        intro api spec ok hmem hkey
        rcases List.mem_cons.mp hmem with hnew | hold
        · have hact : e.device = some (.upsert api spec ok) := by
            cases act <;> cases hnew
            exact hact
          obtain ⟨r, key', wanted, rfl, hwanted, rfl⟩ := upsert_effect he hact
          obtain rfl : key' = key := hkey
          rw [h.sameOpts]
          rcases h.snapshot r (Multiset.mem_cons_self _ _) with ⟨r₀, hr₀, hdesired⟩ | hnamed
          · exact .inr ⟨r₀, wanted, hr₀, hdesired ▸ hwanted, rfl⟩
          · exact .inl (congrArg some (hnamed wanted hwanted))
        · exact hupsert api spec ok hold hkey
  start s F f h _ hf := by
    refine ⟨h.sameOpts, fun r hr => ?_, h.calls⟩
    rcases Multiset.mem_cons.mp hr with rfl | hold
    · cases hf
    · exact h.snapshot r hold
  env s s' F a h _ ha := by
    refine ⟨(envStep ha).client ▸ h.sameOpts, h.snapshot, ?_⟩
    rw [(envStep ha).calls]
    exact h.calls

/-- The two together, from a state on. -/
theorem published_while {ends : Client → Time → Section → Prop}
    (hends : ∀ c now x, I c → ¬ ends c now x → I (Section.run c now x).client)
    (hI : ∀ c order wanted, I c → c.opts = before.shared.client.opts →
      (c.desired order).get key = some wanted →
        peerEndpoint before.shared.client.opts wanted = endpoint)
    {cfg : Config Sys Frame} (h : program.Reaches (avoiding ends) before cfg)
    (hbefore : I before.shared.client) : I cfg.shared.client ∧
      PublishedAt before.shared.client.opts key endpoint before cfg.shared cfg.frames := by
  refine ((keeps_avoiding hends).known (keeps_publishedAt hI)).invariant h ⟨hbefore, rfl, ?_, ?_⟩
  · exact fun r hr => .inl ⟨r, hr, rfl⟩
  · exact ⟨[], rfl, fun _ _ _ hmem => absurd hmem List.not_mem_nil⟩

end

/-- Recovery sticks. With the option set, a peer that `recoverStaleDirectPaths` has marked stays on
the client's named transport along every run in which no update for it leaves the failed endpoint
and its local state is not dropped. A direct update to another address ends the mark and sets the
path, and along every run that does not end that, the peer is on wgo's default transport there. -/
theorem direct_recovery_sticks :
    (∀ (c : Client) now snapshot key localState, c.peerLocal.get key = some localState →
      c.stalePath snapshot now key localState = true →
      (c.recoverStaleDirectPaths snapshot now).client.Recovering key localState.direct) ∧
    (∀ (before cfg : Config Sys Frame) key failed,
      before.shared.client.opts.useDefaultTransportForDirectPeers = true →
      before.shared.client.Recovering key failed →
      program.Reaches (avoiding (Section.EndsRecovery key failed)) before cfg →
      cfg.shared.client.Recovering key failed ∧
        PublishedAt before.shared.client.opts key
          ⟨before.shared.client.opts.transportID, key.toText⟩ before cfg.shared cfg.frames) ∧
    (∀ (c : Client) now failed update, c.Recovering update.nodeKey failed →
      c.state.isStop = false → update.kind = "direct" → unmapAddrPort update.direct ≠ failed →
      (c.onPath update now).client.OnDirect update.nodeKey update.direct ∧
        (c.opts.useDefaultTransportForDirectPeers = true →
          .requestPeerReconcile ∈ (c.onPath update now).calls)) ∧
    ∀ (before cfg : Config Sys Frame) key addr,
      before.shared.client.opts.useDefaultTransportForDirectPeers = true →
      before.shared.client.OnDirect key addr → (unmapAddrPort addr).isValid = true →
      program.Reaches (avoiding (Section.EndsDirect key addr)) before cfg →
      cfg.shared.client.OnDirect key addr ∧
        PublishedAt before.shared.client.opts key
          ⟨defaultTransportID, (unmapAddrPort addr).toText⟩ before cfg.shared cfg.frames := by
  refine ⟨fun c now snapshot key localState hget hstale => ?_,
    fun before cfg key failed huse hmarked hreach => ?_,
    fun c now failed update hmarked hstop hkind hother => ?_,
    fun before cfg key addr huse hdirect hvalid hreach => ?_⟩
  · exact recovering_recoverStaleDirectPaths hget hstale
  · refine published_while (I := fun c => c.Recovering key failed)
      (fun c now x h hx => recovering_run h hx) (fun c order wanted h hopts hwanted => ?_)
      hreach hmarked
    rw [← hopts] at huse ⊢
    exact peerEndpoint_recovering huse h hwanted
  · exact onDirect_onPath hmarked hstop hkind hother
  · refine published_while (I := fun c => c.OnDirect key addr)
      (fun c now x h hx => onDirect_run h hx) (fun c order wanted h hopts hwanted => ?_)
      hreach hdirect
    rw [← hopts] at huse ⊢
    exact peerEndpoint_onDirect huse h hvalid hwanted

/-! ## Particular runs -/

/-- The path that gets no handshake. -/
def failedPath : AddrPort := ⟨.v4 0x05060708, 9⟩

/-- The path that the peer has afterwards. -/
def laterPath : AddrPort := ⟨.v4 0x01020304, 5⟩

/-- The peer is told a path by thread `t`, which makes `n` steps. -/
def takePath (t : Nat) (addr : AddrPort) (n : Nat) : Schedule :=
  [.start (.sec (.onPath ⟨⟨42⟩, "direct", addr, 0, 1⟩))] ++ steps t n

/-- `peerReconciler` publishes the peer. -/
def publishDirectPeer : Schedule :=
  steps 3 3 ++ reconcileDirectPeer 3 [⟨42⟩] 16

/-- The step neither sets a path nor marks one, and keeps the local state of the peer. -/
def keepsPath (cfg : Config Sys Frame) : Act Frame Choice EnvAct → Bool
  | .run t ch => (cfg.top t).all fun f => (effect ch cfg.shared f).all fun e => e.sec.all fun x =>
    (match x with
      | .onPath _ | .clearAppliedDevice | .recoverStaleDirectPaths _ => false
      | _ => true) && ((x.run cfg.shared.client ch.now).client.peerLocal.get ⟨42⟩).isSome
  | _ => true

theorem avoiding_of_keepsPath {cfg : Config Sys Frame} {a : Act Frame Choice EnvAct}
    (addr : AddrPort) (h : keepsPath cfg a = true) :
    (avoiding (Section.EndsDirect ⟨42⟩ addr)).Admits cfg a := by
  cases a with
  | run t ch =>
    intro f hf e x he hx hends
    rw [keepsPath, Option.mem_def.mp hf, Option.all_some, he, Option.all_some, hx, Option.all_some,
      Bool.and_eq_true] at h
    rcases hends with (⟨update, rfl, -⟩ | hnone) | rfl | ⟨_, _, rfl, -⟩
    · cases h.1
    · rw [hnone] at h
      cases h.2
    · cases h.1
    · cases h.1
  | start | env => trivial

/-- Direct peers are put on wgo's default transport, and the peer is on this path, marked or not. -/
def onPeerPath (recovery : Bool) (addr : AddrPort) (cfg : Config Sys Frame) : Bool :=
  cfg.shared.client.opts.useDefaultTransportForDirectPeers &&
    (cfg.shared.client.peerLocal.get ⟨42⟩).any fun localState =>
      localState.directRecovery == recovery && localState.path == .direct &&
      localState.direct == addr && (!recovery || localState.recoveryDirect == addr)

/-- A path gets no handshake and is marked. -/
def markPath : Schedule :=
  receiveDirectPeer ++ takePath 9 failedPath 4 ++ publishDirectPeer ++
    [.run 4 { now := 200 * second, snapshot := fun _ => some false }]

/-- A path without a handshake is marked and given up, and another one is taken; the peer is
published each time. -/
theorem direct_recovery_sticks_published :
    (∃ before cfg : Config Sys Frame,
      program.Reaches (avoiding (Section.EndsRecovery ⟨42⟩ failedPath)) before cfg ∧
        before.shared.calls.length < cfg.shared.calls.length ∧
        cfg.shared.client.Recovering ⟨42⟩ failedPath ∧
        PublishedAt before.shared.client.opts ⟨42⟩ ⟨before.shared.client.opts.transportID,
          NodePublic.toText ⟨42⟩⟩ before cfg.shared cfg.frames) ∧
    ∃ before cfg : Config Sys Frame,
      program.Reaches (avoiding (Section.EndsDirect ⟨42⟩ laterPath)) before cfg ∧
        before.shared.calls.length < cfg.shared.calls.length ∧
        cfg.shared.client.OnDirect ⟨42⟩ laterPath ∧
        PublishedAt before.shared.client.opts ⟨42⟩ ⟨defaultTransportID, laterPath.toText⟩
          before cfg.shared cfg.frames := by
  constructor
  · have hrun : (program.system.run (initial directOptions (some ⟨7⟩)) markPath).map (fun before =>
        (onPeerPath true failedPath before, before.shared.calls.length, (program.system.runIf
          (keepsPath · ·) before (steps 4 1 ++ publishDirectPeer)).map (·.shared.calls.length))) =
      some (true, 4, some 6) := by decide +kernel
    obtain ⟨before, -, hview⟩ := Option.map_eq_some_iff.mp hrun
    simp only [Prod.mk.injEq, onPeerPath, Bool.and_eq_true, Option.any_eq_true, beq_iff_eq,
      and_assoc] at hview
    obtain ⟨huse, ⟨localState, hget, hrecovery, -, haddr, hfailed⟩, hcalls, hview⟩ := hview
    obtain ⟨cfg, hreach, hmore⟩ := System.exists_reach_of_runIf hview
    have hreach : program.Reaches (avoiding (Section.EndsRecovery ⟨42⟩ failedPath)) before cfg :=
      hreach.mono fun cfg a h => by
        have hdirect := avoiding_of_keepsPath failedPath h
        cases a with
        | run t ch => exact fun f hf e x he hx hends => hdirect f hf e x he hx (.inl hends)
        | start | env => trivial
    exact ⟨before, cfg, hreach, by omega, direct_recovery_sticks.2.1 before cfg ⟨42⟩ _ huse
      ⟨localState, hget, hrecovery, beq_iff_eq.mp hfailed, fun _ => haddr⟩ hreach⟩
  · have hrun : (program.system.run (initial directOptions (some ⟨7⟩)) (markPath ++ steps 4 1 ++
        publishDirectPeer ++ takePath 10 laterPath 1)).map (fun before =>
        (onPeerPath false laterPath before, before.shared.calls.length, (program.system.runIf
          (keepsPath · ·) before (steps 10 3 ++ publishDirectPeer)).map (·.shared.calls.length))) =
      some (true, 6, some 8) := by decide +kernel
    obtain ⟨before, -, hview⟩ := Option.map_eq_some_iff.mp hrun
    simp only [Prod.mk.injEq, onPeerPath, Bool.and_eq_true, Option.any_eq_true, beq_iff_eq,
      and_assoc] at hview
    obtain ⟨huse, ⟨localState, hget, hnone, hpath, haddr, -⟩, hcalls, hview⟩ := hview
    obtain ⟨cfg, hreach, hmore⟩ := System.exists_reach_of_runIf hview
    have hreach := hreach.mono fun _ _ => avoiding_of_keepsPath laterPath
    exact ⟨before, cfg, hreach, by omega, direct_recovery_sticks.2.2.2 before cfg ⟨42⟩ _ huse
      ⟨localState, hget, hnone, hpath, haddr⟩ rfl hreach⟩

end WgoTailscale
