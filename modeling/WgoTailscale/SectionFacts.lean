import WgoTailscale.ReducerFacts
import WgoTailscale.ReducerWrites

/-!
# What a critical section does

Facts that hold of every section, established once over all of them: revisions only grow and the
events of a section carry the revision it ends with; the DERP configuration and the home region only
change together with a call that hands both to the bind; the endpoints are those last delivered; and
whoever changes the endpoints or the preferred region tells the updater (`sectionStep_run`). Only a
map response writes what came with the map (`frame_run`).
-/

namespace WgoTailscale

/-- What a section does to revisions, to the DERP configuration and to the endpoints. -/
structure SectionStep (c : Client) (x : Section) (d : Done) : Prop where
  opts : d.client.opts = c.opts
  revision : c.revision ≤ d.client.revision
  events : ∀ e ∈ d.events, e.revision = d.client.revision
  networkRevision : d.client.networkRevision = c.networkRevision ∨
    d.client.networkRevision = d.client.revision ∧ c.revision < d.client.revision
  derp : SameDERP c d.client ∨
    .updateDERPMap (cloneDERPMap d.client.derpMap) d.client.selfDERP d.client.revision ∈ d.calls
  derpCall : ∀ m home rev, .updateDERPMap m home rev ∈ d.calls →
    m = cloneDERPMap d.client.derpMap ∧ home = d.client.selfDERP ∧ rev = d.client.revision ∧
      c.revision < rev
  endpoints : d.client.endpoints = c.endpoints ∨ x = .onEndpoints d.client.endpoints
  published : (d.client.endpoints = c.endpoints ∧ d.client.preferredDERP = c.preferredDERP) ∨
    .signalEndpointUpdate ∈ d.calls
  authenticated : d.client.authenticated = c.authenticated ∨ ∃ response, x = .registered response
  nodePrivate : d.client.nodePrivate = c.nodePrivate ∨
    ∃ cache, x = .runtimeInstalled d.client.nodePrivate cache

section
variable (c : Client) (now : Time)

theorem sectionStep_applyMapResponse (response : MapResponse) :
    SectionStep c (.applyMapResponse response) (c.applyMapResponse response now) := by
  have hred := reduces_reduceMap response.effective now c
  unfold Client.applyMapResponse
  dsimp only
  generalize reduceMap c response.effective now = r at hred ⊢
  have hsame := hred.untouched
  simp only [Client.untouched, Prod.mk.injEq] at hsame
  obtain ⟨hopts, hrevision, hnetwork, -, -, -, -, hauth, hkey, -, hendpoints⟩ := hsame
  split
  · next hkinds =>
    refine ⟨hopts, hrevision.ge, by simp, .inl hnetwork, .inl ?_, fun m home rev hmem => ?_,
      .inl hendpoints, .inl ⟨hendpoints, ?_⟩, .inl hauth, .inl hkey⟩
    · exact (hred.derp.resolve_right fun h => h.2 hkinds).2
    · rcases List.mem_append.mp hmem with h | h
      · split at h
        · split at h <;> simp at h
        · simp at h
      · split at h <;> simp at h
    · exact (hred.preferred.resolve_right fun h => h.2 hkinds).2
  · next hkinds =>
    have hbump : c.revision < (r.stamp now).revision := by
      show c.revision < r.client.revision + 1
      omega
    refine ⟨hopts, hbump.le, by simp, ?_, ?_, fun m home rev hmem => ?_, .inl hendpoints, ?_,
      .inl hauth, .inl hkey⟩
    · by_cases hannounce : r.announces
      · exact .inr ⟨if_pos hannounce, hbump⟩
      · exact .inl ((if_neg hannounce).trans hnetwork)
    · rcases hred.derp with ⟨-, hderp⟩ | ⟨hflag, -⟩
      · exact .inl hderp
      · exact .inr (by simp [hflag])
    · simp only [List.mem_append] at hmem
      rcases hmem with ((h | h) | h) | h
      · split at h
        · split at h <;> simp at h
        · simp at h
      · split at h
        · obtain ⟨rfl, rfl, rfl⟩ := Call.updateDERPMap.inj (List.mem_singleton.mp h)
          exact ⟨rfl, rfl, rfl, hbump⟩
        · simp at h
      · split at h <;> simp at h
      · split at h <;> simp at h
    · rcases hred.preferred with ⟨-, hpreferred⟩ | ⟨hflag, -⟩
      · exact .inl ⟨hendpoints, hpreferred⟩
      · exact .inr (by simp [hflag])

theorem sectionStep_onDERPLatency (report : DERPLatencyReport) :
    SectionStep c (.onDERPLatency report) (c.onDERPLatency report now) := by
  unfold Client.onDERPLatency
  split
  · exact ⟨rfl, le_rfl, by simp, .inl rfl, .inl ⟨rfl, rfl⟩, by simp, .inl rfl, .inl ⟨rfl, rfl⟩,
      .inl rfl, .inl rfl⟩
  dsimp only
  generalize (if c.opts.disableDERP = true then (0 : Int) else _) = preferred
  generalize report.regions.foldl _ _ = measured
  by_cases hpreferred : preferred = c.preferredDERP
  · subst hpreferred
    have hsame : ∀ c' : Client, c'.derpMap = c.derpMap → c'.preferredDERP = c.preferredDERP →
        c'.self = c.self → SameDERP c c' := by
      intro c' hmap hpref hself
      exact ⟨hmap, by simp only [Client.selfDERP, hpref, hself]⟩
    simp only [ne_eq, not_true_eq_false, if_false, or_false]
    split
    · exact ⟨rfl, le_rfl, by simp, .inl rfl, .inl (hsame _ rfl rfl rfl), by simp, .inl rfl,
        .inl ⟨rfl, rfl⟩, .inl rfl, .inl rfl⟩
    · exact ⟨rfl, Nat.le_succ _, by simp, .inl rfl, .inl (hsame _ rfl rfl rfl), by simp, .inl rfl,
        .inl ⟨rfl, rfl⟩, .inl rfl, .inl rfl⟩
  · simp only [ne_eq, hpreferred, not_false_eq_true, if_true, or_true, not_true_eq_false, if_false]
    refine ⟨rfl, Nat.le_succ _, by simp, .inl rfl, .inr List.mem_cons_self, fun m home rev hmem => ?_,
      .inl rfl, .inr (by simp), .inl rfl, .inl rfl⟩
    simp only [List.mem_cons, List.not_mem_nil, or_false, reduceCtorEq] at hmem
    obtain ⟨rfl, rfl, rfl⟩ := Call.updateDERPMap.inj hmem
    exact ⟨rfl, rfl, rfl, Nat.lt_succ_self _⟩

end

/-! ## What the sections leave alone -/

/-- What a section makes of the applied peers. -/
def Section.onApplied (applied : FinMap NodePublic AppliedPeer) :
    Section → FinMap NodePublic AppliedPeer
  | .peerRemoved key | .peerTakenOver key => applied.erase key
  | .peerApplied key desiredApplied => applied.insert key desiredApplied
  | .clearAppliedDevice => ∅
  | .forgetPeers keys => applied.eraseAll keys
  | _ => applied

/-- What a section other than `applyMapResponse` makes of the state. -/
def Section.onState (c : Client) : Section → State
  | .reportError _ state => state.getD c.state
  | .setInteraction kind _ _ =>
    if kind = .nodeKeyExpired then .degraded else .needsAuthentication
  | .setTerminalError _ => .degraded
  | .reportClosedDevice => if c.state.isStop then c.state else .degraded
  | .restoreStateAfterDeviceAttach =>
    if c.state.isStop then c.state
    else if c.lastError = c.opts.packages.errDeviceClosed then
      if c.authenticated then .running
      else if c.interaction.isSome then .needsAuthentication else .starting
    else c.state
  | .registered _ => .running
  | .startBegin => .starting
  | .startFailed => .new
  | .closeStopping => .stopping
  | .closeUnstarted | .closeStopped _ => .stopped
  | _ => c.state

/-- What only a map response writes. -/
def Client.mapFacts (c : Client) :=
  (c.self, c.peers, c.dns, c.namedFilters, c.filters, c.derpMap, c.dnsRevision, c.aclRevision)

/-- What a section other than `applyMapResponse` makes of the client: it leaves alone what came with the
map, and sets the applied peers and the state as described. -/
@[mk_iff] structure Section.Leaves (c : Client) (x : Section) (c' : Client) : Prop where
  facts : c'.mapFacts = c.mapFacts
  applied : c'.applied = x.onApplied c.applied
  state : c'.state = x.onState c
  views : (∀ report, x ≠ .onDERPLatency report) → c'.viewData = c.viewData ∧
    (x ≠ .startBegin ∧ x ≠ .startFailed → c'.info.preferredDERP = c.info.preferredDERP)

/-- Every section but the two that measure relays and apply a map is as described, and leaves alone what
a map writes. -/
theorem plain_run (c : Client) (now : Time) (x : Section) :
    (∃ response, x = .applyMapResponse response) ∨ (∃ report, x = .onDERPLatency report) ∨
      SectionStep c x (x.run c now) ∧ x.Leaves c (x.run c now).client := by
  cases x with
  | applyMapResponse response => exact .inl ⟨response, rfl⟩
  | onDERPLatency report => exact .inr (.inl ⟨report, rfl⟩)
  | _ =>
    refine .inr (.inr ?_)
    dsimp only [Section.run, Client.confirmPeer, Client.revokePeerConfirmation,
      Client.confirmationChanged, Client.syncConfirmedCache, Client.onEndpoints, Client.onPath,
      Client.recoverStaleDirectPaths, Client.reportError,
      Client.setInteraction, Client.setTerminalError, Client.resumeInteraction,
      Client.reportClosedDevice, Client.restoreStateAfterDeviceAttach, Client.registered,
      Client.startBegin, Client.startFailed, Client.runtimeInstalled, Client.closeUnstarted,
      Client.closeStopping, Client.closeStopped, Client.setPeerError, Client.peerRemoved,
      Client.peerTakenOver, Client.peerApplied, Client.dropUnused, Client.announcePeers,
      Client.clearAppliedDevice, Client.forgetPeers, Client.bump, Client.event]
    rw [Section.leaves_iff]
    dsimp only [Section.onApplied, Section.onState]
    repeat' split
    all_goals refine ⟨?_, ?_⟩
    all_goals first
      | exact ⟨rfl, rfl, rfl, fun _ => ⟨rfl, fun _ => rfl⟩⟩
      | exact ⟨rfl, rfl, rfl, fun _ => ⟨rfl, fun h => absurd rfl h.1⟩⟩
      | exact ⟨rfl, rfl, rfl, fun _ => ⟨rfl, fun h => absurd rfl h.2⟩⟩
      | constructor
    all_goals first
      | exact rfl
      | exact Nat.le_refl _
      | exact Nat.le_succ _
      | exact List.forall_mem_nil _
      | exact List.forall_mem_singleton.mpr rfl
      | exact List.forall_mem_cons.mpr ⟨rfl, List.forall_mem_singleton.mpr rfl⟩
      | exact .inl rfl
      | exact .inl ⟨rfl, rfl⟩
      | exact .inr ⟨rfl, Nat.lt_succ_self _⟩
      | exact .inr rfl
      | exact .inr ⟨_, rfl⟩
      | simp

/-- Every section is as described. -/
theorem sectionStep_run (c : Client) (now : Time) (x : Section) : SectionStep c x (x.run c now) := by
  rcases plain_run c now x with ⟨response, rfl⟩ | ⟨report, rfl⟩ | ⟨hstep, -⟩
  · exact sectionStep_applyMapResponse c now response
  · exact sectionStep_onDERPLatency c now report
  · exact hstep

/-- Every section applies a map response or leaves alone what one writes. -/
theorem frame_run (c : Client) (now : Time) (x : Section) :
    (∃ response, x = .applyMapResponse response) ∨ x.Leaves c (x.run c now).client := by
  rcases plain_run c now x with hmap | ⟨report, rfl⟩ | ⟨-, hleaves⟩
  · exact .inl hmap
  · refine .inr ?_
    dsimp only [Section.run, Client.onDERPLatency, Client.bump]
    repeat' split
    all_goals exact ⟨rfl, rfl, rfl, fun h => absurd rfl (h report)⟩
  · exact .inr hleaves

/-- Apart from revisions, a response leaves the client that the reducer makes. -/
theorem applyMapResponse_view {α : Sort*} (view : Client → α)
    (hview : ∀ (r : Reduction) now, view (r.stamp now) = view r.client) (c : Client)
    (response : MapResponse) (now : Time) : view (c.applyMapResponse response now).client =
      view (reduceMap c response.effective now).client := by
  unfold Client.applyMapResponse
  dsimp only
  split
  · rfl
  · exact hview _ now

/-! ## The state -/

/-- The self node once a response is applied. -/
def Client.selfAfter (c : Client) (response : MapResponse) : Option Node :=
  match response.effective.node with
  | none => c.self
  | some node => some (cloneControlNode node)

/-- Control's time once a response is applied, carried forward. -/
def Client.expiryAfter (c : Client) (response : MapResponse) (now : Time) : Time :=
  match response.effective.controlTime with
  | none => c.expiryNow now
  | some value =>
    if c.controlTime = some value then c.expiryNow now else if now = 0 then now else value

/-- Does a response find the self node expired, or past its expiry? -/
def Client.expiresSelf (c : Client) (response : MapResponse) (now : Time) : Bool :=
  (c.selfAfter response).any fun node => node.expired ||
    (decide (node.keyExpiry ≠ 0) && decide (node.keyExpiry ≤ c.expiryAfter response now))

section
variable (c : Client) (response : MapResponse) (now : Time)

theorem reduceMap_eq : reduceMap c response now =
    (reduceFacts c response now |> reduceMarkSelf now |> reduceSelfExpiry c.selfExpired now
      |> reducePeerExpiry now |> reduceRecovered) := rfl

/-- Until then the state is kept, and the self node and control's time are those of the response. -/
theorem reduceFacts_spec :
    (reduceFacts c response.effective now).client.state = c.state ∧
      (reduceFacts c response.effective now).client.self = c.selfAfter response ∧
      (reduceFacts c response.effective now).client.expiryNow now = c.expiryAfter response now := by
  obtain ⟨_, _, _, _, _, _, _, hfacts⟩ := client_reduceFacts c response.effective now
  rw [hfacts]
  refine ⟨rfl, ?_, ?_⟩
  · unfold Client.selfAfter
    cases response.effective.node <;> rfl
  · unfold Client.expiryNow Client.controlTimeAtAfter Client.expiryAfter
    cases response.effective.controlTime with
    | none => rfl
    | some value =>
      by_cases hsame : c.controlTime = some value
      · simp [hsame, Client.expiryNow]
      · by_cases hnow : now = 0 <;> simp [hsame, hnow]

theorem state_markSelf (r : Reduction) :
    (reduceMarkSelf now r).client.state = r.client.state := by
  rw [client_reduceMarkSelf]

/-- The self node is expired after it was looked at if it was expired, or is past its expiry. -/
theorem selfExpired_markSelf (r : Reduction) : (reduceMarkSelf now r).client.selfExpired =
    r.client.self.any fun node => node.expired ||
      (decide (node.keyExpiry ≠ 0) && decide (node.keyExpiry ≤ r.client.expiryNow now)) := by
  rw [Client.selfExpired, client_reduceMarkSelf, Option.any_map]
  refine congrArg (r.client.self.any ·) (funext fun node => ?_)
  dsimp only [Function.comp_apply, markNodeExpired]
  split
  · next h =>
    rcases h with h | h | h
    · simp [h]
    · simp [h]
    · simp [not_le.mpr h]
  · next h =>
    simp only [not_or, not_lt, Bool.not_eq_true] at h
    simp [h.2.1, h.2.2]

theorem self_selfExpiry (selfWasExpired : Bool) (r : Reduction) :
    (reduceSelfExpiry selfWasExpired now r).client.self = r.client.self := by
  obtain ⟨_, _, _, _, hclient⟩ := client_reduceSelfExpiry now r selfWasExpired
  rw [hclient]

theorem self_recovered (r : Reduction) : (reduceRecovered r).client.self = r.client.self := by
  obtain ⟨_, _, hclient⟩ := client_reduceRecovered r
  rw [hclient]

/-- The state is only written when the self node is expired. -/
theorem state_selfExpiry (selfWasExpired : Bool) (r : Reduction) :
    (reduceSelfExpiry selfWasExpired now r).client.state = r.client.state ∨
      (reduceSelfExpiry selfWasExpired now r).client.state = .degraded ∧
        r.client.selfExpired = true := by
  unfold reduceSelfExpiry
  split
  · next hexpired =>
    refine .inr ⟨?_, hexpired⟩
    dsimp only
    split <;> split
    · next h => exact h
    · rfl
    · next h => exact h
    · rfl
  · split <;> exact .inl rfl

theorem state_recovered (r : Reduction) :
    (reduceRecovered r).client.state = r.client.state ∨
      r.client.state = .degraded ∧ (reduceRecovered r).client.state = .running := by
  unfold reduceRecovered
  split
  · next h => exact .inr ⟨h.1, rfl⟩
  · exact .inl rfl

/-- A response writes the state only to degrade the client or to call it running again, and leaves a
shut down client alone unless it finds the self node expired. -/
theorem state_reduceMap :
    ((reduceMap c response.effective now).client.state = c.state ∨
      (reduceMap c response.effective now).client.state.isStop = false) ∧
    (c.state.isStop = true → c.expiresSelf response now = false →
      (reduceMap c response.effective now).client.state = c.state) := by
  obtain ⟨hstate, hself, hexpiry⟩ := reduceFacts_spec c response now
  rw [reduceMap_eq]
  generalize reduceFacts c response.effective now = r at hstate hself hexpiry ⊢
  have hmark : (reduceMarkSelf now r).client.selfExpired = c.expiresSelf response now := by
    rw [selfExpired_markSelf, hself, hexpiry]
    rfl
  have hmarkState := (state_markSelf now r).trans hstate
  generalize reduceMarkSelf now r = r₁ at hmark hmarkState ⊢
  have hexpire := state_selfExpiry now c.selfExpired r₁
  generalize reduceSelfExpiry c.selfExpired now r₁ = r₂ at hexpire ⊢
  have hpeers : (reducePeerExpiry now r₂).client.state = r₂.client.state := by
    rw [client_reducePeerExpiry]
  generalize reducePeerExpiry now r₂ = r₃ at hpeers ⊢
  have hrecover := state_recovered r₃
  rw [hpeers] at hrecover
  rw [hmarkState, hmark] at hexpire
  constructor
  · rcases hrecover with heq | ⟨-, heq⟩
    · rcases hexpire with heq' | ⟨heq', -⟩
      · exact .inl (heq.trans heq')
      · exact .inr (by rw [heq, heq']; rfl)
    · exact .inr (by rw [heq]; rfl)
  · intro hstop hnot
    have heq' : r₂.client.state = c.state :=
      hexpire.resolve_right fun h => absurd h.2 (by rw [hnot]; exact Bool.false_ne_true)
    refine (hrecover.resolve_right fun h => ?_).trans heq'
    rw [heq'] at h
    rw [h.1] at hstop
    cases hstop

/-- The state that a section ends in: a shut down one only if it was one, or if the section shuts the
client down. -/
theorem isStop_run {x : Section}
    (hx : ∀ err state, x = .reportError err (some state) → state = .degraded)
    (h : (x.run c now).client.state.isStop = true) :
    c.state.isStop = true ∨ x = .closeUnstarted ∨ x = .closeStopping ∨ ∃ errs, x = .closeStopped errs := by
  rcases frame_run c now x with ⟨response, rfl⟩ | hframe
  · have hstate : ((Section.applyMapResponse response).run c now).client.state = _ :=
      applyMapResponse_view Client.state (fun _ _ => rfl) c response now
    rw [hstate] at h
    rcases (state_reduceMap c response now).1 with heq | hnot
    · exact .inl (heq ▸ h)
    · rw [hnot] at h
      cases h
  rw [hframe.state] at h
  cases x with
  | reportError err state =>
    cases state with
    | none => exact .inl h
    | some state =>
      obtain rfl := hx err state rfl
      cases h
  | closeUnstarted => exact .inr (.inl rfl)
  | closeStopping => exact .inr (.inr (.inl rfl))
  | closeStopped errs => exact .inr (.inr (.inr ⟨errs, rfl⟩))
  | _ =>
    refine .inl ?_
    revert h
    dsimp only [Section.onState]
    repeat' split
    all_goals first
      | exact id
      | exact fun h => absurd h Bool.false_ne_true

end

end WgoTailscale
