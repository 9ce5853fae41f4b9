import WgoTailscale.Convergence
import WgoTailscale.FullMaps

/-!
# Full maps that come again (`map.go`)

A full map is applied twice in a row, at one instant, while no other operation is in progress and
the calls to the device succeed. The second time nothing happens, as long as the expiry check leaves
the nodes of the map alone and no wanted peer is disputed (`repeated_map_silent_iff`): the client,
the bind, the devices and the hub are as before, no event is published, and the device is only read.

After the section of the first application the client mirrors the map; after its `reconcilePeers`
the device, the bind and the local states have what is wanted (`Settled`). The second application
then finds nothing to do at any of its points (`FullMap.Again`).
-/

namespace WgoTailscale

open FinMap

/-! ## Applying a map alone -/

/-- `applyMapResponse` is called: after a mismatch of node keys nothing is applied. -/
def Sys.applyFrames (s : Sys) (response : MapResponse) : List Frame :=
  if s.client.nodeKeyMismatch response then [] else [.sec (.applyMapResponse response)]

/-- One goroutine is about to apply a full map, and no other operation is in progress. -/
def FullMap.applying (m : FullMap) (s : Sys) : Config Sys Frame := ⟨s, [s.applyFrames m.response]⟩

/-- Reading a specification. -/
def DeviceCall.isRead : DeviceCall → Bool
  | .peerSpec _ _ _ => true
  | _ => false

/-- The peers that are wanted after a full map: those it lists, or those there are if it has no
list, whose keys have not expired. -/
def FullMap.Wants (m : FullMap) (c : Client) (now : Time) (node : Node) : Prop :=
  (∃ id, (m.peersFrom c.peers).get id = some node) ∧ c.wants node = true ∧
    ¬ Due node.keyExpiry (c.expiryNow now)

/-- No wanted peer is disputed on an API: no two have the same key, and what the device has under the
key of one is what the client applied or, if it applied nothing, names the client's transport. -/
structure FullMap.UndisputedOn (m : FullMap) (s : Sys) (now : Time) (api : Nat) : Prop where
  keys : ∀ node node', m.Wants s.client now node → m.Wants s.client now node' →
    node.key = node'.key → node = node'
  device : ∀ node, m.Wants s.client now node →
    (s.keyState api node.key).Free s.client.opts (s.client.applied.get node.key)

/-- If the map is not refused and makes `reconcilePeers` run, and there is an API to use, no wanted
peer is disputed. -/
def FullMap.Undisputed (m : FullMap) (s : Sys) (now : Time) : Prop :=
  s.client.nodeKeyMismatch m.response = false →
    (reduceMap s.client m.response now).reconcileRequested = true →
    ∀ api, s.usableAPI = some api → m.UndisputedOn s now api

/-! ## What the parts of an application keep -/

/-- The fields that only sections of other operations write. -/
def Client.kept (c : Client) :=
  (c.opts, c.state, c.lastError, c.interaction, c.confirmed, c.self, c.peers, c.users, c.dns,
    c.namedFilters, c.derpMap, c.domain, c.health, c.controlTime, c.controlTimeAt, c.preferredDERP,
    c.nodePrivate)

/-- What `reconcilePeers` reads of the local state of a peer. -/
def Client.pathAt (c : Client) (key : NodePublic) :=
  let local' := (c.peerLocal.get key).getD {}
  (local'.path, local'.direct, local'.directRecovery)

section
variable {c c' : Client} {m : FullMap} {t now : Time} {key : NodePublic} {wanted : DesiredPeer}

theorem Mirrors.congr (h : Mirrors m t c) (hkept : c'.kept = c.kept) : Mirrors m t c' := by
  simp only [Client.kept, Prod.mk.injEq] at hkept
  obtain ⟨-, hstate, hlast, hinteraction, -, hself, hpeers, husers, hdns, hfilters, hderp, hdomain,
    hhealth, -⟩ := hkept
  have hexpired : c'.selfExpired = c.selfExpired := congrArg (Option.any _) hself
  refine ⟨hself ▸ h.node, hpeers ▸ h.peers, hderp ▸ h.derpMap, hdns ▸ h.dns, hfilters ▸ h.filter,
    husers ▸ h.users, hdomain ▸ h.domain, hhealth ▸ h.health, hself ▸ h.selfMarked,
    hpeers ▸ h.peersMarked, ?_, ?_⟩
  · rw [hexpired, hstate, hlast]
    exact h.expired
  · rw [hexpired, hstate, hinteraction]
    exact h.recovered

/-- The same peers are wanted if their local states say the same about their paths. -/
theorem wantedAt_congr (hkept : c'.kept = c.kept)
    (hpath : ∀ key wanted, c.WantedAt key wanted → c'.pathAt key = c.pathAt key) :
    c'.WantedAt key wanted ↔ c.WantedAt key wanted := by
  simp only [Client.kept, Prod.mk.injEq] at hkept
  obtain ⟨hopts, -, -, -, hconfirmed, -, hpeers, -, -, -, -, -, -, -, -, hhome, -⟩ := hkept
  have hwants (node : Node) : c'.wants node = c.wants node := by
    unfold Client.wants
    rw [hopts, hconfirmed]
  have hdesired {id : Int} {node : Node} (hget : c.peers.get id = some node)
      (hwant : c.wants node = true) : c'.desiredPeer node = c.desiredPeer node := by
    have hsame := hpath node.key _ ⟨id, node, hget, hwant, rfl, rfl⟩
    simp only [Client.pathAt, Prod.mk.injEq] at hsame
    obtain ⟨hkind, hdirect, hrecovery⟩ := hsame
    unfold Client.desiredPeer
    dsimp only
    rw [hkind, hdirect, hrecovery, hhome]
  unfold Client.WantedAt
  rw [hpeers]
  refine exists_congr fun id => exists_congr fun node => and_congr_right fun hget => ?_
  rw [hwants]
  refine and_congr_right fun hwant => and_congr_right fun _ => ?_
  rw [hdesired hget hwant]

end

/-- What `reconcilePeers` works with is as it was. -/
structure SameKeys (s s' : Sys) : Prop where
  kept : s'.client.kept = s.client.kept
  locals : s'.client.peerLocal = s.client.peerLocal
  usable : s'.usableAPI = s.usableAPI
  states : ∀ api key, s'.keyState api key = s.keyState api key

/-- Nothing was done, but that specifications were read. -/
structure Unchanged (s s' : Sys) : Prop where
  client : s'.client = s.client
  hub : s'.hub = s.hub
  bind : s'.bind = s.bind
  devices : s'.devices = s.devices
  attached : s'.ctl.deviceAPI = s.ctl.deviceAPI
  calls : ∃ reads, s'.calls = reads ++ s.calls ∧ ∀ call ∈ reads, call.isRead = true

section
variable {s s' : Sys}

theorem Unchanged.trans {s₁ s₂ : Sys} (h : Unchanged s s₁) (h' : Unchanged s₁ s₂) :
    Unchanged s s₂ := by
  obtain ⟨reads, hcalls, hreads⟩ := h.calls
  obtain ⟨reads', hcalls', hreads'⟩ := h'.calls
  refine ⟨h'.client.trans h.client, h'.hub.trans h.hub, h'.bind.trans h.bind,
    h'.devices.trans h.devices, h'.attached.trans h.attached, reads' ++ reads, ?_,
    fun call hcall => ?_⟩
  · rw [hcalls', hcalls, List.append_assoc]
  · exact (List.mem_append.mp hcall).elim (hreads' call) (hreads call)

/-- What has nothing to do still has nothing to do. -/
theorem Unchanged.sameKeys (h : Unchanged s s') : SameKeys s s' where
  kept := congrArg Client.kept h.client
  locals := congrArg Client.peerLocal h.client
  usable := by
    unfold Sys.usableAPI Sys.isClosed
    rw [h.attached, h.devices]
  states api key := by
    unfold Sys.keyState Sys.peerSpec
    rw [h.devices, h.client, h.bind]

/-- A step that goes on without a section, a call or an event changes nothing. -/
theorem unchanged_apply {ctl : Control} {frames : List Frame}
    (hctl : ctl.deviceAPI = s.ctl.deviceAPI) (now : Time) :
    Unchanged s (Effect.apply { ctl, frames } now s).state :=
  ⟨rfl, rfl, rfl, rfl, hctl, [], rfl, nofun⟩

end

/-- What the application of a map calls beside `reconcilePeers`: the publishing of its events, the
DERP map of the bind and what that leads to, and the wake of the endpoint updater. -/
def Frame.isBeside : Frame → Bool
  | .publish _ | .publishing _ _ | .call (.updateDERPMap _ _ _) | .call .signalEndpointUpdate
  | .kickDiscovery | .notifyEndpoints | .deliverEndpoints _ _ | .deviceRUnlock => true
  | _ => false

section
variable {ch : Choice} {s : Sys} {f : Frame} {e : Effect}

theorem sameKeys_apply
    (hsec : e.sec = none ∨ ∃ endpoints, e.sec = some (.onEndpoints endpoints))
    (hdevice : e.device = none) (hctl : e.ctl.deviceAPI = s.ctl.deviceAPI)
    (hbind : e.bind = none ∨ (∃ derpMap selfDERP, e.bind = some (.updateDERPMap derpMap selfDERP)) ∨
      ∃ now, e.bind = some (.pruneSTUN now))
    (now : Time) : SameKeys s (e.apply now s).state := by
  have hclient : (e.apply now s).state.client.kept = s.client.kept ∧
      (e.apply now s).state.client.peerLocal = s.client.peerLocal ∧
      (e.apply now s).state.client.applied = s.client.applied := by
    show (e.done now s.client).client.kept = _ ∧ (e.done now s.client).client.peerLocal = _ ∧
      (e.done now s.client).client.applied = _
    unfold Effect.done
    rcases hsec with hsec | ⟨endpoints, hsec⟩
    · rw [hsec]
      exact ⟨rfl, rfl, rfl⟩
    · rw [hsec]
      exact ⟨rfl, rfl, rfl⟩
  have hdevices : (e.apply now s).state.devices = s.devices := devices_apply_none hdevice
  have hconfig (key : NodePublic) : (e.apply now s).state.bind.map (fun b =>
      (b.peers.get key).map PeerState.config) = s.bind.map fun b =>
      (b.peers.get key).map PeerState.config := by
    rcases hbind with hact | ⟨derpMap, selfDERP, hact⟩ | ⟨now, hact⟩
    · rw [bind_apply_none hact]
    · rw [bind_apply_some hact]
      cases s.bind with
      | none => rfl
      | some b =>
        dsimp only [BindAct.run, Option.map_some]
        unfold Bind.updateDERPMap
        dsimp only
        split <;> rfl
    · rw [bind_apply_some hact]
      cases s.bind <;> rfl
  refine ⟨hclient.1, hclient.2.1, ?_, fun api key => KeyState.ext ?_ ?_ (hconfig key)⟩
  · show Option.filter _ e.ctl.deviceAPI = _
    unfold Sys.usableAPI Sys.isClosed
    rw [hctl, hdevices]
  · show Option.bind _ _ = Option.bind _ _
    rw [hdevices]
  · exact congrArg (get · key) hclient.2.2

/-- An effect without a section or a call to the device. -/
theorem beside_of_plain (hsec : e.sec = none) (hdevice : e.device = none)
    (hctl : e.ctl.deviceAPI = s.ctl.deviceAPI)
    (hbind : e.bind = none ∨ (∃ derpMap selfDERP, e.bind = some (.updateDERPMap derpMap selfDERP)) ∨
      ∃ now, e.bind = some (.pruneSTUN now))
    (hspawned : e.spawned = []) (hframes : e.frames.all Frame.isBeside = true) (now : Time) :
    SameKeys s (e.apply now s).state ∧ e.spawned = [] ∧
      (e.apply now s).calls.all Frame.isBeside = true := by
  refine ⟨sameKeys_apply (.inl hsec) hdevice hctl hbind now, hspawned, ?_⟩
  show ((e.done now s.client).events.map Frame.publish ++
    (e.done now s.client).calls.map Frame.call ++ e.frames).all Frame.isBeside = true
  unfold Effect.done
  rw [hsec]
  exact hframes

/-- Such a frame leaves what `reconcilePeers` works with alone, and calls only others like it. -/
theorem beside_effect (hf : f.isBeside = true) (he : effect ch s f = some e) :
    SameKeys s (e.apply ch.now s).state ∧ e.spawned = [] ∧
      (e.apply ch.now s).calls.all Frame.isBeside = true := by
  cases f with
  | publish event =>
    have he : publishEffect ch s event = some e := he
    unfold publishEffect at he
    split at he <;> cases he <;> exact beside_of_plain rfl rfl rfl (.inl rfl) rfl rfl _
  | publishing event phase =>
    have he : publishingEffect s event phase = some e := he
    unfold publishingEffect at he
    split at he <;> cases he <;> exact beside_of_plain rfl rfl rfl (.inl rfl) rfl rfl _
  | call c =>
    have he : callEffect ch s c = some e := he
    cases c with
    | updateDERPMap derpMap selfDERP revision =>
      dsimp only [callEffect, goOn] at he
      repeat' split at he
      all_goals cases he
      · exact beside_of_plain rfl rfl rfl (.inl rfl) rfl rfl _
      · exact beside_of_plain rfl rfl rfl (.inl rfl) rfl rfl _
      · exact beside_of_plain rfl rfl rfl (.inr (.inl ⟨_, _, rfl⟩)) rfl rfl _
    | signalEndpointUpdate =>
      cases he
      exact beside_of_plain rfl rfl rfl (.inl rfl) rfl rfl _
    | _ => cases hf
  | kickDiscovery =>
    have he : kickEffect ch s = some e := he
    unfold kickEffect goOn at he
    repeat' split at he
    all_goals cases he
    · exact beside_of_plain rfl rfl rfl (.inl rfl) rfl rfl _
    · exact beside_of_plain rfl rfl rfl (.inl rfl) rfl rfl _
    · exact beside_of_plain rfl rfl rfl (.inr (.inr ⟨_, rfl⟩)) rfl rfl _
    · exact beside_of_plain rfl rfl rfl (.inr (.inr ⟨_, rfl⟩)) rfl rfl _
  | notifyEndpoints =>
    have he : notifyEffect s = some e := he
    unfold notifyEffect goOn at he
    split at he <;> cases he <;> exact beside_of_plain rfl rfl rfl (.inl rfl) rfl rfl _
  | deliverEndpoints endpoints number =>
    cases he
    exact ⟨sameKeys_apply (.inr ⟨endpoints, rfl⟩) rfl rfl (.inl rfl) ch.now, rfl, rfl⟩
  | deviceRUnlock =>
    cases he
    exact beside_of_plain rfl rfl rfl (.inl rfl) rfl rfl _
  | _ => cases hf

end

/-! ## `reconcilePeers` in the first application -/

/-- The local state of a peer that was written without an error. -/
def Client.Clean (c : Client) (key : NodePublic) : Prop :=
  ∃ localState, c.peerLocal.get key = some localState ∧ localState.applied = true ∧
    localState.err = ""

namespace Reconcile

/-- What is known of the local states at a point of `reconcilePeers`. -/
def Locals (r : Reconcile) (c : Client) : Prop :=
  match r.phase with
  | .upsertNext keys => ∀ key ∈ r.desired, key ∉ keys → c.Clean key
  | .updateBind key _ keys | .upsertCall key keys | .apply key _ keys =>
    ∀ key' ∈ r.desired, key' ∉ key :: keys → c.Clean key'
  | .dropUnused => ∀ key ∈ r.desired, c.Clean key
  | .announce | .unlock => (∀ key ∈ r.desired, c.Clean key) ∧
    ∀ key ∈ c.peerLocal, key ∈ r.desired ∨ key ∈ c.applied
  | _ => True

/-- `reconcilePeers` at a point that it reached alone and without an error. -/
structure Working (r : Reconcile) (s : Sys) : Prop where
  usable : s.usableAPI = some r.api
  distinct : s.client.DistinctKeys
  current : r.Current s.client.applied
  progress : r.Progress s.client.opts (s.keyState r.api)
  linked : ∀ key wanted, r.desired.get key = some wanted ↔ s.client.WantedAt key wanted
  locals : r.Locals s.client

end Reconcile

/-- The client wants distinct keys, and may write them on an API. -/
structure Ready (s : Sys) (api : Nat) : Prop where
  distinct : s.client.DistinctKeys
  free : ∀ key wanted, s.client.WantedAt key wanted →
    (s.keyState api key).Free s.client.opts (s.client.applied.get key)

/-- `reconcilePeers` has nothing to do on an API. -/
structure Settled (s : Sys) (api : Nat) : Prop where
  distinct : s.client.DistinctKeys
  published : ∀ key wanted, s.client.WantedAt key wanted →
    (s.keyState api key).Publishes s.client.opts key wanted ∧ s.client.Clean key
  applied : ∀ key ∈ s.client.applied, ∃ wanted, s.client.WantedAt key wanted
  locals : ∀ key ∈ s.client.peerLocal, ∃ wanted, s.client.WantedAt key wanted

variable {c : Client} {key : NodePublic} {wanted : DesiredPeer} {f : Frame} {ch : Choice}
variable {now : Time} {node : Node}

section
variable {s s' : Sys} {api : Nat} {r : Reconcile}

theorem distinctKeys_congr {c' : Client} (hkept : c'.kept = c.kept) :
    c'.DistinctKeys ↔ c.DistinctKeys := by
  simp only [Client.kept, Prod.mk.injEq] at hkept
  obtain ⟨hopts, -, -, -, hconfirmed, -, hpeers, -⟩ := hkept
  unfold Client.DistinctKeys Client.wants
  rw [hopts, hconfirmed, hpeers]

theorem SameKeys.wantedAt (h : SameKeys s s') :
    s'.client.WantedAt key wanted ↔ s.client.WantedAt key wanted := by
  refine wantedAt_congr h.kept fun key _ _ => ?_
  unfold Client.pathAt
  rw [h.locals]

theorem SameKeys.opts (h : SameKeys s s') : s'.client.opts = s.client.opts :=
  congrArg Prod.fst h.kept

theorem SameKeys.applied (h : SameKeys s s') : s'.client.applied = s.client.applied :=
  ext_get fun key => congrArg KeyState.applied (h.states 0 key)

theorem Ready.congr (h : Ready s api) (hsame : SameKeys s s') : Ready s' api where
  distinct := (distinctKeys_congr hsame.kept).mpr h.distinct
  free key wanted hwanted := by
    rw [hsame.states, hsame.opts, hsame.applied]
    exact h.free key wanted (hsame.wantedAt.mp hwanted)

theorem Settled.congr (h : Settled s api) (hsame : SameKeys s s') : Settled s' api where
  distinct := (distinctKeys_congr hsame.kept).mpr h.distinct
  published key wanted hwanted := by
    unfold Client.Clean
    rw [hsame.states, hsame.opts, hsame.locals]
    exact h.published key wanted (hsame.wantedAt.mp hwanted)
  applied key hkey := by
    rw [hsame.applied] at hkey
    exact (h.applied key hkey).imp fun _ => hsame.wantedAt.mpr
  locals key hkey := by
    rw [hsame.locals] at hkey
    exact (h.locals key hkey).imp fun _ => hsame.wantedAt.mpr

theorem Reconcile.Working.congr (h : r.Working s) (hsame : SameKeys s s') : r.Working s' where
  usable := hsame.usable.trans h.usable
  distinct := (distinctKeys_congr hsame.kept).mpr h.distinct
  current := by
    rw [hsame.applied]
    exact h.current
  progress := by
    rw [hsame.opts, funext (hsame.states r.api)]
    exact h.progress
  linked key wanted := (h.linked key wanted).trans hsame.wantedAt.symm
  locals := by
    have hlocals := h.locals
    unfold Reconcile.Locals Client.Clean at hlocals ⊢
    rw [hsame.locals, hsame.applied]
    exact hlocals

theorem mem_devices_of_usable (h : s.usableAPI = some api) : api ∈ s.devices := by
  have hopen := (usableAPI_eq_some.mp h).2
  unfold Sys.isClosed at hopen
  cases hget : s.devices.get api with
  | none =>
    rw [hget] at hopen
    cases hopen
  | some d => exact mem_of_get hget

/-- The snapshot begins the work. -/
theorem working_snapshot (h : Ready s api) (hapi : s.usableAPI = some api) {nodes : List Int}
    {keys : List NodePublic} (hnodes : s.client.peers.Listing nodes)
    (hkeys : s.client.applied.Listing keys) :
    Reconcile.Working { api, desired := s.client.desired nodes, applied := s.client.applied
                        phase := .removeNext keys } s where
  usable := hapi
  distinct := h.distinct
  current := ⟨hkeys.nodup, fun _ _ => rfl, fun _ hkey => hkeys.mem_iff.mp hkey, fun _ _ _ => rfl,
    nofun⟩
  progress := by
    refine progress_snapshot hkeys fun key hkey => ?_
    obtain ⟨wanted, hwanted⟩ := mem_iff.mp hkey
    exact h.free key wanted ((desired_get_iff hnodes h.distinct).mp hwanted)
  linked _ _ := desired_get_iff hnodes h.distinct
  locals := trivial

/-- At its end `reconcilePeers` has settled everything. -/
theorem Reconcile.Working.settled (h : r.Working s) (hphase : r.phase = .unlock) :
    Settled s r.api := by
  have hprogress := h.progress
  have hlocals := h.locals
  unfold Reconcile.Progress at hprogress
  unfold Reconcile.Locals at hlocals
  rw [hphase] at hprogress hlocals
  have hdesired {key : NodePublic} (hkey : key ∈ r.desired) :
      ∃ wanted, s.client.WantedAt key wanted :=
    (mem_iff.mp hkey).imp fun wanted => (h.linked key wanted).mp
  have happlied (key : NodePublic) (hkey : key ∈ s.client.applied) : key ∈ r.desired := by
    obtain ⟨a, hget⟩ := mem_iff.mp hkey
    refine (hprogress.1 key ?_).resolve_right List.not_mem_nil
    rw [show (s.keyState r.api key).applied = some a from hget]
    exact Option.some_ne_none a
  refine ⟨h.distinct, fun key wanted hwanted => ?_, fun key hkey => hdesired (happlied key hkey),
    fun key hkey => hdesired ((hlocals.2 key hkey).elim id (happlied key))⟩
  have hget := (h.linked key wanted).mpr hwanted
  exact ⟨hprogress.2 key wanted hget List.not_mem_nil, hlocals.1 key (mem_of_get hget)⟩

section
variable {phase : ReconcilePhase} {changed : Bool} {sec : Option Section} {bind : Option BindAct}
  {device : Option DeviceAct}

/-- What a turn without an error keeps of the client. -/
theorem Reconcile.Working.client_turn (h : r.Working s)
    (ht : r.Turn s r.phase phase changed sec bind device) (now : Time) :
    (Effect.done { ctl := s.ctl, sec, bind, device } now s.client).client.kept = s.client.kept ∧
      ∀ key ∈ r.desired,
        (Effect.done { ctl := s.ctl, sec, bind, device } now s.client).client.pathAt key =
          s.client.pathAt key := by
  obtain ⟨-, -, hcurrent, hprogress, -, -⟩ := h
  obtain ⟨api, desired, snapshot, changed₀, phase₀⟩ := r
  cases ht with
  | removeReported | conflicted | upsertReported | takenOver => exact hprogress.elim
  | @removed key keys =>
    refine ⟨rfl, fun key' hkey' => ?_⟩
    have hne : key' ≠ key := fun heq => hcurrent.unwanted key rfl (heq ▸ hkey')
    dsimp only [Effect.done, Section.run, Client.peerRemoved, Client.pathAt]
    rw [get_erase_ne _ hne]
  | @applied key needsUpsert keys wanted hwanted =>
    refine ⟨rfl, fun key' hkey' => ?_⟩
    dsimp only [Effect.done, Section.run, Client.peerApplied, Client.pathAt]
    rw [get_insert]
    split
    · next heq =>
      rw [heq]
      rfl
    · rfl
  | droppedUnused =>
    refine ⟨rfl, fun key' hkey' => ?_⟩
    dsimp only [Effect.done, Section.run, Client.dropUnused, Client.pathAt]
    rw [get_filter, decide_eq_true (mem_def.mp hkey')]
    cases s.client.peerLocal.get key' <;> rfl
  | _ => exact ⟨rfl, fun _ _ => rfl⟩

/-- The local states after a turn without an error. -/
theorem Reconcile.Working.locals_turn (h : r.Working s)
    (ht : r.Turn s r.phase phase changed sec bind device) (now : Time) :
    { r with phase, changed }.Locals
      (Effect.done { ctl := s.ctl, sec, bind, device } now s.client).client := by
  obtain ⟨-, -, hcurrent, hprogress, -, hlocals⟩ := h
  obtain ⟨api, desired, snapshot, changed₀, phase₀⟩ := r
  cases ht with
  | conflicted | upsertReported => exact hprogress.elim
  | upsertsBegin horder =>
    intro key hkey hnot
    exact absurd (horder.mem_iff.mpr hkey) hnot
  | upsertsDone => exact fun key hkey => hlocals key hkey List.not_mem_nil
  | visitedLost | visitedForeign => trivial
  | visitedNew | visitedOwned | visitedNamed | updatedBind | refreshedBind | upserted | announced
  | silent => exact hlocals
  | @applied key needsUpsert keys wanted hwanted =>
    intro key' hkey' hnot
    dsimp only [Effect.done, Section.run, Client.peerApplied, Client.Clean]
    by_cases heq : key' = key
    · rw [heq, get_insert_self]
      exact ⟨_, rfl, rfl, rfl⟩
    · rw [get_insert_ne _ _ heq]
      exact hlocals key' hkey' fun hmem => hnot (List.mem_of_ne_of_mem heq hmem)
  | skipped needsUpsert hnone hphase => exact (hcurrent.not_skipped hnone hphase).elim
  | droppedUnused =>
    dsimp only [Effect.done, Section.run, Client.dropUnused, Reconcile.Locals, Client.Clean]
    refine ⟨fun key hkey => ?_, fun key hkey => ?_⟩
    · rw [get_filter, decide_eq_true (mem_def.mp hkey)]
      obtain ⟨localState, hget, hclean⟩ := hlocals key hkey
      rw [hget]
      exact ⟨localState, rfl, hclean⟩
    · obtain ⟨localState, -, hused⟩ := mem_filter.mp hkey
      exact (Bool.or_eq_true _ _ ▸ hused).imp of_decide_eq_true of_decide_eq_true
  | _ => trivial

/-- A turn without an error. -/
theorem Reconcile.Working.turn (h : r.Working s)
    (ht : r.Turn s r.phase phase changed sec bind device)
    (hok : ∀ act, device = some act → act.ok = true) (now : Time) :
    (Effect.apply { ctl := s.ctl, sec, bind, device } now s).state.client.kept = s.client.kept ∧
      { r with phase, changed }.Working
        (Effect.apply { ctl := s.ctl, sec, bind, device } now s).state := by
  obtain ⟨hkept, hpath⟩ := h.client_turn ht now
  refine ⟨hkept, ?_, (distinctKeys_congr hkept).mpr h.distinct, ?_, ?_, fun key wanted => ?_,
    h.locals_turn ht now⟩
  · exact ((sameDevices_apply _ now s).usableAPI rfl).trans h.usable
  · rw [applied_apply]
    exact h.current.turn ht
  · rw [opts_apply, funext (keyState_turn ht (mem_devices_of_usable h.usable) now)]
    exact h.progress.turn h.current ht hok
  · refine (h.linked key wanted).trans (wantedAt_congr hkept fun key wanted hwanted => ?_).symm
    exact hpath key (mem_of_get ((h.linked key wanted).mpr hwanted))

end

/-- Where the first application is, the frames beside `reconcilePeers` apart. -/
inductive Stage (m : FullMap) (s : Sys) : List Frame → Prop
  | call (h : ∀ api, s.usableAPI = some api → Ready s api) : Stage m s [.call .reconcilePeers]
  | wait {api : Nat} (h : Ready s api) (hapi : s.usableAPI = some api) :
      Stage m s [.reconcileWait api]
  | snapshot {api : Nat} (h : Ready s api) (hapi : s.usableAPI = some api) :
      Stage m s [.reconcileSnapshot api]
  | working {r : Reconcile} (h : r.Working s) : Stage m s [.reconciling r]
  | done (h : m.peers.isSome = true → ∀ api, s.usableAPI = some api → Settled s api) : Stage m s []

variable {m : FullMap} {mid : List Frame}

theorem Stage.congr (h : Stage m s mid) (hsame : SameKeys s s') : Stage m s' mid := by
  cases h with
  | call h => exact .call fun api hapi => (h api (hsame.usable.symm.trans hapi)).congr hsame
  | wait h hapi => exact .wait (h.congr hsame) (hsame.usable.trans hapi)
  | snapshot h hapi => exact .snapshot (h.congr hsame) (hsame.usable.trans hapi)
  | working h => exact .working (h.congr hsame)
  | done h => exact .done fun hm api hapi => (h hm api (hsame.usable.symm.trans hapi)).congr hsame

/-- The calls after a turn: only the events of an announcement. -/
theorem Reconcile.Turn.calls_done {phase₀ phase : ReconcilePhase} {changed : Bool}
    {sec : Option Section} {bind : Option BindAct} {device : Option DeviceAct}
    (ht : r.Turn s phase₀ phase changed sec bind device) (now : Time) :
    (Effect.done { ctl := s.ctl, sec, bind, device } now s.client).calls = [] := by
  cases ht <;> rfl

/-- A step of `reconcilePeers` in the first application. -/
theorem Stage.step {e : Effect} (h : Stage m s [f]) (he : effect ch s f = some e)
    (hok : ch.ok = true) :
    (e.apply ch.now s).state.client.kept = s.client.kept ∧ e.spawned = [] ∧
      ∃ pre mid, (e.apply ch.now s).calls = pre ++ mid ∧ pre.all Frame.isBeside = true ∧
        Stage m (e.apply ch.now s).state mid := by
  cases h with
  | call h =>
    have he : callEffect ch s .reconcilePeers = some e := he
    dsimp only [callEffect] at he
    split at he
    · cases he
    · split at he
      · next hnone =>
        cases he
        refine ⟨rfl, rfl, [], [], rfl, rfl, .done fun _ api hapi => ?_⟩
        exact absurd (hnone.symm.trans hapi) nofun
      · next api hapi =>
        cases he
        exact ⟨rfl, rfl, [], _, rfl, rfl,
          .wait ((h api hapi).congr (unchanged_apply (by rfl) ch.now).sameKeys) hapi⟩
  | @wait api h hapi =>
    dsimp only [effect] at he
    split at he
    · cases he
    · cases he
      exact ⟨rfl, rfl, [], _, rfl, rfl,
        .snapshot (h.congr (unchanged_apply (by rfl) ch.now).sameKeys) hapi⟩
  | @snapshot api h hapi =>
    dsimp only [effect] at he
    split at he
    · next hlisting =>
      cases he
      refine ⟨rfl, rfl, [], _, rfl, rfl, .working ?_⟩
      exact (working_snapshot h hapi hlisting.1 hlisting.2).congr
        (unchanged_apply (by rfl) ch.now).sameKeys
    · cases he
  | @working r h =>
    rcases reconcile_turn he with ⟨hphase, rfl⟩ | ⟨phase, changed, sec, bind, device, ht, rfl⟩
    · refine ⟨rfl, rfl, [.deviceRUnlock], [], rfl, rfl, .done fun _ api hapi => ?_⟩
      obtain rfl : r.api = api := Option.some.inj (h.usable.symm.trans hapi)
      exact (h.settled hphase).congr (unchanged_apply (by rfl) ch.now).sameKeys
    · obtain ⟨hkept, hnext⟩ := h.turn ht (fun act hact => ok_reconcileEffect he hok hact) ch.now
      refine ⟨hkept, rfl, (Effect.done { ctl := s.ctl, sec, bind, device } ch.now
        s.client).events.map Frame.publish, _, ?_, ?_, .working hnext⟩
      · show _ ++ (Effect.done { ctl := s.ctl, sec, bind, device } ch.now s.client).calls.map
          Frame.call ++ _ = _
        rw [ht.calls_done, List.map_nil, List.append_nil]
        rfl
      · rw [List.all_map]
        exact List.all_eq_true.mpr fun _ _ => rfl

/-! ### The section -/

/-- After a full map, what is wanted was wanted before it was looked at for expiry. -/
theorem FullMap.wants_of_wantedAt {s : Sys} {id : Int} (hopts : c.opts = s.client.opts)
    (hconfirmed : c.confirmed = s.client.confirmed)
    (hpeers : c.peers = (reduceMap s.client m.response now).client.peers)
    (hget : c.peers.get id = some node) (hwants : c.wants node = true) :
    m.Wants s.client now node := by
  obtain ⟨-, hafter, -⟩ := m.nodes_reduceMap now s.client
  rw [hpeers, hafter, get_mapVals] at hget
  obtain ⟨before, hbefore, rfl⟩ := Option.map_eq_some_iff.mp hget
  have hunmarked : (markNodeExpired before (s.client.expiryNow now)).1.expired ≠ true := by
    intro htrue
    unfold Client.wants at hwants
    rw [htrue] at hwants
    simp at hwants
  obtain ⟨hnot, hdue⟩ := not_or.mp (expired_markNodeExpired.not.mp hunmarked)
  have hsame := Node.Fresh.mark (.inr hdue : before.Fresh (s.client.expiryNow now))
  rw [hsame] at hwants ⊢
  refine ⟨⟨id, hbefore⟩, ?_, hdue⟩
  unfold Client.wants at hwants ⊢
  rw [← hopts, ← hconfirmed]
  exact hwants

/-- The calls after the section of a full map: `reconcilePeers` if it was requested, and others
beside it. -/
theorem FullMap.calls_applyMapResponse (c : Client) (now : Time) :
    ∃ pre post, (c.applyMapResponse m.response now).calls.map Frame.call =
        pre ++ ((if (reduceMap c m.response now).reconcileRequested then [.call .reconcilePeers]
          else []) ++ post) ∧
      pre.all Frame.isBeside = true ∧ post.all Frame.isBeside = true := by
  have heffective : m.response.effective = m.response := rfl
  unfold Client.applyMapResponse
  dsimp only
  rw [heffective]
  generalize reduceMap c m.response now = r
  split
  · refine ⟨[], [], ?_, rfl, rfl⟩
    cases r.reconcileRequested <;> rfl
  · refine ⟨if r.derpBindingChanged then [.call (.updateDERPMap (cloneDERPMap (r.stamp now).derpMap)
        (r.stamp now).selfDERP (r.stamp now).revision)] else [],
      if r.preferredDERPChanged then [.call .signalEndpointUpdate] else [], ?_, ?_, ?_⟩
    · cases r.reconcileRequested <;> cases r.derpBindingChanged <;> cases r.preferredDERPChanged <;>
        rfl
    · cases r.derpBindingChanged <;> rfl
    · cases r.preferredDERPChanged <;> rfl

/-- The section of the first application. -/
theorem FullMap.stage_section (h : m.Undisputed s now)
    (hmatch : s.client.nodeKeyMismatch m.response = false) :
    (s.client.applyMapResponse m.response now).client.kept =
        (reduceMap s.client m.response now).client.kept ∧
      ∃ pre mid post, (s.client.applyMapResponse m.response now).calls.map Frame.call =
          pre ++ (mid ++ post) ∧ pre.all Frame.isBeside = true ∧ post.all Frame.isBeside = true ∧
        Stage m { s with client := (s.client.applyMapResponse m.response now).client } mid := by
  have hkept : (s.client.applyMapResponse m.response now).client.kept =
      (reduceMap s.client m.response now).client.kept :=
    applyMapResponse_view Client.kept (fun _ _ => rfl) s.client m.response now
  have happlied := (untouched_applyMapResponse s.client now m.response).1
  have huntouched := (reduces_reduceMap m.response now s.client).untouched
  obtain ⟨pre, post, hcalls, hpre, hpost⟩ := m.calls_applyMapResponse s.client now
  refine ⟨hkept, pre, _, post, hcalls, hpre, hpost, ?_⟩
  generalize (s.client.applyMapResponse m.response now).client = c at hkept happlied
  simp only [Client.untouched, Prod.mk.injEq] at huntouched
  simp only [Client.kept, Prod.mk.injEq] at hkept
  obtain ⟨hopts, -, -, -, hconfirmed, -, hpeers, -⟩ := hkept
  replace hopts : c.opts = s.client.opts := hopts.trans huntouched.1
  replace hconfirmed : c.confirmed = s.client.confirmed := hconfirmed.trans huntouched.2.2.2.1
  split
  · next hrequested =>
    -- what is wanted now is what the map makes the client want
    refine .call fun api hapi => ?_
    replace h := h hmatch hrequested api hapi
    refine ⟨fun id id' node node' hget hget' hwants hwants' hkey => ?_, fun key wanted hwanted => ?_⟩
    · exact h.keys node node' (m.wants_of_wantedAt hopts hconfirmed hpeers hget hwants)
        (m.wants_of_wantedAt hopts hconfirmed hpeers hget' hwants') hkey
    · obtain ⟨id, node, hget, hwants, rfl, -⟩ := hwanted
      have hfree := h.device node (m.wants_of_wantedAt hopts hconfirmed hpeers hget hwants)
      show (Sys.keyState { s with client := c } api node.key).Free c.opts (c.applied.get node.key)
      unfold Sys.keyState at hfree ⊢
      rw [hopts, happlied]
      exact hfree
  · next hnot =>
    exact .done fun hm => absurd (requested_reduceMap m now s.client hm) hnot

/-- Where the first application is: before its section, or at a stage after it. -/
inductive FullMap.First (m : FullMap) (s₀ : Sys) (now : Time) : Sys → List Frame → Prop
  | start : First m s₀ now s₀ [.sec (.applyMapResponse m.response)]
  | stage {s : Sys} {pre mid post : List Frame}
      (hkept : s.client.kept = (reduceMap s₀.client m.response now).client.kept)
      (hpre : pre.all Frame.isBeside = true) (hpost : post.all Frame.isBeside = true)
      (h : Stage m s mid) : First m s₀ now s (pre ++ (mid ++ post))

/-- A step of the first application. -/
theorem FullMap.First.step {s₀ : Sys} (hundisputed : m.Undisputed s₀ now)
    (hmatch : s₀.client.nodeKeyMismatch m.response = false) {rest : List Frame}
    {o : Outcome Sys Frame} (h : m.First s₀ now s (f :: rest)) (hch : ch.now = now ∧ ch.ok = true)
    (ho : program.exec f ch s = some o) :
    o.spawned = [] ∧ m.First s₀ now o.state (o.calls ++ rest) := by
  obtain ⟨rfl, hok⟩ := hch
  obtain ⟨e, he, rfl⟩ := Option.map_eq_some_iff.mp ho
  generalize hstack : f :: rest = stack at h
  cases h with
  | start =>
    obtain ⟨rfl, rfl⟩ := List.cons.inj hstack
    cases he
    obtain ⟨hkept, pre, mid, post, hcalls, hpre, hpost, hstage⟩ :=
      FullMap.stage_section hundisputed hmatch
    refine ⟨rfl, ?_⟩
    have hevents (events : List Event) : (events.map Frame.publish).all Frame.isBeside = true := by
      rw [List.all_map]
      exact List.all_eq_true.mpr fun _ _ => rfl
    have hframes : (Effect.apply { ctl := s.ctl, sec := some (.applyMapResponse m.response) } ch.now
        s).calls ++ [] = ((s.client.applyMapResponse m.response ch.now).events.map Frame.publish ++
          pre) ++ (mid ++ post) := by
      rw [List.append_nil, List.append_assoc, ← hcalls]
      exact List.append_nil _
    rw [hframes]
    exact .stage hkept (List.all_append.trans (by rw [hevents, hpre]; rfl)) hpost hstage
  | @stage _ pre mid post hkept hpre hpost hstage =>
    cases pre with
    | cons g pre =>
      obtain ⟨rfl, rfl⟩ := List.cons.inj hstack
      obtain ⟨hbeside, hpre⟩ := Bool.and_eq_true_iff.mp hpre
      obtain ⟨hsame, hspawned, hcalls⟩ := beside_effect hbeside he
      refine ⟨hspawned, ?_⟩
      show m.First s₀ ch.now _ (_ ++ (pre ++ (mid ++ post)))
      rw [← List.append_assoc]
      exact .stage (hsame.kept.trans hkept) (List.all_append.trans (by rw [hcalls, hpre]; rfl))
        hpost (hstage.congr hsame)
    | nil =>
      rw [List.nil_append] at hstack
      rcases List.cons_eq_append_iff.mp hstack with ⟨rfl, rfl⟩ | ⟨mid', rfl, rfl⟩
      · obtain ⟨hbeside, hpost⟩ := Bool.and_eq_true_iff.mp hpost
        obtain ⟨hsame, hspawned, hcalls⟩ := beside_effect hbeside he
        refine ⟨hspawned, ?_⟩
        show m.First s₀ ch.now _ (_ ++ ([] ++ rest))
        exact .stage (hsame.kept.trans hkept) hcalls hpost (hstage.congr hsame)
      · obtain rfl : mid' = [] := by cases hstage <;> rfl
        obtain ⟨hsame, hspawned, pre, mid, hcalls, hpre, hnext⟩ := hstage.step he hok
        refine ⟨hspawned, ?_⟩
        rw [hcalls, List.append_assoc]
        exact .stage (hsame.trans hkept) hpre hpost hnext

/-- A point of `reconcilePeers` that it reaches when it has nothing to do. -/
def Reconcile.AtRest (r : Reconcile) : Prop :=
  match r.phase with
  | .removeNext keys => ∀ key ∈ keys, key ∈ r.desired
  | .upsertBegin | .upsertNext _ | .dropUnused | .announce | .unlock => True
  | .updateBind _ needsUpsert _ | .apply _ needsUpsert _ => needsUpsert = false
  | _ => False

/-- `reconcilePeers` when it has nothing to do. -/
structure Reconcile.Resting (r : Reconcile) (s : Sys) : Prop where
  settled : Settled s r.api
  linked : ∀ key wanted, r.desired.get key = some wanted ↔ s.client.WantedAt key wanted
  applied : r.applied = s.client.applied
  unchanged : r.changed = false
  phase : r.AtRest

/-- Where the second application is. -/
inductive FullMap.Again (m : FullMap) (s : Sys) : List Frame → Prop
  | start (h : ∀ api, s.usableAPI = some api → m.peers.isSome = true → Settled s api) :
      Again m s [.sec (.applyMapResponse m.response)]
  | call (h : ∀ api, s.usableAPI = some api → Settled s api) : Again m s [.call .reconcilePeers]
  | wait {api : Nat} (h : Settled s api) : Again m s [.reconcileWait api]
  | snapshot {api : Nat} (h : Settled s api) : Again m s [.reconcileSnapshot api]
  | resting {r : Reconcile} (h : r.Resting s) : Again m s [.reconciling r]
  | unlock : Again m s [.deviceRUnlock]
  | done : Again m s []

theorem Reconcile.Resting.congr (h : r.Resting s) (hsame : Unchanged s s') : r.Resting s' where
  settled := h.settled.congr hsame.sameKeys
  linked key wanted := (h.linked key wanted).trans hsame.sameKeys.wantedAt.symm
  applied := h.applied.trans hsame.sameKeys.applied.symm
  unchanged := h.unchanged
  phase := h.phase

/-- Giving the bind a configuration that it has. -/
theorem bind_updatePeer_eq {api : Nat} (h : (s.keyState api key).HasConfig key wanted) :
    BindAct.run s.bind (.updatePeer (peerConfigFor key wanted)) = s.bind := by
  unfold KeyState.HasConfig Sys.keyState at h
  cases hbind : s.bind with
  | none => rfl
  | some b =>
    rw [hbind] at h
    have hconfig := h _ rfl
    obtain ⟨state, hget, hsame⟩ := Option.map_eq_some_iff.mp hconfig
    refine congrArg some ?_
    rcases updatePeer_cases b (peerConfigFor key wanted) with ⟨-, -, -, heq⟩ | ⟨_, hother, -, -⟩
    · exact heq
    · exact absurd hsame (hother state hget).2

/-- Recording a peer that is recorded changes nothing. -/
theorem peerApplied_eq {applied : AppliedPeer} (hget : c.applied.get key = some applied)
    (hclean : c.Clean key) :
    (c.peerApplied key applied).client = c ∧ c.peerAppliedChanges key applied false = false := by
  obtain ⟨localState, hlocal, happlied, herr⟩ := hclean
  have hsame : ({ localState with applied := true, err := "" } : PeerLocalState) = localState := by
    rw [← happlied, ← herr]
  unfold Client.peerApplied Client.peerAppliedChanges
  dsimp only
  rw [hlocal, Option.getD_some, hsame, insert_eq_self hget, insert_eq_self hlocal,
    hget, happlied, herr]
  exact ⟨rfl, by simp⟩

/-- A turn of `reconcilePeers` when it has nothing to do. -/
theorem Reconcile.Resting.turn {phase : ReconcilePhase} {changed : Bool} {sec : Option Section}
    {bind : Option BindAct} {device : Option DeviceAct} (h : r.Resting s)
    (ht : r.Turn s r.phase phase changed sec bind device) (now : Time) (frames : List Frame) :
    Unchanged s (Effect.apply { ctl := s.ctl, sec, bind, device, frames } now s).state ∧
      (Effect.apply { ctl := s.ctl, sec, bind, device, frames } now s).calls = frames ∧
      { r with phase, changed }.Resting s := by
  obtain ⟨hsettled, hlinked, happlied, hchanged, hphase⟩ := h
  obtain ⟨api, desired, snapshot, changed₀, phase₀⟩ := r
  subst hchanged happlied
  have hrest {phase : ReconcilePhase} (hat : Reconcile.AtRest
      { api, desired, applied := s.client.applied, changed := false, phase }) :
      Reconcile.Resting { api, desired, applied := s.client.applied, changed := false, phase } s :=
    ⟨hsettled, hlinked, rfl, rfl, hat⟩
  have hplain : Unchanged s (Effect.apply { ctl := s.ctl, frames } now s).state :=
    unchanged_apply rfl now
  have hpublished {key : NodePublic} {wanted : DesiredPeer} (h : desired.get key = some wanted) :=
    (hsettled.published key wanted ((hlinked key wanted).mp h)).1
  cases ht with
  | removesDone | upsertsBegin | upsertsDone | skipped | silent =>
    exact ⟨hplain, rfl, hrest trivial⟩
  | stillWanted h =>
    exact ⟨hplain, rfl, hrest fun key hkey => hphase key (List.mem_cons_of_mem _ hkey)⟩
  | readOwned hnot | readForeign hnot => exact absurd (hphase _ List.mem_cons_self) hnot
  | visitedNew hwanted hspec =>
    obtain ⟨⟨_, hspec', -⟩, -⟩ := hpublished hwanted
    cases hspec.symm.trans hspec'
  | @visitedOwned key keys wanted current owned hwanted hspec =>
    obtain ⟨⟨_, hspec', hequal⟩, -⟩ := hpublished hwanted
    cases hspec.symm.trans hspec'
    refine ⟨⟨rfl, rfl, rfl, rfl, rfl, [.peerSpec api key (s.peerSpec api key)], rfl, ?_⟩, rfl,
      hrest ?_⟩
    · intro call hcall
      rw [List.mem_singleton.mp hcall]
      rfl
    · rw [hequal]
      rfl
  | visitedLost hmem hspec hget hlost =>
    obtain ⟨wanted, hwanted⟩ := mem_iff.mp hmem
    obtain ⟨⟨_, hspec', hequal⟩, hrecorded, -⟩ := hpublished hwanted
    cases hspec.symm.trans hspec'
    cases hget.symm.trans hrecorded
    exact absurd (hlost.symm.trans (peerSpecStillOwned_iff.mpr (of_peerSpecsEqual hequal).1)) nofun
  | visitedNamed hmem hspec hget | visitedForeign hmem hspec hget =>
    obtain ⟨wanted, hwanted⟩ := mem_iff.mp hmem
    cases hget.symm.trans (hpublished hwanted).applied
  | @refreshedBind key keys wanted hwanted =>
    exact ⟨⟨rfl, rfl, bind_updatePeer_eq (hpublished hwanted).config, rfl, rfl, [], rfl, nofun⟩, rfl,
      hrest rfl⟩
  | updatedBind => cases hphase
  | @applied key needsUpsert keys wanted hwanted =>
    obtain rfl : needsUpsert = false := hphase
    obtain ⟨hpublished, hclean⟩ := hsettled.published key wanted ((hlinked key wanted).mp hwanted)
    obtain ⟨hclient, hsame⟩ := peerApplied_eq hpublished.applied hclean
    refine ⟨⟨hclient, rfl, rfl, rfl, rfl, [], rfl, nofun⟩, rfl, ?_⟩
    rw [hsame]
    exact hrest trivial
  | droppedUnused =>
    have hlocals : s.client.peerLocal.filter (fun key _ => decide (key ∈ desired.keys) ||
        decide (key ∈ s.client.applied)) = s.client.peerLocal := by
      refine filter_eq_self fun key localState hget => ?_
      obtain ⟨wanted, hwanted⟩ := hsettled.locals key (mem_of_get hget)
      have hmem : key ∈ desired := mem_of_get ((hlinked key wanted).mpr hwanted)
      rw [decide_eq_true (mem_def.mp hmem), Bool.true_or]
    refine ⟨⟨?_, rfl, rfl, rfl, rfl, [], rfl, nofun⟩, rfl, hrest trivial⟩
    exact congrArg (fun peerLocal => ({ s.client with peerLocal } : Client)) hlocals
  | announced hchanged => cases hchanged
  | _ => exact hphase.elim

/-- The section on a client that mirrors the map. -/
theorem FullMap.applyMapResponse_eq (h : Mirrors m (c.expiryNow now) c) :
    c.applyMapResponse m.response now =
      { client := c, calls := if m.peers.isSome then [.reconcilePeers] else [] } := by
  have heffective : m.response.effective = m.response := rfl
  unfold Client.applyMapResponse
  dsimp only
  rw [heffective, reduceMap_of_mirrors h]
  rfl

/-- A step of the second application. -/
theorem FullMap.Again.step {s₁ : Sys} (hmirrors : Mirrors m (s₁.client.expiryNow now) s₁.client)
    {rest : List Frame} {o : Outcome Sys Frame} (h : Unchanged s₁ s ∧ m.Again s (f :: rest))
    (hch : ch.now = now) (ho : program.exec f ch s = some o) :
    o.spawned = [] ∧ Unchanged s₁ o.state ∧ m.Again o.state (o.calls ++ rest) := by
  obtain ⟨hsame, h⟩ := h
  subst hch
  obtain ⟨e, he, rfl⟩ := Option.map_eq_some_iff.mp ho
  -- a step that only goes on
  have hgoOn {ctl : Control} {frames : List Frame} (heq : e = { ctl, frames })
      (hctl : ctl.deviceAPI = s.ctl.deviceAPI)
      (hagain : ∀ s', Unchanged s s' → m.Again s' frames) :
      e.spawned = [] ∧ Unchanged s₁ (e.apply ch.now s).state ∧
        m.Again (e.apply ch.now s).state ((e.apply ch.now s).calls ++ []) := by
    subst heq
    refine ⟨rfl, hsame.trans (unchanged_apply hctl _), ?_⟩
    rw [List.append_nil]
    exact hagain _ (unchanged_apply hctl _)
  cases h with
  | start hsettled =>
    cases he
    have hdone : s.client.applyMapResponse m.response ch.now = _ :=
      m.applyMapResponse_eq (hsame.client ▸ hmirrors)
    have hunchanged : Unchanged s (Effect.apply
        { ctl := s.ctl, sec := some (.applyMapResponse m.response) } ch.now s).state :=
      ⟨congrArg Done.client hdone, rfl, rfl, rfl, rfl, [], rfl, nofun⟩
    refine ⟨rfl, hsame.trans hunchanged, ?_⟩
    have hcalls : (Effect.apply { ctl := s.ctl, sec := some (.applyMapResponse m.response) } ch.now
        s).calls ++ [] = if m.peers.isSome then [.call .reconcilePeers] else [] := by
      show ((s.client.applyMapResponse m.response ch.now).events.map Frame.publish ++
        (s.client.applyMapResponse m.response ch.now).calls.map Frame.call ++ []) ++ [] = _
      rw [hdone]
      cases m.peers.isSome <;> rfl
    rw [hcalls]
    split
    · next hpeers =>
      refine .call fun api hapi => ?_
      exact (hsettled api (hunchanged.sameKeys.usable.symm.trans hapi) hpeers).congr
        hunchanged.sameKeys
    · exact .done
  | call hsettled =>
    have he : callEffect ch s .reconcilePeers = some e := he
    dsimp only [callEffect] at he
    split at he
    · cases he
    · split at he
      · exact hgoOn (goOn_eq he) rfl fun _ _ => .done
      · next api hapi =>
        exact hgoOn (Option.some.inj he).symm rfl fun _ h =>
          .wait ((hsettled api hapi).congr h.sameKeys)
  | wait hsettled =>
    dsimp only [effect] at he
    split at he
    · cases he
    · exact hgoOn (Option.some.inj he).symm rfl fun _ h => .snapshot (hsettled.congr h.sameKeys)
  | @snapshot api hsettled =>
    dsimp only [effect] at he
    split at he
    · next hlisting =>
      refine hgoOn (goOn_eq he) rfl fun _ h => .resting (Reconcile.Resting.congr ?_ h)
      refine ⟨hsettled, fun _ _ => desired_get_iff hlisting.1 hsettled.distinct, rfl, rfl,
        fun key hkey => ?_⟩
      obtain ⟨wanted, hwanted⟩ := hsettled.applied key (hlisting.2.mem_iff.mp hkey)
      exact mem_of_get ((desired_get_iff hlisting.1 hsettled.distinct).mpr hwanted)
    · cases he
  | @resting r h =>
    rcases reconcile_turn he with ⟨-, heq⟩ | ⟨phase, changed, sec, bind, device, ht, rfl⟩
    · exact hgoOn heq rfl fun _ _ => .unlock
    · obtain ⟨hunchanged, hcalls, hnext⟩ := h.turn ht ch.now
        [.reconciling { r with phase, changed }]
      refine ⟨rfl, hsame.trans hunchanged, ?_⟩
      rw [hcalls]
      exact .resting (hnext.congr hunchanged)
  | unlock => exact hgoOn (Option.some.inj he).symm rfl fun _ _ => .done

end

end WgoTailscale
