import WgoTailscale.Publication

/-!
# What `reconcilePeers` leaves behind (`map.go`)

`reconcilePeers` works on one key at a time. What it reads and writes of a key is a `KeyState`: the
specification on the device, what is recorded as applied, and the configuration that the bind has. A
turn changes at most the key it works on, in the way `KeyState.after` says (`keyState_turn`).

`Reconcile.Progress` says for every point of the function what holds of the keys behind it and of
those ahead, as long as the calls to the device succeed and no wanted peer belongs to another
controller. At the end every wanted peer is published and nothing else is applied.
-/

namespace WgoTailscale

open FinMap

/-! ## One key -/

/-- What `reconcilePeers` reads and writes of a key; without a bind there is no configuration. -/
@[ext] structure KeyState where
  spec : Option PeerSpec
  applied : Option AppliedPeer
  config : Option (Option PeerConfig)

/-- The state of a key, on an API. -/
def Sys.keyState (s : Sys) (api : Nat) (key : NodePublic) : KeyState where
  spec := s.peerSpec api key
  applied := s.client.applied.get key
  config := s.bind.map fun b => (b.peers.get key).map PeerState.config

namespace KeyState

/-- What a turn makes of the state of a key. -/
def after (key : NodePublic) (sec : Option Section) (bind : Option BindAct)
    (device : Option DeviceAct) (k : KeyState) : KeyState where
  spec := match device with
    | some (.upsert _ spec true) => if key = spec.publicKey then some spec else k.spec
    | some (.delete _ key' true) => if key = key' then none else k.spec
    | _ => k.spec
  applied := match sec with
    | some (.peerRemoved key') | some (.peerTakenOver key') =>
      if key = key' then none else k.applied
    | some (.peerApplied key' a) => if key = key' then some a else k.applied
    | _ => k.applied
  config := match bind with
    | some (.updatePeer config) =>
      if key = config.nodeKey then k.config.map fun _ => some config.sanitized else k.config
    | some (.removePeer key') => if key = key' then k.config.map fun _ => none else k.config
    | _ => k.config

variable (opts : Options) (key : NodePublic) (wanted : DesiredPeer) (k : KeyState)

/-- The device has the specification that is wanted. -/
def HasSpec : Prop :=
  ∃ current, k.spec = some current ∧ peerSpecsEqual current (peerSpecFor opts key wanted) = true

/-- The bind, if there is one, has the configuration that is wanted. -/
def HasConfig : Prop :=
  ∀ config, k.config = some config → config = some (peerConfigFor key wanted).sanitized

/-- A wanted peer is published. -/
structure Publishes : Prop where
  spec : k.HasSpec opts key wanted
  applied : k.applied = some (wanted.applied opts)
  config : k.HasConfig key wanted

/-- The client may write a key: what the device has is what the client applied, or, if it applied
nothing, names the client's transport. -/
def Free (snapshot : Option AppliedPeer) : Prop :=
  ∀ current, k.spec = some current → match snapshot with
    | some owned => peerSpecStillOwned current owned = true
    | none => (current.endpoint.any fun endpoint => endpoint.transport = opts.transportID) = true

end KeyState

section
variable {s : Sys} {api : Nat} (key : NodePublic)

/-- Changing the specifications of an API that is there. -/
theorem peerSpec_updateSpecs (h : api ∈ s.devices) {s' : Sys}
    {f : FinMap NodePublic Published → FinMap NodePublic Published}
    (hs' : s'.devices = updateSpecs s.devices api f) :
    ∃ d, s.devices.get api = some d ∧
      s'.peerSpec api key = ((f d.specs).get key).map Published.spec := by
  obtain ⟨d, hd⟩ := mem_iff.mp h
  refine ⟨d, hd, ?_⟩
  unfold Sys.peerSpec
  rw [hs']
  unfold updateSpecs
  rw [hd]
  rw [get_insert_self]
  rfl

/-- A call on an API does to a key what `KeyState.after` says. -/
theorem peerSpec_apply {e : Effect} (h : api ∈ s.devices)
    (hdevice : ∀ act, e.device = some act → (act.log s).api = api) (now : Time) :
    (e.apply now s).state.peerSpec api key =
      ((s.keyState api key).after key e.sec e.bind e.device).spec := by
  unfold KeyState.after
  have hsame {s' : Sys} (heq : s'.devices = s.devices) : s'.peerSpec api key = s.peerSpec api key := by
    unfold Sys.peerSpec
    rw [heq]
  cases hact : e.device with
  | none => exact hsame (devices_apply_none hact)
  | some act =>
    obtain rfl := hdevice act hact
    have hdevices : (e.apply now s).state.devices = _ := devices_apply_some hact
    generalize (e.apply now s).state = s' at hdevices ⊢
    cases act with
    | peerSpec | conflict => exact hsame hdevices
    | upsert api' spec ok =>
      cases ok with
      | false => exact hsame hdevices
      | true =>
        have hdevices : s'.devices = updateSpecs s.devices api'
          (insert · spec.publicKey ⟨.client, spec⟩) := hdevices
        obtain ⟨d, hd, hspec⟩ := peerSpec_updateSpecs key h hdevices
        refine hspec.trans ?_
        dsimp only [Sys.keyState, Sys.peerSpec, DeviceAct.log, DeviceCall.api] at hd ⊢
        rw [hd, get_insert]
        split <;> rfl
    | delete api' key' ok =>
      cases ok with
      | false => exact hsame hdevices
      | true =>
        have hdevices : s'.devices = updateSpecs s.devices api' (erase · key') := hdevices
        obtain ⟨d, hd, hspec⟩ := peerSpec_updateSpecs key h hdevices
        refine hspec.trans ?_
        dsimp only [Sys.keyState, Sys.peerSpec, DeviceAct.log, DeviceCall.api] at hd ⊢
        rw [hd, get_erase]
        split <;> rfl

/-- The configuration of a peer that was given to the bind. -/
theorem config_updatePeer (b : Bind) (config : PeerConfig) :
    ((b.updatePeer config).peers.get key).map PeerState.config =
      if key = config.nodeKey then some config.sanitized
      else (b.peers.get key).map PeerState.config := by
  rcases updatePeer_cases b config with ⟨state, hget, hsame, heq⟩ | ⟨state, -, -, heq⟩
  · rw [heq]
    split
    · next hkey => rw [hkey, hget, Option.map_some, hsame]
    · rfl
  · rw [heq, replacePeer_peers, get_insert, PeerConfig.sanitized_nodeKey]
    split
    · rw [Option.map_some]
      unfold replacedPeer
      split <;> rfl
    · rfl

theorem config_removePeer (b : Bind) (key' : NodePublic) :
    ((b.removePeer key').peers.get key).map PeerState.config =
      if key = key' then none else (b.peers.get key).map PeerState.config := by
  rw [removePeer_peers, get_erase]
  split <;> rfl

/-- A call of `reconcilePeers` to the bind does to a key what `KeyState.after` says. -/
theorem config_apply {e : Effect} (now : Time)
    (hbind : e.bind = none ∨ (∃ config, e.bind = some (.updatePeer config)) ∨
      ∃ key', e.bind = some (.removePeer key')) :
    ((e.apply now s).state.keyState api key).config =
      ((s.keyState api key).after key e.sec e.bind e.device).config := by
  unfold KeyState.after
  dsimp only [Sys.keyState]
  rcases hbind with hact | ⟨config, hact⟩ | ⟨key', hact⟩
  · rw [bind_apply_none hact, hact]
  · rw [bind_apply_some hact, hact]
    cases s.bind with
    | none => exact (ite_self _).symm
    | some b =>
      show some (((b.updatePeer config).peers.get key).map PeerState.config) = _
      dsimp only
      rw [config_updatePeer]
      split <;> rfl
  · rw [bind_apply_some hact, hact]
    cases s.bind with
    | none => exact (ite_self _).symm
    | some b =>
      show some (((b.removePeer key').peers.get key).map PeerState.config) = _
      dsimp only
      rw [config_removePeer]
      split <;> rfl

end

section
variable {s : Sys} {r : Reconcile} {phase₀ phase : ReconcilePhase} {changed : Bool}
  {sec : Option Section} {bind : Option BindAct} {device : Option DeviceAct}

/-- A turn does to a key what `KeyState.after` says. -/
theorem keyState_turn (ht : r.Turn s phase₀ phase changed sec bind device)
    (hknown : r.api ∈ s.devices) (now : Time) (key : NodePublic) :
    (Effect.apply { ctl := s.ctl, sec, bind, device } now s).state.keyState r.api key =
      (s.keyState r.api key).after key sec bind device := by
  refine KeyState.ext ?_ ?_ ?_
  · refine peerSpec_apply key hknown (fun act hact => ?_) now
    subst hact
    exact ht.log_api
  · show (Effect.apply _ now s).state.client.applied.get key = _
    rw [applied_apply]
    cases ht with
    | removed | takenOver => exact get_erase _ _ _
    | applied hwanted => exact get_insert _ _ _ _
    | _ => rfl
  · refine config_apply key now ?_
    cases ht with
    | removedFromBind | takenOverInBind | undoneInBind => exact .inr (.inr ⟨_, rfl⟩)
    | updatedBind | refreshedBind => exact .inr (.inl ⟨_, rfl⟩)
    | _ => exact .inl rfl

end

/-! ## The whole function -/

namespace Reconcile

variable (r : Reconcile) (opts : Options) (states : NodePublic → KeyState)

/-- What is applied is wanted or among the given keys. -/
def Leaves (keys : List NodePublic) : Prop :=
  ∀ key, (states key).applied ≠ none → key ∈ r.desired ∨ key ∈ keys

/-- The wanted peers other than the given ones are published. -/
def Behind (keys : List NodePublic) : Prop :=
  ∀ key wanted, r.desired.get key = some wanted → key ∉ keys →
    (states key).Publishes opts key wanted

/-- The client may write the given keys. -/
def Ahead (keys : List NodePublic) : Prop :=
  ∀ key ∈ keys, (states key).Free opts (r.applied.get key)

/-- The client may write all wanted keys. -/
def AllAhead : Prop := ∀ key ∈ r.desired, (states key).Free opts (r.applied.get key)

/-- What holds at a point of `reconcilePeers` that was reached without an error. -/
def Progress : Prop :=
  match r.phase with
  | .removeNext keys => r.Leaves states keys ∧ r.AllAhead opts states
  | .removeCall key keys | .removeBind key keys | .removeCommit key keys =>
    r.Leaves states (key :: keys) ∧ r.AllAhead opts states
  | .upsertBegin => r.Leaves states [] ∧ r.AllAhead opts states
  | .upsertNext keys => r.Leaves states [] ∧ r.Behind opts states keys ∧ r.Ahead opts states keys
  | .updateBind key needsUpsert keys =>
    r.Leaves states [] ∧ r.Behind opts states (key :: keys) ∧ r.Ahead opts states keys ∧
      (needsUpsert = false → ∀ wanted, r.desired.get key = some wanted →
        (states key).HasSpec opts key wanted)
  | .upsertCall key keys =>
    r.Leaves states [] ∧ r.Behind opts states (key :: keys) ∧ r.Ahead opts states keys ∧
      ∀ wanted, r.desired.get key = some wanted → (states key).HasConfig key wanted
  | .apply key _ keys =>
    r.Leaves states [] ∧ r.Behind opts states (key :: keys) ∧ r.Ahead opts states keys ∧
      ∀ wanted, r.desired.get key = some wanted →
        (states key).HasSpec opts key wanted ∧ (states key).HasConfig key wanted
  | .dropUnused | .announce | .unlock => r.Leaves states [] ∧ r.Behind opts states []
  | .reportRemove .. | .takeOver .. | .takeOverBind .. | .conflict .. | .undoBind ..
  | .reportUpsert .. => False

end Reconcile

/-- Did a call to a device succeed? Reading always does. -/
def DeviceAct.ok : DeviceAct → Bool
  | .upsert _ _ ok | .delete _ _ ok => ok
  | .peerSpec _ _ | .conflict _ _ => true

/-- The calls of a step whose calls succeed. -/
theorem ok_reconcileEffect {ch : Choice} {s : Sys} {r : Reconcile} {e : Effect}
    (h : reconcileEffect ch s r = some e) (hok : ch.ok = true) {act : DeviceAct}
    (hact : e.device = some act) : act.ok = true := by
  revert h
  fun_cases reconcileEffect ch s r <;> intro h <;> cases h
  all_goals cases hact
  all_goals first
    | rfl
    | exact absurd hok ‹_›

section
variable {s : Sys} {r : Reconcile} {applied : FinMap NodePublic AppliedPeer}
  {phase : ReconcilePhase}
  {changed : Bool} {sec : Option Section} {bind : Option BindAct} {device : Option DeviceAct}

/-- Keys that were not touched stay published. -/
theorem Reconcile.Behind.congr {opts : Options} {states states' : NodePublic → KeyState}
    {keys : List NodePublic} (h : r.Behind opts states keys)
    (hsame : ∀ key, key ∉ keys → states' key = states key) : r.Behind opts states' keys := by
  intro key wanted hget hnot
  rw [hsame key hnot]
  exact h key wanted hget hnot

/-- What a call to the bind leaves. -/
theorem KeyState.hasConfig_after (key : NodePublic) (wanted : DesiredPeer) (k : KeyState)
    (sec : Option Section) (device : Option DeviceAct) :
    (k.after key sec (some (.updatePeer (peerConfigFor key wanted))) device).HasConfig key
      wanted := by
  intro config hconfig
  have hconfig : (if key = key then k.config.map fun _ => some (peerConfigFor key wanted).sanitized
    else k.config) = some config := hconfig
  rw [if_pos rfl] at hconfig
  obtain ⟨_, -, rfl⟩ := Option.map_eq_some_iff.mp hconfig
  rfl

/-- The beginning: all applied peers are ahead. -/
theorem progress_snapshot {api : Nat} {desired : FinMap NodePublic DesiredPeer}
    {keys : List NodePublic} (hkeys : s.client.applied.Listing keys)
    (hfree : ∀ key ∈ desired, (s.keyState api key).Free s.client.opts (s.client.applied.get key)) :
    Reconcile.Progress
      { api, desired, applied := s.client.applied, phase := .removeNext keys } s.client.opts
      (s.keyState api) := by
  refine ⟨fun key hkey => .inr (hkeys.mem_iff.mpr ?_), hfree⟩
  exact mem_iff.mpr (Option.ne_none_iff_exists'.mp hkey)

/-- A turn without an error leads to the next point. -/
theorem Reconcile.Progress.turn (h : r.Progress s.client.opts (s.keyState r.api))
    (hcurrent : r.Current applied) (ht : r.Turn s r.phase phase changed sec bind device)
    (hok : ∀ act, device = some act → act.ok = true) :
    { r with phase, changed }.Progress s.client.opts
      (fun key => (s.keyState r.api key).after key sec bind device) := by
  obtain ⟨api, desired, snapshot, changed₀, phase₀⟩ := r
  cases ht with
  | removesDone | readOwned | readForeign | removedFromBind | droppedUnused | announced
  | silent => exact h
  | @stillWanted key keys hwanted =>
    refine ⟨fun key' hkey' => ?_, h.2⟩
    rcases h.1 key' hkey' with hdesired | hmem
    · exact .inl hdesired
    · rcases List.mem_cons.mp hmem with rfl | hrest
      · exact .inl hwanted
      · exact .inr hrest
  | @deleted key keys =>
    refine ⟨h.1, fun key' hkey' => ?_⟩
    have hne : key' ≠ key := fun heq => hcurrent.unwanted key rfl (heq ▸ hkey')
    intro current hspec
    exact h.2 key' hkey' current ((if_neg hne).symm.trans hspec)
  | deleteFailed | upsertFailed | upsertFailedNew => exact absurd (hok _ rfl) Bool.false_ne_true
  | @removed key keys =>
    refine ⟨fun key' hkey' => ?_, h.2⟩
    have hkey' : (if key' = key then none else (s.keyState api key').applied) ≠ none := hkey'
    split at hkey'
    · exact absurd rfl hkey'
    · next hne => exact (h.1 key' hkey').imp_right (List.mem_of_ne_of_mem hne)
  | removeReported | takenOver | takenOverInBind | conflicted | undoneInBind | upsertReported =>
    exact h.elim
  | @upsertsBegin keys horder =>
    refine ⟨h.1, fun key wanted hget hnot => ?_, fun key hkey => ?_⟩
    · exact absurd (horder.mem_iff.mpr (mem_of_get hget)) hnot
    · exact h.2 key (horder.mem_iff.mp hkey)
  | upsertsDone => exact ⟨h.1, h.2.1⟩
  | visitedNew | visitedNamed => exact ⟨h.1, h.2.1, (List.forall_mem_cons.mp h.2.2).2, nofun⟩
  | @visitedOwned key keys wanted current owned hwanted hspec =>
    refine ⟨h.1, h.2.1, (List.forall_mem_cons.mp h.2.2).2, fun hequal wanted' hwanted' =>
      ⟨current, hspec, ?_⟩⟩
    cases hwanted.symm.trans hwanted'
    exact (Bool.not_eq_false' _).mp hequal
  | @visitedLost key _ current owned _ hspec hget hlost =>
    have hfree := h.2.2 key List.mem_cons_self current hspec
    rw [hget] at hfree
    exact absurd (hlost.symm.trans hfree) nofun
  | @visitedForeign key _ current _ hspec hget hforeign =>
    have hfree := h.2.2 key List.mem_cons_self current hspec
    rw [hget] at hfree
    exact absurd hfree hforeign
  | @updatedBind key keys wanted hwanted =>
    refine ⟨h.1, h.2.1.congr fun key' hkey' => ?_, h.2.2.1, fun wanted' hwanted' => ?_⟩
    · exact KeyState.ext rfl rfl (if_neg (List.ne_of_not_mem_cons hkey'))
    · cases hwanted.symm.trans hwanted'
      exact KeyState.hasConfig_after key wanted _ none none
  | @refreshedBind key keys wanted hwanted =>
    refine ⟨h.1, h.2.1.congr fun key' hkey' => ?_, h.2.2.1, fun wanted' hwanted' => ⟨?_, ?_⟩⟩
    · exact KeyState.ext rfl rfl (if_neg (List.ne_of_not_mem_cons hkey'))
    · exact h.2.2.2 rfl wanted' hwanted'
    · cases hwanted.symm.trans hwanted'
      exact KeyState.hasConfig_after key wanted _ none none
  | @upserted key keys wanted hwanted =>
    refine ⟨h.1, h.2.1.congr fun key' hkey' => ?_, fun key' hkey' current hspec => ?_,
      fun wanted' hwanted' => ⟨?_, h.2.2.2 wanted' hwanted'⟩⟩
    · exact KeyState.ext (if_neg (List.ne_of_not_mem_cons hkey')) rfl rfl
    · have hne : key' ≠ key := ne_of_mem_tail hcurrent.nodup hkey'
      exact h.2.2.1 key' hkey' current ((if_neg hne).symm.trans hspec)
    · cases hwanted.symm.trans hwanted'
      exact ⟨_, if_pos rfl, decide_eq_true rfl⟩
  | @applied key needsUpsert keys wanted hwanted =>
    refine ⟨fun key' hkey' => ?_, fun key' wanted' hwanted' hnot => ?_, h.2.2.1⟩
    · have hkey' : (if key' = key then some (wanted.applied s.client.opts)
        else (s.keyState api key').applied) ≠ none := hkey'
      split at hkey'
      · next heq =>
        rw [heq]
        exact .inl (mem_of_get hwanted)
      · exact h.1 key' hkey'
    · by_cases heq : key' = key
      · subst heq
        cases hwanted.symm.trans hwanted'
        obtain ⟨hspec, hconfig⟩ := h.2.2.2 wanted hwanted
        exact ⟨hspec, if_pos rfl, hconfig⟩
      · have hold := h.2.1 key' wanted' hwanted' fun hmem => hnot (List.mem_of_ne_of_mem heq hmem)
        exact ⟨hold.spec, (if_neg heq).trans hold.applied, hold.config⟩
  | skipped needsUpsert hnone hphase => exact (hcurrent.not_skipped hnone hphase).elim

end

end WgoTailscale
