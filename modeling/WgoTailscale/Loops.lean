import WgoTailscale.Flow

/-!
# The loops over peers (`map.go`, `client.go`)

The steps of `reconcilePeers` and `removeOwnedPeers` as tables: `Reconcile.Turn` says for every phase
where the loop goes next, whether the function will announce a change, and the one section, call to the
bind or call to the device that it makes on the way. What is proved about these functions is proved by
cases over their turns.
-/

namespace WgoTailscale

/-- A turn of `reconcilePeers`: the phase before and after it, whether a change is to be announced, and
the section, the call to the bind and the call to the device. -/
inductive Reconcile.Turn (s : Sys) (r : Reconcile) : ReconcilePhase → ReconcilePhase → Bool →
    Option Section → Option BindAct → Option DeviceAct → Prop
  -- the peers that are no longer wanted
  | removesDone : Turn s r (.removeNext []) .upsertBegin r.changed none none none
  | stillWanted {key keys} (h : key ∈ r.desired) :
      Turn s r (.removeNext (key :: keys)) (.removeNext keys) r.changed none none none
  | readOwned {key keys} (h : key ∉ r.desired) (howned : s.deletable r.api r.applied key = true) :
      Turn s r (.removeNext (key :: keys)) (.removeCall key keys) r.changed none none
        (some (.peerSpec r.api key))
  | readForeign {key keys} (h : key ∉ r.desired) (hlost : s.deletable r.api r.applied key = false) :
      Turn s r (.removeNext (key :: keys)) (.removeBind key keys) r.changed none none
        (some (.peerSpec r.api key))
  | deleted {key keys} : Turn s r (.removeCall key keys) (.removeBind key keys) r.changed none none
      (some (.delete r.api key true))
  | deleteFailed {key keys} (err : String) :
      Turn s r (.removeCall key keys) (.reportRemove key err keys) r.changed none none
        (some (.delete r.api key false))
  | removedFromBind {key keys} : Turn s r (.removeBind key keys) (.removeCommit key keys) r.changed
      none (some (.removePeer key)) none
  | removed {key keys} : Turn s r (.removeCommit key keys) (.removeNext keys) true
      (some (.peerRemoved key)) none none
  | removeReported {key err keys} : Turn s r (.reportRemove key err keys) (.removeNext keys) r.changed
      (some (.setPeerError key err)) none none
  -- the wanted peers
  | upsertsBegin {keys} (h : r.desired.Listing keys) :
      Turn s r .upsertBegin (.upsertNext keys) r.changed none none none
  | upsertsDone : Turn s r (.upsertNext []) .dropUnused r.changed none none none
  | visitedNew {key keys wanted} (h : r.desired.get key = some wanted)
      (hspec : s.peerSpec r.api key = none) :
      Turn s r (.upsertNext (key :: keys)) (.updateBind key true keys) r.changed none none
        (some (.peerSpec r.api key))
  | visitedOwned {key keys wanted current owned} (h : r.desired.get key = some wanted)
      (hspec : s.peerSpec r.api key = some current) (hget : r.applied.get key = some owned)
      (hstill : peerSpecStillOwned current owned = true) :
      Turn s r (.upsertNext (key :: keys)) (.updateBind key
        (!peerSpecsEqual current (peerSpecFor s.client.opts key wanted)) keys) r.changed none none
        (some (.peerSpec r.api key))
  | visitedLost {key keys current owned} (h : key ∈ r.desired)
      (hspec : s.peerSpec r.api key = some current) (hget : r.applied.get key = some owned)
      (hlost : peerSpecStillOwned current owned = false) :
      Turn s r (.upsertNext (key :: keys)) (.takeOver key keys) r.changed none none
        (some (.peerSpec r.api key))
  | visitedNamed {key keys current} (h : key ∈ r.desired)
      (hspec : s.peerSpec r.api key = some current) (hget : r.applied.get key = none)
      (hnamed : (current.endpoint.any (·.transport = s.client.opts.transportID)) = true) :
      Turn s r (.upsertNext (key :: keys)) (.updateBind key true keys) r.changed none none
        (some (.peerSpec r.api key))
  | visitedForeign {key keys current} (h : key ∈ r.desired)
      (hspec : s.peerSpec r.api key = some current) (hget : r.applied.get key = none)
      (hforeign : ¬ (current.endpoint.any (·.transport = s.client.opts.transportID)) = true) :
      Turn s r (.upsertNext (key :: keys)) (.conflict key keys) r.changed none none
        (some (.peerSpec r.api key))
  | takenOver {key keys} : Turn s r (.takeOver key keys) (.takeOverBind key keys) r.changed
      (some (.peerTakenOver key)) none none
  | takenOverInBind {key keys} : Turn s r (.takeOverBind key keys) (.conflict key keys) r.changed none
      (some (.removePeer key)) none
  | conflicted {key keys} : Turn s r (.conflict key keys) (.upsertNext keys) r.changed
      (some (.setPeerError key errPeerConflict)) none (some (.conflict r.api key))
  | updatedBind {key keys wanted} (h : r.desired.get key = some wanted) :
      Turn s r (.updateBind key true keys) (.upsertCall key keys) r.changed none
        (some (.updatePeer (peerConfigFor key wanted))) none
  | refreshedBind {key keys wanted} (h : r.desired.get key = some wanted) :
      Turn s r (.updateBind key false keys) (.apply key false keys) r.changed none
        (some (.updatePeer (peerConfigFor key wanted))) none
  | upserted {key keys wanted} (h : r.desired.get key = some wanted) :
      Turn s r (.upsertCall key keys) (.apply key true keys) r.changed none none
        (some (.upsert r.api (peerSpecFor s.client.opts key wanted) true))
  | upsertFailed {key keys wanted} (err : String) (h : r.desired.get key = some wanted)
      (howned : key ∈ r.applied) :
      Turn s r (.upsertCall key keys) (.reportUpsert key err keys) r.changed none none
        (some (.upsert r.api (peerSpecFor s.client.opts key wanted) false))
  | upsertFailedNew {key keys wanted} (err : String) (h : r.desired.get key = some wanted)
      (hnew : key ∉ r.applied) :
      Turn s r (.upsertCall key keys) (.undoBind key err keys) r.changed none none
        (some (.upsert r.api (peerSpecFor s.client.opts key wanted) false))
  | undoneInBind {key err keys} : Turn s r (.undoBind key err keys) (.reportUpsert key err keys)
      r.changed none (some (.removePeer key)) none
  | upsertReported {key err keys} : Turn s r (.reportUpsert key err keys) (.upsertNext keys) r.changed
      (some (.setPeerError key err)) none none
  | applied {key needsUpsert keys wanted} (h : r.desired.get key = some wanted) :
      Turn s r (.apply key needsUpsert keys) (.upsertNext keys)
        (r.changed || s.client.peerAppliedChanges key (wanted.applied s.client.opts) needsUpsert)
        (some (.peerApplied key (wanted.applied s.client.opts))) none none
  -- a key that is not wanted is never visited
  | skipped {phase key keys} (needsUpsert : Bool) (h : r.desired.get key = none)
      (hphase : phase = .upsertNext (key :: keys) ∨ phase = .updateBind key needsUpsert keys ∨
        phase = .upsertCall key keys ∨ phase = .apply key needsUpsert keys) :
      Turn s r phase (.upsertNext keys) r.changed none none none
  -- the end
  | droppedUnused : Turn s r .dropUnused .announce r.changed (some (.dropUnused r.desired.keys))
      none none
  | announced (h : r.changed = true) : Turn s r .announce .unlock r.changed (some .announcePeers)
      none none
  | silent (h : r.changed = false) : Turn s r .announce .unlock r.changed none none none

/-- A turn of `removeOwnedPeers`. -/
inductive RemoveOwned.Turn (s : Sys) (r : RemoveOwned) : RemoveOwnedPhase → RemoveOwnedPhase →
    Option Section → Option BindAct → Option DeviceAct → Prop
  | done : Turn s r (.next []) .commit none none none
  | readOwned {key keys api} (h : r.api = some api) (howned : s.deletable api r.applied key = true) :
      Turn s r (.next (key :: keys)) (.call key keys) none none (some (.peerSpec api key))
  | readForeign {key keys api} (h : r.api = some api) (hlost : s.deletable api r.applied key = false) :
      Turn s r (.next (key :: keys)) (.bind key keys) none none (some (.peerSpec api key))
  | called {key keys api} (h : r.api = some api) (ok : Bool) :
      Turn s r (.call key keys) (.bind key keys) none none (some (.delete api key ok))
  | noAPI {phase key keys} (h : r.api = none)
      (hphase : phase = .next (key :: keys) ∨ phase = .call key keys) :
      Turn s r phase (.bind key keys) none none none
  | removedFromBind {key keys} :
      Turn s r (.bind key keys) (.next keys) none (some (.removePeer key)) none
  | forgotten : Turn s r .commit .unlock (some (.forgetPeers r.keys)) none none

section
variable {ch : Choice} {s : Sys} {e : Effect}

/-- Reading a wanted peer's specification is a turn. -/
theorem Reconcile.turn_visit {r : Reconcile} {key : NodePublic} {wanted : DesiredPeer}
    {keys : List NodePublic} (h : r.desired.get key = some wanted) :
    r.Turn s (.upsertNext (key :: keys))
      (r.visit s.client.opts key wanted keys (s.peerSpec r.api key)) r.changed none none
      (some (.peerSpec r.api key)) := by
  have hmem := FinMap.mem_of_get h
  unfold Reconcile.visit
  split
  · next hspec => exact .visitedNew h hspec
  · next current hspec =>
    split
    · next owned hget =>
      split
      · next hstill => exact .visitedOwned h hspec hget hstill
      · next hlost => exact .visitedLost hmem hspec hget (Bool.eq_false_iff.mpr hlost)
    · next hget =>
      split
      · next hnamed => exact .visitedNamed hmem hspec hget hnamed
      · next hforeign => exact .visitedForeign hmem hspec hget hforeign

/-- A step of `reconcilePeers` is a turn, or its end. -/
theorem reconcile_turn {r : Reconcile} (h : reconcileEffect ch s r = some e) :
    (r.phase = .unlock ∧
      e = { ctl := { s.ctl with reconcileMu := false }, frames := [.deviceRUnlock] }) ∨
    ∃ phase changed sec bind device, r.Turn s r.phase phase changed sec bind device ∧
      e = { ctl := s.ctl, sec, bind, device, frames := [.reconciling { r with phase, changed }] } := by
  revert h
  fun_cases reconcileEffect ch s r <;> intro h <;> cases h
  case case20.refl key needsUpsert keys hphase wanted hwanted hnot =>
    obtain rfl := Bool.eq_false_iff.mpr hnot
    exact .inr ⟨_, _, _, _, _, hphase ▸ .refreshedBind hwanted, rfl⟩
  all_goals first
    | exact .inl ⟨‹_›, rfl⟩
    | refine .inr ⟨_, _, _, _, _, ?_, rfl⟩
  all_goals rw [‹r.phase = _›]
  all_goals first
    | exact .removesDone
    | exact .stillWanted ‹_›
    | exact .readOwned ‹_› ‹_›
    | exact .readForeign ‹_› (Bool.eq_false_iff.mpr ‹_›)
    | exact .deleted
    | exact .deleteFailed _
    | exact .removedFromBind
    | exact .removed
    | exact .removeReported
    | exact .upsertsBegin ‹_›
    | exact .upsertsDone
    | exact Reconcile.turn_visit ‹_›
    | exact .takenOver
    | exact .takenOverInBind
    | exact .conflicted
    | exact .updatedBind ‹_›
    | exact .upserted ‹_›
    | exact .upsertFailed _ ‹_› ‹_›
    | exact .upsertFailedNew _ ‹_› ‹_›
    | exact .undoneInBind
    | exact .upsertReported
    | exact .applied ‹_›
    | exact .droppedUnused
    | exact .announced ‹_›
    | exact .silent (Bool.eq_false_iff.mpr ‹_›)
    | exact .skipped false ‹_› (.inl rfl)
    | exact .skipped _ ‹_› (.inr (.inl rfl))
    | exact .skipped false ‹_› (.inr (.inr (.inl rfl)))
    | exact .skipped _ ‹_› (.inr (.inr (.inr rfl)))

/-- A step of `removeOwnedPeers` is a turn, or its end. -/
theorem removeOwned_turn {r : RemoveOwned} (h : removeOwnedEffect ch s r = some e) :
    (r.phase = .unlock ∧
      e = { ctl := { s.ctl with reconcileMu := false }, frames := [.deviceRUnlock] }) ∨
    ∃ phase sec bind device cleanupErrs, r.Turn s r.phase phase sec bind device ∧
      e = { ctl := { s.ctl with cleanupErrs }, sec, bind, device,
            frames := [.removingOwned { r with phase }] } := by
  revert h
  fun_cases removeOwnedEffect ch s r <;> intro h <;> cases h
  all_goals first
    | exact .inl ⟨‹_›, rfl⟩
    | refine .inr ⟨_, _, _, _, _, ?_, rfl⟩
  all_goals rw [‹r.phase = _›]
  all_goals first
    | exact .done
    | exact .readOwned ‹_› ‹_›
    | exact .readForeign ‹_› (Bool.eq_false_iff.mpr ‹_›)
    | exact .called ‹_› _
    | exact .noAPI ‹_› (.inl rfl)
    | exact .noAPI ‹_› (.inr rfl)
    | exact .removedFromBind
    | exact .forgotten

end

end WgoTailscale
