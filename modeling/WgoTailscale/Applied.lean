import WgoTailscale.Dormancy
import WgoTailscale.Loops

/-!
# What the client has published

`c.applied` records the peers that the client has on the device, and every local state has a flag that
says the same. Only five sections change either, and they change both (`localStep_run`,
`localAgrees_run`).
They run in the loops of `reconcilePeers` and `removeOwnedPeers`, of which at most one is under way,
or while nobody else may read the device. `LoopInvariant` is the rule for what follows from that: an
invariant of the shared state and of the loop under way is shown by turns of the loop. The first such
invariant is that a loop's snapshot stays current for the keys that it still has to visit
(`keeps_current`).
-/

namespace WgoTailscale

open Machine FinMap
open Multiset (mem_add mem_cons mem_cons_of_mem mem_cons_self notMem_zero)

/-! ## Sections -/

section
variable (c : Client) (now : Time)

/-- A map response changes neither what is applied nor the local states. -/
theorem untouched_applyMapResponse (response : MapResponse) :
    (c.applyMapResponse response now).client.applied = c.applied ∧
      (c.applyMapResponse response now).client.peerLocal = c.peerLocal := by
  have hsame := (reduces_reduceMap response.effective now c).untouched
  simp only [Client.untouched, Prod.mk.injEq] at hsame
  obtain ⟨-, -, -, -, hlocal, happlied, -⟩ := hsame
  rw [applyMapResponse_view Client.applied fun _ _ => rfl,
    applyMapResponse_view Client.peerLocal fun _ _ => rfl]
  exact ⟨happlied, hlocal⟩

theorem untouched_onDERPLatency (report : DERPLatencyReport) :
    (c.onDERPLatency report now).client.applied = c.applied ∧
      (c.onDERPLatency report now).client.peerLocal = c.peerLocal := by
  unfold Client.onDERPLatency
  dsimp only
  repeat' split
  all_goals exact ⟨rfl, rfl⟩

theorem applied_run (x : Section) : (x.run c now).client.applied = x.onApplied c.applied := by
  rcases frame_run c now x with ⟨response, rfl⟩ | hframe
  · exact (untouched_applyMapResponse c now response).1
  · exact hframe.applied

/-- What a section does with a peer: what it leaves applied under the key, and the local state. -/
inductive LocalStep (key : NodePublic) :
    Section → Option AppliedPeer → Option PeerLocalState → Prop
  | same {x : Section} : LocalStep key x (c.applied.get key) (c.peerLocal.get key)
  | failed (err : String) : LocalStep key (.setPeerError key err) (c.applied.get key)
      (some { (c.peerLocal.get key).getD {} with err })
  | published (desiredApplied : AppliedPeer) : LocalStep key (.peerApplied key desiredApplied)
      (some desiredApplied) (some { (c.peerLocal.get key).getD {} with applied := true, err := "" })
  | takenOver : LocalStep key (.peerTakenOver key) none
      ((c.peerLocal.get key).map ({ · with applied := false }))
  | removed {x : Section} : LocalStep key x none none
  | path (update : PathUpdate) (hkey : update.nodeKey = key) :
      LocalStep key (.onPath update) (c.applied.get key)
        (some (Client.updatePath ((c.peerLocal.get key).getD {})
          { update with direct := unmapAddrPort update.direct } now))
  | recovered (snapshot : NodePublic → Option Bool) {localState : PeerLocalState}
      (hget : c.peerLocal.get key = some localState)
      (hstale : c.stalePath snapshot now key localState = true) :
      LocalStep key (.recoverStaleDirectPaths snapshot) (c.applied.get key)
        (some { localState with directRecovery := true, recoveryDirect := localState.direct })
  | cleared : LocalStep key .clearAppliedDevice none
      ((c.peerLocal.get key).map
        ({ · with applied := false, path := .none, direct := .zero, latency := 0, pathAt := 0 }))

theorem peerLocal_onPath (update : PathUpdate) :
    (c.onPath update now).client.peerLocal = c.peerLocal ∨
      (c.onPath update now).client.peerLocal = c.peerLocal.insert update.nodeKey
        (Client.updatePath ((c.peerLocal.get update.nodeKey).getD {})
          { update with direct := unmapAddrPort update.direct } now) := by
  unfold Client.onPath
  dsimp only
  repeat' split
  all_goals first
    | exact .inl rfl
    | exact .inr rfl

theorem localStep_run (x : Section) (key : NodePublic) : LocalStep c now key x
    ((x.run c now).client.applied.get key) ((x.run c now).client.peerLocal.get key) := by
  cases x with
  | applyMapResponse response =>
    obtain ⟨happlied, hlocal⟩ := untouched_applyMapResponse c now response
    dsimp only [Section.run]
    rw [happlied, hlocal]
    exact .same
  | onDERPLatency report =>
    obtain ⟨happlied, hlocal⟩ := untouched_onDERPLatency c now report
    dsimp only [Section.run]
    rw [happlied, hlocal]
    exact .same
  | onPath update =>
    rw [applied_run]
    dsimp only [Section.run, Section.onApplied]
    rcases peerLocal_onPath c now update with hsame | hinsert
    · rw [hsame]
      exact .same
    · rw [hinsert, get_insert]
      split
      · next heq =>
        subst heq
        exact .path update rfl
      · exact .same
  | recoverStaleDirectPaths snapshot =>
    dsimp only [Section.run, Client.recoverStaleDirectPaths]
    rw [get_mapVals]
    cases hget : c.peerLocal.get key with
    | none =>
      rw [Option.map_none, ← hget]
      exact .same
    | some localState =>
      rw [Option.map_some]
      split
      · next hstale => exact .recovered snapshot hget hstale
      · exact hget ▸ .same
  | setPeerError key' err =>
    dsimp only [Section.run, Client.setPeerError, Client.bump]
    rw [get_insert]
    split
    · next heq =>
      subst heq
      exact .failed err
    · exact .same
  | peerRemoved key' =>
    dsimp only [Section.run, Client.peerRemoved]
    rw [get_erase, get_erase]
    split
    · exact .removed
    · exact .same
  | peerTakenOver key' =>
    dsimp only [Section.run, Client.peerTakenOver]
    by_cases heq : key = key'
    · subst heq
      have htaken : LocalStep c now key (.peerTakenOver key) none _ := .takenOver
      split
      · next hnone =>
        rw [get_erase_self, hnone]
        rwa [hnone] at htaken
      · next localState hget =>
        rw [get_erase_self, get_insert_self]
        rwa [hget] at htaken
    · rw [get_erase_ne _ heq]
      split
      · exact .same
      · rw [get_insert_ne _ _ heq]
        exact .same
  | peerApplied key' desiredApplied =>
    dsimp only [Section.run, Client.peerApplied]
    rw [get_insert, get_insert]
    split
    · next heq =>
      subst heq
      exact .published desiredApplied
    · exact .same
  | dropUnused desired =>
    dsimp only [Section.run, Client.dropUnused]
    rw [get_filter]
    cases hget : c.peerLocal.get key with
    | none =>
      rw [Option.filter_none, ← hget]
      exact .same
    | some localState =>
      rw [Option.filter_some]
      split
      · exact hget ▸ .same
      · next hunused =>
        -- what is applied is kept
        rw [not_mem_iff.mp fun happlied => hunused (by simp [happlied])]
        exact .removed
  | clearAppliedDevice =>
    have hcleared : LocalStep c now key .clearAppliedDevice none _ := .cleared
    dsimp only [Section.run, Client.clearAppliedDevice, Client.announcePeers, Client.bump]
    split
    · rwa [get_mapVals]
    · rwa [get_mapVals]
  | forgetPeers keys =>
    dsimp only [Section.run, Client.forgetPeers]
    rw [get_eraseAll, get_eraseAll]
    split
    · exact .removed
    · exact .same
  | _ =>
    dsimp only [Section.run, Client.confirmPeer, Client.revokePeerConfirmation,
      Client.confirmationChanged, Client.syncConfirmedCache, Client.onEndpoints,
      Client.reportError, Client.setInteraction, Client.setTerminalError, Client.resumeInteraction,
      Client.reportClosedDevice, Client.restoreStateAfterDeviceAttach, Client.registered,
      Client.startBegin, Client.startFailed, Client.runtimeInstalled, Client.closeUnstarted,
      Client.closeStopping, Client.closeStopped, Client.announcePeers, Client.bump]
    repeat' split
    all_goals exact .same

/-- A peer is applied if and only if its local state says so. -/
def LocalAgrees : Prop :=
  ∀ key, key ∈ c.applied ↔ (c.peerLocal.get key).any PeerLocalState.applied = true

variable {c now}

/-- A path update sets the path, and not the flag. -/
theorem updatePath_sets (now : Time) (old : PeerLocalState) (update : PathUpdate) :
    (Client.updatePath old update now).applied = old.applied ∧
      (Client.updatePath old update now).direct = update.direct ∧
      (Client.updatePath old update now).path =
        if update.kind = "direct" then .direct else .derp := by
  unfold Client.updatePath
  dsimp only
  repeat' split
  all_goals exact ⟨rfl, rfl, rfl⟩

/-- Every section keeps the flags in step with what is applied. -/
theorem localAgrees_run (h : LocalAgrees c) (x : Section) : LocalAgrees (x.run c now).client := by
  intro key
  have hkey := h key
  have hstep := localStep_run c now x key
  rw [mem_iff] at hkey ⊢
  generalize (x.run c now).client.applied.get key = applied at hstep ⊢
  generalize (x.run c now).client.peerLocal.get key = localState' at hstep ⊢
  cases hstep with
  | same => exact hkey
  | failed err =>
    rw [hkey]
    cases c.peerLocal.get key <;> simp
  | published desiredApplied => simp
  | takenOver | cleared => cases c.peerLocal.get key <;> simp
  | removed => simp
  | path update hsame =>
    rw [hkey, Option.any_some, (updatePath_sets now _ _).1]
    cases c.peerLocal.get key <;> simp
  | recovered snapshot hget hstale =>
    rw [hkey, hget]
    rfl

end

/-! ## Loops -/

namespace ReconcilePhase

/-- The keys whose entries in the snapshot are still to be used. -/
def todo : ReconcilePhase → List NodePublic
  | .removeNext keys | .upsertNext keys | .takeOverBind _ keys | .conflict _ keys
  | .reportUpsert _ _ keys => keys
  | .removeCall key keys | .removeBind key keys | .removeCommit key keys | .reportRemove key _ keys
  | .takeOver key keys | .updateBind key _ keys | .upsertCall key keys | .undoBind key _ keys
  | .apply key _ keys => key :: keys
  | .upsertBegin | .dropUnused | .announce | .unlock => []

/-- Has the loop over the wanted peers not begun? -/
def removing : ReconcilePhase → Bool
  | .removeNext _ | .removeCall _ _ | .removeBind _ _ | .removeCommit _ _ | .reportRemove _ _ _
  | .upsertBegin => true
  | _ => false

/-- The key that is being removed. -/
def removes : ReconcilePhase → Option NodePublic
  | .removeCall key _ | .removeBind key _ | .removeCommit key _ | .reportRemove key _ _ => some key
  | _ => none

end ReconcilePhase

/-- The snapshot of `reconcilePeers` is current where it is still used: for the keys to come, and
until the loop over them begins, for the wanted ones. -/
structure Reconcile.Current (r : Reconcile) (applied : FinMap NodePublic AppliedPeer) : Prop where
  nodup : r.phase.todo.Nodup
  todo : ∀ key ∈ r.phase.todo, applied.get key = r.applied.get key
  among : ∀ key ∈ r.phase.todo, if r.phase.removing then key ∈ r.applied else key ∈ r.desired
  wanted : r.phase.removing = true → ∀ key ∈ r.desired, applied.get key = r.applied.get key
  unwanted : ∀ key, r.phase.removes = some key → key ∉ r.desired

variable {phase : ReconcilePhase} {changed : Bool} {key : NodePublic} {s : Sys}

section
variable {r : Reconcile} {applied applied' : FinMap NodePublic AppliedPeer}

/-- Going on with some of the keys to come. -/
theorem Reconcile.Current.next (h : r.Current applied) (hsub : phase.todo.Sublist r.phase.todo)
    (hremoving : phase.removing = r.phase.removing)
    (hunwanted : ∀ key, phase.removes = some key → key ∉ r.desired)
    (hsame : ∀ key ∈ phase.todo, applied'.get key = applied.get key)
    (hwanted : phase.removing = true → ∀ key ∈ r.desired, applied'.get key = applied.get key) :
    { r with phase, changed }.Current applied' where
  nodup := h.nodup.sublist hsub
  todo key hkey := (hsame key hkey).trans (h.todo key (hsub.subset hkey))
  among key hkey := by
    show if phase.removing then key ∈ r.applied else key ∈ r.desired
    rw [hremoving]
    exact h.among key (hsub.subset hkey)
  wanted hr key hkey := (hwanted hr key hkey).trans (h.wanted (hremoving.symm.trans hr) key hkey)
  unwanted := hunwanted

/-- Going on while what is applied stays as it is. -/
theorem Reconcile.Current.goOn (h : r.Current applied) (hsub : phase.todo.Sublist r.phase.todo)
    (hremoving : phase.removing = r.phase.removing)
    (hunwanted : ∀ key, phase.removes = some key → key ∉ r.desired) :
    { r with phase, changed }.Current applied :=
  h.next hsub hremoving hunwanted (fun _ _ => rfl) fun _ _ _ => rfl

/-- For the keys to come, the snapshot says what is applied. -/
theorem Reconcile.Current.mem_iff (h : r.Current applied) (hkey : key ∈ r.phase.todo) :
    key ∈ applied ↔ key ∈ r.applied :=
  mem_congr (h.todo key hkey)

/-- A key that is visited is wanted, so that none is skipped. -/
theorem Reconcile.Current.not_skipped (h : r.Current applied) {keys : List NodePublic}
    {needsUpsert : Bool} (hnone : r.desired.get key = none)
    (hphase : r.phase = .upsertNext (key :: keys) ∨ r.phase = .updateBind key needsUpsert keys ∨
      r.phase = .upsertCall key keys ∨ r.phase = .apply key needsUpsert keys) : False := by
  refine not_mem_iff.mpr hnone ?_
  have hwanted := h.among key
  rcases hphase with heq | heq | heq | heq <;> rw [heq] at hwanted <;>
    exact hwanted List.mem_cons_self

/-- The keys after the one that is visited are others. -/
theorem ne_of_mem_tail {key' : NodePublic} {keys : List NodePublic} (h : (key :: keys).Nodup)
    (hkey : key' ∈ keys) : key' ≠ key :=
  fun heq => (List.nodup_cons.mp h).1 (heq ▸ hkey)

variable {ch : Choice} {e : Effect}

/-- What an effect makes of the applied peers. -/
def appliedAfter (applied : FinMap NodePublic AppliedPeer) : Option Section →
    FinMap NodePublic AppliedPeer
  | none => applied
  | some x => x.onApplied applied

theorem applied_apply (e : Effect) (now : Time) (s : Sys) :
    (e.apply now s).state.client.applied = appliedAfter s.client.applied e.sec := by
  show (e.done now s.client).client.applied = _
  unfold Effect.done
  cases e.sec with
  | none => rfl
  | some x => exact applied_run s.client now x

/-- The loops of `reconcilePeers` keep their snapshot current. -/
theorem Reconcile.Current.turn (h : r.Current applied) {sec : Option Section}
    {bind : Option BindAct} {device : Option DeviceAct}
    (ht : r.Turn s r.phase phase changed sec bind device) :
    { r with phase, changed }.Current (appliedAfter applied sec) := by
  obtain ⟨api, desired, snapshot, changed₀, phase₀⟩ := r
  have hnot {key : NodePublic} {phase : ReconcilePhase} (hnone : phase.removes = none) :
      phase.removes = some key → key ∉ desired := by
    rw [hnone]
    exact nofun
  cases ht with
  | removesDone | upsertsDone | droppedUnused | announced | silent =>
    exact h.goOn (List.nil_sublist _) rfl fun _ => hnot rfl
  | stillWanted | removeReported | upsertFailed | undoneInBind | visitedForeign =>
    exact h.goOn (List.sublist_cons_self _ _) rfl fun _ => hnot rfl
  | readOwned hunwanted howned | readForeign hunwanted hlost =>
    exact h.goOn (List.Sublist.refl _) rfl fun _ heq => Option.some.inj heq ▸ hunwanted
  | deleted | deleteFailed | removedFromBind => exact h.goOn (List.Sublist.refl _) rfl h.unwanted
  | @removed key keys =>
    refine h.next (List.sublist_cons_self _ _) rfl (fun _ => hnot rfl) (fun key' hkey' => ?_)
      fun _ key' hkey' => ?_
    · exact get_erase_ne _ (ne_of_mem_tail h.nodup hkey')
    · exact get_erase_ne _ fun heq => h.unwanted key rfl (heq ▸ hkey')
  | @upsertsBegin keys horder =>
    exact ⟨horder.nodup, fun key hkey => h.wanted rfl key (horder.mem_iff.mp hkey),
      fun key hkey => horder.mem_iff.mp hkey, nofun, fun _ => hnot rfl⟩
  | takenOver =>
    exact h.next (List.sublist_cons_self _ _) rfl (fun _ => hnot rfl)
      (fun key' hkey' => get_erase_ne _ (ne_of_mem_tail h.nodup hkey')) nofun
  | visitedNew | visitedOwned | visitedLost | visitedNamed | takenOverInBind | conflicted | upserted
  | upsertReported | updatedBind | refreshedBind | upsertFailedNew =>
    exact h.goOn (List.Sublist.refl _) rfl fun _ => hnot rfl
  | applied hwanted =>
    exact h.next (List.sublist_cons_self _ _) rfl (fun _ => hnot rfl)
      (fun key' hkey' => get_insert_ne _ _ (ne_of_mem_tail h.nodup hkey')) nofun
  | @skipped _ key keys needsUpsert hnone hphase =>
    have htodo : phase₀.todo = key :: keys ∧ phase₀.removing = false := by
      rcases hphase with rfl | rfl | rfl | rfl <;> exact ⟨rfl, rfl⟩
    refine h.goOn (?_ : keys.Sublist phase₀.todo) htodo.2.symm fun _ => hnot rfl
    rw [htodo.1]
    exact List.sublist_cons_self _ _

end

/-- The keys that `removeOwnedPeers` has still to visit. -/
def RemoveOwnedPhase.todo : RemoveOwnedPhase → List NodePublic
  | .next keys => keys
  | .call key keys | .bind key keys => key :: keys
  | .commit | .unlock => []

/-- The snapshot of `removeOwnedPeers` is what is applied, until it has forgotten all of it. -/
structure RemoveOwned.Current (r : RemoveOwned) (applied : FinMap NodePublic AppliedPeer) : Prop where
  keys : r.applied.Listing r.keys
  past : ∃ past, r.keys = past ++ r.phase.todo
  applied : match r.phase with
    | .unlock => applied = ∅
    | _ => applied = r.applied

section
variable {applied : FinMap NodePublic AppliedPeer}

theorem RemoveOwned.Current.turn {r : RemoveOwned} (h : r.Current applied)
    {phase : RemoveOwnedPhase} {sec : Option Section} {bind : Option BindAct}
    {device : Option DeviceAct} (ht : r.Turn s r.phase phase sec bind device) :
    { r with phase }.Current (appliedAfter applied sec) := by
  obtain ⟨api, snapshot, keys, phase₀⟩ := r
  obtain ⟨hkeys, ⟨past, hpast⟩, happlied⟩ := h
  cases ht with
  | done | readOwned | readForeign | called => exact ⟨hkeys, ⟨past, hpast⟩, happlied⟩
  | noAPI hapi hphase =>
    rcases hphase with rfl | rfl
    · exact ⟨hkeys, ⟨past, hpast⟩, happlied⟩
    · exact ⟨hkeys, ⟨past, hpast⟩, happlied⟩
  | @removedFromBind key rest =>
    refine ⟨hkeys, ⟨past ++ [key], hpast.trans ?_⟩, happlied⟩
    rw [List.append_assoc]
    rfl
  | forgotten =>
    refine ⟨hkeys, ⟨past, hpast⟩, ext_get fun key => ?_⟩
    show (applied.eraseAll keys).get key = none
    rw [get_eraseAll]
    split
    · rfl
    · next hkey =>
      rw [show applied = snapshot from happlied]
      exact not_mem_iff.mp fun hmem => hkey (hkeys.mem_iff.mpr hmem)

end

/-! ## Who changes what is applied -/

/-- The frames that change what is applied. -/
def Frame.Applies (f : Frame) : Prop :=
  f.isLoop = true ∨ f = .watching .clear ∨ ∃ api, f = .attaching api .clear

section
variable {ch : Choice} {f g : Frame} {e : Effect} {R : Multiset Frame}

theorem applied_apply_of_not (h : Lifecycle s (f ::ₘ R)) (he : effect ch s f = some e)
    (hf : ¬ f.Applies) : (e.apply ch.now s).state.client.applied = s.client.applied := by
  rw [applied_apply]
  cases hsec : e.sec with
  | none => rfl
  | some x =>
    have hby := (traced_effect he).sec x hsec
    have hcalled : f = .sec x → x.isCalled = true := by
      rintro rfl
      exact h.knows _ (mem_cons_self _ _)
    cases x with
    | peerRemoved | peerTakenOver | peerApplied | forgetPeers =>
      rcases hby with hsec' | ⟨r, rfl⟩
      · exact absurd (hcalled hsec') Bool.false_ne_true
      · exact absurd (.inl rfl) hf
    | clearAppliedDevice =>
      rcases hby with hsec' | hclear
      · exact absurd (hcalled hsec') Bool.false_ne_true
      · exact absurd (.inr hclear) hf
    | _ => rfl

theorem locks_of_isLoop (h : g.isLoop = true) : g.locks = [.deviceRead, .reconcile] := by
  cases g with
  | reconciling r => rfl
  | removingOwned r => rfl
  | _ => cases h

theorem reconcile_mem_of_isLoop (h : g.isLoop = true) : .reconcile ∈ g.locks := by
  rw [locks_of_isLoop h]
  exact List.mem_cons_of_mem _ List.mem_cons_self

/-- No thread starts with a loop. -/
theorem isLoop_of_entry (h : entry s f = true) : f.isLoop = false := by
  cases f with
  | reconciling | removingOwned => cases h
  | _ => rfl

/-- While a loop is under way, nobody else changes what is applied. -/
theorem not_applies_of_loop (hlocks : LocksHeld s (f ::ₘ R)) (hg : g ∈ R) (hloop : g.isLoop = true) :
    ¬ f.Applies := by
  have hread : .deviceRead ∈ g.locks := by
    rw [locks_of_isLoop hloop]
    exact List.mem_cons_self
  have hmem : g ∈ f ::ₘ R := mem_cons_of_mem hg
  rintro (hf | rfl | ⟨api, rfl⟩)
  · exact hlocks.alone (by simp) (reconcile_mem_of_isLoop hf) hg (reconcile_mem_of_isLoop hloop)
  · exact hlocks.no_writer hmem hread (mem_cons_self _ _) List.mem_cons_self
  · exact hlocks.no_writer hmem hread (mem_cons_self _ _)
      (List.mem_cons_of_mem _ List.mem_cons_self)

end

/-! ## The loop that is under way -/

/-- `UnderWay F l`: `l` is the loop among the frames `F`, or there is none. -/
def UnderWay (F : Multiset Frame) : Option Frame → Prop
  | none => ∀ g ∈ F, g.isLoop = false
  | some g => g ∈ F ∧ g.isLoop = true

theorem exists_underWay (F : Multiset Frame) : ∃ l, UnderWay F l := by
  by_cases hloop : ∃ g ∈ F, g.isLoop = true
  · obtain ⟨g, hg⟩ := hloop
    exact ⟨some g, hg⟩
  · exact ⟨none, fun g hg => Bool.eq_false_iff.mpr fun htrue => hloop ⟨g, hg, htrue⟩⟩

/-- No loop is under way where there are no frames. -/
theorem UnderWay.eq_none {l : Option Frame} (h : UnderWay 0 l) : l = none := by
  cases l with
  | none => rfl
  | some g => exact absurd h.1 (notMem_zero _)

/-- What it takes that `J` is an invariant of the shared state and of the loop that is under way. The
policy says what else is known when a frame makes its step. -/
structure LoopInvariant (p : Policy Sys Frame Choice EnvAct) (J : Sys → Option Frame → Prop) :
    Prop where
  other : ∀ {s f R ch e l}, p.run s f R ch → effect ch s f = some e → f.isLoop = false → ¬ f.Applies →
    UnderWay R l → J s l → J (e.apply ch.now s).state l
  clear : ∀ {s f R ch}, p.run s f R ch → s.usableAPI = none →
    s.client.peerLocal.Listing ch.keyOrder → J s none →
    J (Effect.apply { ctl := s.ctl, sec := some .clearAppliedDevice
                      bind := some (.removePeers ch.keyOrder) } ch.now s).state none
  reconcileBegin : ∀ {s api nodes keys}, s.client.peers.Listing nodes → s.client.applied.Listing keys →
    J s none → J s (some (.reconciling { api, desired := s.client.desired nodes
                                         applied := s.client.applied, phase := .removeNext keys }))
  reconcileTurn : ∀ {s r R ch phase changed sec bind device}, p.run s (.reconciling r) R ch →
    r.Turn s r.phase phase changed sec bind device → J s (some (.reconciling r)) →
    J (Effect.apply { ctl := s.ctl, sec, bind, device } ch.now s).state
      (some (.reconciling { r with phase, changed }))
  reconcileEnd : ∀ {s r}, r.phase = .unlock → J s (some (.reconciling r)) →
    J { s with ctl := { s.ctl with reconcileMu := false } } none
  removeOwnedBegin : ∀ {s api keys}, s.client.applied.Listing keys → J s none →
    J s (some (.removingOwned { api, applied := s.client.applied, keys, phase := .next keys }))
  removeOwnedTurn : ∀ {s r R ch phase sec bind device errs}, p.run s (.removingOwned r) R ch →
    r.Turn s r.phase phase sec bind device → J s (some (.removingOwned r)) →
    J (Effect.apply { ctl := { s.ctl with cleanupErrs := errs }, sec, bind, device } ch.now s).state
      (some (.removingOwned { r with phase }))
  removeOwnedEnd : ∀ {s r}, r.phase = .unlock → J s (some (.removingOwned r)) →
    J { s with ctl := { s.ctl with reconcileMu := false } } none
  env : ∀ {s s' a l}, p.env s a → environment a s = some s' → J s l → J s' l

section
variable {ch : Choice} {f g : Frame} {e : Effect} {R : Multiset Frame}

/-- Whoever holds `reconcileMu` is the only loop. -/
theorem underWay_others (hlocks : LocksHeld s (f ::ₘ R)) (hf : .reconcile ∈ f.locks) :
    UnderWay R none := by
  intro g hg
  rw [Bool.eq_false_iff]
  exact fun hloop => hlocks.alone (by simp) hf hg (reconcile_mem_of_isLoop hloop)

theorem UnderWay.cons_none (h : UnderWay R none) (hf : f.isLoop = false) :
    UnderWay (f ::ₘ R) none := fun g hg => by
  rcases mem_cons.mp hg with rfl | hR
  · exact hf
  · exact h g hR

/-- A loop that a step adds is one of its own frames. -/
theorem mem_of_isLoop (hg : g ∈ (e.apply ch.now s).frames) (hloop : g.isLoop = true) :
    g ∈ e.frames ++ e.spawned.flatten := by
  rcases mem_frames_apply.mp hg with ⟨ev, -, rfl⟩ | ⟨c, -, rfl⟩ | hframe
  · cases hloop
  · cases hloop
  · exact hframe

/-- A reconciliation that is under way after a step was so before, or has just taken its snapshot. -/
theorem reconciling_cases {r : Reconcile} (he : effect ch s f = some e)
    (hr : .reconciling r ∈ (e.apply ch.now s).frames + R) :
    (∃ r₀, .reconciling r₀ ∈ f ::ₘ R ∧ r₀.desired = r.desired) ∨
      ∃ api, f = .reconcileSnapshot api ∧ r.desired = s.client.desired ch.nodeOrder := by
  rcases mem_add.mp hr with hnew | hold
  · have hnew := mem_of_isLoop hnew rfl
    rcases (traced_effect he).calls _ hnew with ⟨api, rfl⟩ | ⟨r₀, rfl⟩
    · obtain ⟨-, -, rfl⟩ := reconcile_snapshot he hnew
      exact .inr ⟨api, rfl, rfl⟩
    · rcases reconcile_frames he hnew with heq | ⟨r', heq, -, hdesired, -⟩
      · cases heq
      · cases heq
        exact .inl ⟨r₀, mem_cons_self _ _, hdesired.symm⟩
  · exact .inl ⟨r, mem_cons_of_mem hold, rfl⟩

/-- Peers are upserted by reconciliations, as their snapshots want them. -/
theorem upsert_effect {api : Nat} {spec : PeerSpec} {ok : Bool} (he : effect ch s f = some e)
    (hact : e.device = some (.upsert api spec ok)) : ∃ r key wanted, f = .reconciling r ∧
      r.desired.get key = some wanted ∧ spec = peerSpecFor s.client.opts key wanted := by
  have hloop := (traced_effect he).device (by rw [hact]; exact nofun)
  cases f with
  | reconciling r =>
    rcases reconcile_turn he with ⟨-, rfl⟩ | ⟨phase, changed, sec, bind, device, hturn, rfl⟩
    · cases hact
    · obtain rfl : device = some (.upsert api spec ok) := hact
      generalize r.phase = phase₀ at hturn
      cases hturn with
      | upserted hwanted | upsertFailed err hwanted howned | upsertFailedNew err hwanted hnew =>
        exact ⟨r, _, _, rfl, hwanted, rfl⟩
  | removingOwned r =>
    rcases removeOwned_turn he with ⟨-, rfl⟩ | ⟨phase, sec, bind, device, errs, hturn, rfl⟩
    · cases hact
    · obtain rfl : device = some (.upsert api spec ok) := hact
      generalize r.phase = phase₀ at hturn
      cases hturn
  | _ => cases hloop

/-- `clearAppliedDeviceLocked` is called while no API is usable. -/
theorem clear_effect (hknows : f.Knows s) (he : effect ch s f = some e)
    (hf : f = .watching .clear ∨ ∃ api, f = .attaching api .clear) :
    s.usableAPI = none ∧ s.client.peerLocal.Listing ch.keyOrder ∧
      ∃ frames, e = { ctl := s.ctl, sec := some .clearAppliedDevice
                      bind := some (.removePeers ch.keyOrder), frames } := by
  rcases hf with rfl | ⟨api, rfl⟩
  · have hclear : clearEffect ch s [.watching .report] = some e := he
    obtain ⟨-, hkeys, heq⟩ := clearEffect_eq hclear
    exact ⟨hknows, hkeys, _, heq⟩
  · have hclear : clearEffect ch s [.attaching api (.install false)] = some e := he
    obtain ⟨-, hkeys, heq⟩ := clearEffect_eq hclear
    exact ⟨hknows.2.2.2, hkeys, _, heq⟩

/-- The rule for invariants of the loops. -/
theorem LoopInvariant.keeps {p : Policy Sys Frame Choice EnvAct}
    {J : Sys → Option Frame → Prop} (h : LoopInvariant p J)
    (horderly : ∀ s f R ch, p.run s f R ch → Orderly s (f ::ₘ R)) :
    program.Keeps p fun s F => ∀ l, UnderWay F l → J s l where
  run s f R ch o hJ hp ho := by
    obtain ⟨e, he, rfl⟩ := Option.map_eq_some_iff.mp ho
    have hlocks := (horderly s f R ch hp).locks
    intro l hl
    cases hloop : f.isLoop with
    | false =>
      -- loops begin, go on while others make steps, or are not there
      cases l with
      | none =>
        have hR : UnderWay R none := fun g hg => hl g (mem_add.mpr (.inr hg))
        have hs := hJ none (hR.cons_none hloop)
        by_cases happlies : f.Applies
        · rcases happlies with hf | hclear
          · rw [hloop] at hf
            cases hf
          · obtain ⟨hunusable, hkeys, frames, rfl⟩ :=
              clear_effect ((horderly s f R ch hp).life.knows f (mem_cons_self _ _)) he hclear
            exact h.clear hp hunusable hkeys hs
        · exact h.other hp he hloop happlies hR hs
      | some g =>
        obtain ⟨hg, hgloop⟩ := hl
        rcases mem_add.mp hg with hnew | hold
        · have hnew := mem_of_isLoop hnew hgloop
          have hfrom := (traced_effect he).calls g hnew
          cases g with
          | reconciling r =>
            rcases hfrom with ⟨api, rfl⟩ | ⟨r', rfl⟩
            · obtain ⟨hnodes, hkeys, rfl⟩ := reconcile_snapshot he hnew
              have hs := hJ none ((underWay_others hlocks (by simp [Frame.locks])).cons_none rfl)
              dsimp only [effect] at he
              rw [if_pos ⟨hnodes, hkeys⟩] at he
              cases he
              exact h.reconcileBegin hnodes hkeys hs
            · cases hloop
          | removingOwned r =>
            rcases hfrom with ⟨api, rfl⟩ | ⟨r', rfl⟩
            · obtain ⟨hkeys, rfl⟩ := removeOwned_snapshot he hnew
              have hs := hJ none ((underWay_others hlocks (by simp [Frame.locks])).cons_none rfl)
              dsimp only [effect] at he
              rw [if_pos hkeys] at he
              cases he
              exact h.removeOwnedBegin hkeys hs
            · cases hloop
          | _ => cases hgloop
        · have hs := hJ (some g) ⟨mem_cons_of_mem hold, hgloop⟩
          exact h.other hp he hloop (not_applies_of_loop hlocks hold hgloop) ⟨hold, hgloop⟩ hs
    | true =>
      have hs := hJ (some f) ⟨mem_cons_self _ _, hloop⟩
      have hR : UnderWay R none := underWay_others hlocks (reconcile_mem_of_isLoop hloop)
      -- the loop after the step is the one that the step leaves
      have hleft {g g' : Frame} (hframes : e.frames = [g]) (hspawned : e.spawned = [])
          (hg' : UnderWay ((e.apply ch.now s).frames + R) (some g')) : g' = g := by
        rcases mem_add.mp hg'.1 with hnew | hold
        · have hnew := mem_of_isLoop hnew hg'.2
          rw [hframes, hspawned] at hnew
          exact List.mem_singleton.mp hnew
        · exact absurd hg'.2 (Bool.eq_false_iff.mp (hR g' hold))
      have hgo {g : Frame} (hg : g.isLoop = true) (hframes : e.frames = [g])
          (hspawned : e.spawned = []) : l = some g := by
        cases l with
        | none =>
          have hmem : g ∈ (e.apply ch.now s).frames + R :=
            mem_add.mpr (.inl (mem_frames_apply.mpr (.inr (.inr (by simp [hframes])))))
          rw [hl g hmem] at hg
          cases hg
        | some g' => rw [hleft hframes hspawned hl]
      have hend (hframes : e.frames = [.deviceRUnlock]) (hspawned : e.spawned = []) : l = none := by
        cases l with
        | none => rfl
        | some g' =>
          obtain rfl := hleft hframes hspawned hl
          cases hl.2
      cases f with
      | reconciling r =>
        rcases reconcile_turn he with ⟨hphase, rfl⟩ | ⟨phase, changed, sec, bind, device, ht, rfl⟩
        · obtain rfl := hend rfl rfl
          exact h.reconcileEnd hphase hs
        · obtain rfl := hgo rfl rfl rfl
          exact h.reconcileTurn hp ht hs
      | removingOwned r =>
        rcases removeOwned_turn he with ⟨hphase, rfl⟩ | ⟨phase, sec, bind, device, errs, ht, rfl⟩
        · obtain rfl := hend rfl rfl
          exact h.removeOwnedEnd hphase hs
        · obtain rfl := hgo rfl rfl rfl
          exact h.removeOwnedTurn hp ht hs
      | _ => cases hloop
  start s F f hJ _ hf l hl := by
    have hloop := isLoop_of_entry hf
    refine hJ l ?_
    cases l with
    | none => exact fun g hg => hl g (mem_cons_of_mem hg)
    | some g =>
      obtain ⟨hg, hgloop⟩ := hl
      rcases mem_cons.mp hg with rfl | hF
      · rw [hloop] at hgloop
        cases hgloop
      · exact ⟨hF, hgloop⟩
  env s s' F a hJ hp ha l hl := h.env hp ha (hJ l hl)

end

/-- The snapshots of the loops are current. -/
structure LoopsCurrent (s : Sys) (F : Multiset Frame) : Prop where
  reconciling : ∀ r, .reconciling r ∈ F → r.Current s.client.applied
  removing : ∀ r, .removingOwned r ∈ F → r.Current s.client.applied

/-- The snapshot of the loop that is under way is current. -/
def LoopCurrent (s : Sys) : Option Frame → Prop
  | some (.reconciling r) => r.Current s.client.applied
  | some (.removingOwned r) => r.Current s.client.applied
  | _ => True

theorem loopsCurrent_iff {F : Multiset Frame} :
    LoopsCurrent s F ↔ ∀ l, UnderWay F l → LoopCurrent s l := by
  constructor
  · intro h l hl
    cases l with
    | none => trivial
    | some g =>
      cases g with
      | reconciling r => exact h.reconciling r hl.1
      | removingOwned r => exact h.removing r hl.1
      | _ => trivial
  · exact fun h => ⟨fun r hr => h (some (.reconciling r)) ⟨hr, rfl⟩,
      fun r hr => h (some (.removingOwned r)) ⟨hr, rfl⟩⟩

theorem LoopCurrent.same {s' : Sys} {l : Option Frame} (h : LoopCurrent s l)
    (happlied : s'.client.applied = s.client.applied) : LoopCurrent s' l := by
  unfold LoopCurrent at h ⊢
  rw [happlied]
  exact h

theorem loopInvariant_current :
    LoopInvariant { run := fun s f R _ => Orderly s (f ::ₘ R) } LoopCurrent where
  other hp he _ hf _ h := h.same (applied_apply_of_not hp.life he hf)
  clear _ _ _ _ := trivial
  reconcileBegin _ hkeys _ := ⟨hkeys.nodup, fun _ _ => rfl, fun _ hkey => hkeys.mem_iff.mp hkey,
    fun _ _ _ => rfl, nofun⟩
  reconcileTurn {s r R ch phase changed sec bind device} _ ht h := by
    show Reconcile.Current _ _
    rw [applied_apply]
    exact Reconcile.Current.turn h ht
  reconcileEnd _ _ := trivial
  removeOwnedBegin hkeys _ := ⟨hkeys, ⟨[], rfl⟩, rfl⟩
  removeOwnedTurn {s r R ch phase sec bind device errs} _ ht h := by
    show RemoveOwned.Current _ _
    rw [applied_apply]
    exact RemoveOwned.Current.turn h ht
  removeOwnedEnd _ _ := trivial
  env _ ha h := h.same (congrArg Client.applied (envStep ha).client)

theorem keeps_current : program.Keeps { run := fun s f R _ => Orderly s (f ::ₘ R) } LoopsCurrent :=
  (loopInvariant_current.keeps fun _ _ _ _ hp => hp).congr fun _ _ => loopsCurrent_iff

/-! ## Attaching a device -/

/-- A device is attached only while nothing is applied. -/
def InstallsClean (s : Sys) (F : Multiset Frame) : Prop :=
  ∀ api sw, .attaching api (.install sw) ∈ F → s.client.applied = ∅

/-- While an attachment is under way, nobody else changes what is applied. -/
theorem not_applies_of_install {f : Frame} {R : Multiset Frame} {api : Nat} {sw : Bool}
    (hlocks : LocksHeld s (f ::ₘ R)) (hg : .attaching api (.install sw) ∈ R) : ¬ f.Applies := by
  have hlife : Lock.life ∈ (Frame.attaching api (.install sw)).locks := List.mem_cons_self
  have hwrite : Lock.deviceWrite ∈ (Frame.attaching api (.install sw)).locks :=
    List.mem_cons_of_mem _ List.mem_cons_self
  rintro (hf | rfl | ⟨api', rfl⟩)
  · refine hlocks.no_writer (mem_cons_self _ _) ?_ (mem_cons_of_mem hg) hwrite
    rw [locks_of_isLoop hf]
    exact List.mem_cons_self
  · exact hlocks.alone (by simp) List.mem_cons_self hg hwrite
  · exact hlocks.alone (by simp) List.mem_cons_self hg hlife

theorem keeps_installsClean :
    program.Keeps { run := fun s f R _ => Orderly s (f ::ₘ R) } InstallsClean where
  run s f R ch o h hp ho := by
    obtain ⟨e, he, rfl⟩ := Option.map_eq_some_iff.mp ho
    have hdormant (hasleep : Asleep s (f ::ₘ R)) (hf : ¬ f.Applies) :
        (e.apply ch.now s).state.client.applied = ∅ :=
      (applied_apply_of_not hp.life he hf).trans (hp.sleeps hasleep).1.applied
    intro api sw hg
    rcases mem_or_from he hg rfl with hR | hfrom
    · rw [applied_apply_of_not hp.life he (not_applies_of_install hp.locks hR)]
      exact h api sw (mem_cons_of_mem hR)
    · cases sw with
      | false =>
        rcases hfrom with rfl | ⟨rfl, -, -, hruntime⟩
        · have hclear : clearEffect ch s [.attaching api (.install false)] = some e := he
          obtain ⟨-, -, rfl⟩ := clearEffect_eq hclear
          exact applied_apply _ _ _
        · exact hdormant (.inl hruntime) (by simp [Frame.Applies, Frame.isLoop])
      | true =>
        obtain rfl : f = _ := hfrom
        exact hdormant (.inr ⟨_, mem_cons_self _ _, rfl⟩)
          (by simp [Frame.Applies, Frame.isLoop])
  start s F f h _ hf api sw hg := by
    rcases mem_cons.mp hg with rfl | hF
    · cases hf
    · exact h api sw hF
  env s s' F a h _ ha api sw hg := by
    rw [(envStep ha).client]
    exact h api sw hg

/-! ## The invariants together -/

/-- `Orderly`, and what is known of the applied peers. -/
structure Steady (s : Sys) (F : Multiset Frame) : Prop where
  orderly : Orderly s F
  current : LoopsCurrent s F
  localAgrees : LocalAgrees s.client
  clean : InstallsClean s F

theorem keeps_steady (p : Policy Sys Frame Choice EnvAct) : program.Keeps p Steady := by
  have hlocal := keeps_client (I := LocalAgrees) (fun _ _ x h => localAgrees_run h x) p
  have hboth := (keeps_orderly p).known (keeps_current.both keeps_installsClean)
  exact (hboth.both hlocal).congr fun _ _ =>
    ⟨fun h => ⟨⟨h.orderly, h.current, h.clean⟩, h.localAgrees⟩,
      fun h => ⟨h.1.1, h.1.2.1, h.2, h.1.2.2⟩⟩

theorem steady_initial (opts : Options) (privateKey : Option PrivateKey) :
    Steady (initial opts privateKey).shared (initial opts privateKey).frames where
  orderly := orderly_initial opts privateKey
  current := ⟨fun _ hr => absurd hr (notMem_zero _),
    fun _ hr => absurd hr (notMem_zero _)⟩
  localAgrees _ := by simp [initial]
  clean _ _ hg := absurd hg (notMem_zero _)

/-- The options never change. -/
theorem keeps_opts (opts : Options) (p : Policy Sys Frame Choice EnvAct) :
    program.Keeps p fun s _ => s.client.opts = opts :=
  keeps_client (I := fun c => c.opts = opts)
    (fun c now x h => (sectionStep_run c now x).opts.trans h) p

end WgoTailscale
