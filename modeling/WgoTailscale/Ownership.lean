import WgoTailscale.Applied

/-!
# Peers on shared devices

What the log of the client's calls to the device APIs says about the peers it has there, and how that
agrees with `c.applied`. An applied peer carries the endpoint of the client's last successful upsert,
which was made on the attached API; every write follows a read that permits it; and a peer that was
upserted on the attached API, and neither deleted nor lost since, is applied (`Ledger`,
`keeps_ledger`).
-/

namespace WgoTailscale

open FinMap

/-! ## The log -/

namespace DeviceCall

/-- The API a call was made on. -/
def api : DeviceCall → Nat
  | .peerSpec api _ _ | .upsert api _ _ | .delete api _ _ | .conflict api _ => api

/-- What a call makes of the last successful upsert of a key: its API and endpoint. -/
def onUpsert (key : NodePublic) (last : Option (Nat × Option PeerEndpoint)) :
    DeviceCall → Option (Nat × Option PeerEndpoint)
  | .upsert api spec true => if spec.publicKey = key then some (api, spec.endpoint) else last
  | _ => last

/-- What a call makes of the endpoint under which the client has a key on an API: an upsert sets it, a
delete clears it, and so does reading a specification with another endpoint, which shows that another
controller has taken the peer. -/
def onOwned (api : Nat) (key : NodePublic) (owned : Option (Option PeerEndpoint)) :
    DeviceCall → Option (Option PeerEndpoint)
  | .upsert api' spec true => if api' = api ∧ spec.publicKey = key then some spec.endpoint else owned
  | .delete api' key' true => if api' = api ∧ key' = key then none else owned
  | .peerSpec api' key' (some spec) =>
    if api' = api ∧ key' = key ∧ owned ≠ some spec.endpoint then none else owned
  | _ => owned

end DeviceCall

/-- The last successful upsert of a key, in a log with the latest call first. -/
def lastUpsert (key : NodePublic) : List DeviceCall → Option (Nat × Option PeerEndpoint)
  | [] => none
  | call :: calls => call.onUpsert key (lastUpsert key calls)

/-- The endpoint under which the client has a key on an API: that of its last successful upsert there,
unless it has deleted or lost the peer since. -/
def ownedEndpoint (api : Nat) (key : NodePublic) : List DeviceCall → Option (Option PeerEndpoint)
  | [] => none
  | call :: calls => call.onOwned api key (ownedEndpoint api key calls)

/-- The latest call read the specification of a key, and what it found permits a write: nothing, the
client's own transport, or the endpoint that the client wrote last. -/
def ReadPermits (opts : Options) (api : Nat) (key : NodePublic) (calls : List DeviceCall) : Prop :=
  ∃ result before, calls = .peerSpec api key result :: before ∧ ∀ spec, result = some spec →
    (spec.endpoint.any fun endpoint => endpoint.transport = opts.transportID) = true ∨
      lastUpsert key before = some (api, spec.endpoint)

/-- Every write in a log directly follows a read that permits it. -/
def WritesPermitted (opts : Options) : List DeviceCall → Prop
  | [] => True
  | call :: calls => (match call with
      | .upsert api spec _ => ReadPermits opts api spec.publicKey calls
      | .delete api key _ => ReadPermits opts api key calls
      | _ => True) ∧ WritesPermitted opts calls

variable {endpoint : Option PeerEndpoint} {spec : PeerSpec} {a : AppliedPeer} {key : NodePublic}
variable {r : RemoveOwned} {phase phase₀ : RemoveOwnedPhase} {sec : Option Section}
variable {bind : Option BindAct} {device : Option DeviceAct}

section
variable {api : Nat} {key : NodePublic} {calls : List DeviceCall}

/-- What the client has after a call it had before, unless the call upserts it. -/
theorem ownedEndpoint_cons {call : DeviceCall}
    (h : ownedEndpoint api key (call :: calls) = some endpoint) :
    (∃ spec, call = .upsert api spec true) ∨ ownedEndpoint api key calls = some endpoint := by
  dsimp only [ownedEndpoint] at h
  revert h
  fun_cases DeviceCall.onOwned api key (ownedEndpoint api key calls) call <;> intro h
  case case1 hhere => exact .inl ⟨_, by rw [hhere.1]⟩
  all_goals first
    | exact .inr h
    | cases h

/-- Where the last upsert of a key was made on an API, the client has no other endpoint there. -/
theorem eq_of_ownedEndpoint {endpoint' : Option PeerEndpoint}
    (h : ownedEndpoint api key calls = some endpoint)
    (hlast : lastUpsert key calls = some (api, endpoint')) : endpoint = endpoint' := by
  induction calls with
  | nil => cases h
  | cons call calls ih =>
    cases call with
    | upsert api' spec ok =>
      cases ok with
      | false => exact ih h hlast
      | true =>
        dsimp only [ownedEndpoint, lastUpsert, DeviceCall.onOwned, DeviceCall.onUpsert] at h hlast
        by_cases hkey : spec.publicKey = key
        · rw [if_pos hkey] at hlast
          cases hlast
          rw [if_pos ⟨rfl, hkey⟩] at h
          exact (Option.some.inj h).symm
        · rw [if_neg hkey] at hlast
          rw [if_neg fun hboth => hkey hboth.2] at h
          exact ih h hlast
    | _ => exact ih ((ownedEndpoint_cons h).resolve_left fun ⟨_, heq⟩ => by cases heq) hlast

/-- A call that is no upsert adds nothing to what the client has. -/
theorem ownedEndpoint_of_cons {call : DeviceCall} (hcall : ∀ spec, call ≠ .upsert api spec true)
    (h : ownedEndpoint api key (call :: calls) ≠ none) : ownedEndpoint api key calls ≠ none := by
  obtain ⟨endpoint, hsome⟩ := Option.ne_none_iff_exists'.mp h
  have hold := (ownedEndpoint_cons hsome).resolve_left fun ⟨spec, heq⟩ => hcall spec heq
  exact Option.ne_none_iff_exists'.mpr ⟨endpoint, hold⟩

/-- Reading another endpoint than the one written last shows that the peer is lost. -/
theorem ownedEndpoint_of_lost (hlast : lastUpsert key calls = some (api, endpoint))
    (hne : spec.endpoint ≠ endpoint) :
    ownedEndpoint api key (.peerSpec api key (some spec) :: calls) = none := by
  refine if_pos ⟨rfl, rfl, fun howned => ?_⟩
  exact hne (eq_of_ownedEndpoint howned hlast)

/-- What the client has on an API is in its log. -/
theorem exists_call_of_ownedEndpoint (h : ownedEndpoint api key calls ≠ none) :
    ∃ call ∈ calls, call.api = api := by
  induction calls with
  | nil => exact absurd rfl h
  | cons call calls ih =>
    by_cases hcall : ∃ spec, call = .upsert api spec true
    · obtain ⟨spec, rfl⟩ := hcall
      exact ⟨_, List.mem_cons_self, rfl⟩
    · obtain ⟨c, hc, hapi⟩ := ih (ownedEndpoint_of_cons (not_exists.mp hcall) h)
      exact ⟨c, List.mem_cons_of_mem _ hc, hapi⟩

end

/-! ## Points of the loops -/

/-- The key that is about to be recorded as applied. -/
def ReconcilePhase.applying : ReconcilePhase → Option NodePublic
  | .apply key _ _ => some key
  | _ => none

/-- What the log says at a point of `reconcilePeers`. -/
def Reconcile.Noted (opts : Options) (calls : List DeviceCall) (r : Reconcile) : Prop :=
  match r.phase with
  | .removeCall key _ | .updateBind key true _ | .upsertCall key _ =>
    ReadPermits opts r.api key calls
  | .removeBind key _ | .removeCommit key _ | .takeOver key _ => ownedEndpoint r.api key calls = none
  | .updateBind key false _ | .apply key _ _ => ∀ wanted, r.desired.get key = some wanted →
    lastUpsert key calls = some (r.api, some (peerEndpoint opts wanted))
  | _ => True

/-- What the log says at a point of `removeOwnedPeers`. -/
def RemoveOwned.Noted (opts : Options) (calls : List DeviceCall) (r : RemoveOwned) : Prop :=
  match r.phase with
  | .call key _ => ∀ api, r.api = some api → ReadPermits opts api key calls
  | _ => True

/-- The key that is about to be recorded as applied by the loop that is under way. -/
def applyingKey : Option Frame → Option NodePublic
  | some (.reconciling r) => r.phase.applying
  | _ => none

/-- What the log says at the point of the loop that is under way. -/
def LoopNoted (s : Sys) : Option Frame → Prop
  | some (.reconciling r) => r.Noted s.client.opts s.calls
  | some (.removingOwned r) => r.Noted s.client.opts s.calls
  | _ => True

/-- The log agrees with what is applied. -/
structure Ledger (s : Sys) (l : Option Frame) : Prop where
  applied : ∀ key a, s.client.applied.get key = some a → applyingKey l ≠ some key →
    ∃ api, s.ctl.deviceAPI = some api ∧ lastUpsert key s.calls = some (api, a.endpoint)
  owned : ∀ api key, s.ctl.closed = false → s.usableAPI = some api → applyingKey l ≠ some key →
    ownedEndpoint api key s.calls ≠ none → key ∈ s.client.applied
  calls : ∀ call ∈ s.calls, call.api ∈ s.devices ∧
    (s.ctl.deviceAPI = some call.api ∨ s.isClosed call.api = true)
  permitted : WritesPermitted s.client.opts s.calls
  noted : LoopNoted s l

/-- The log after an effect. -/
def callsAfter (s : Sys) : Option DeviceAct → List DeviceCall
  | none => s.calls
  | some act => act.log s :: s.calls

section
variable {s s' : Sys} {l : Option Frame}

/-- Only the loops call the devices. -/
theorem calls_apply_of_not {ch : Choice} {f : Frame} {e : Effect} (he : effect ch s f = some e)
    (hloop : f.isLoop = false) : (e.apply ch.now s).state.calls = s.calls := by
  have hdevice : e.device = none := by
    by_contra hsome
    rw [(traced_effect he).device hsome] at hloop
    cases hloop
  simp only [Effect.apply, hdevice]

/-- A step that leaves the log, what is applied and the attached API alone. -/
theorem Ledger.same (h : Ledger s l) (happlied : s'.client.applied = s.client.applied)
    (hopts : s'.client.opts = s.client.opts) (hcalls : s'.calls = s.calls)
    (hapi : s'.ctl.deviceAPI = s.ctl.deviceAPI) (hclosed : s'.ctl.closed = false → s.ctl.closed = false)
    (hdevices : ∀ api ∈ s.devices, api ∈ s'.devices ∧ (s.isClosed api = true → s'.isClosed api = true)) :
    Ledger s' l where
  applied := by
    rw [happlied, hcalls, hapi]
    exact h.applied
  owned api key hopen husable hkey howned := by
    rw [hcalls] at howned
    rw [happlied]
    obtain ⟨hattached, hnot⟩ := usableAPI_eq_some.mp husable
    refine h.owned api key (hclosed hopen) (usableAPI_eq_some.mpr ⟨hapi ▸ hattached, ?_⟩) hkey howned
    -- a device that was closed is still closed
    obtain ⟨call, hcall, rfl⟩ := exists_call_of_ownedEndpoint howned
    rw [Bool.eq_false_iff] at hnot ⊢
    exact fun hwas => hnot ((hdevices _ (h.calls call hcall).1).2 hwas)
  calls call hcall := by
    rw [hcalls] at hcall
    obtain ⟨hmem, hwhere⟩ := h.calls call hcall
    obtain ⟨hmem', hkeeps⟩ := hdevices _ hmem
    rw [hapi]
    exact ⟨hmem', hwhere.imp_right hkeeps⟩
  permitted := by
    rw [hopts, hcalls]
    exact h.permitted
  noted := by
    have hnoted := h.noted
    unfold LoopNoted at hnoted ⊢
    rw [hopts, hcalls]
    exact hnoted

end

/-! ## What calls and sections do to the ledger -/

/-- The ledger of one API, for the keys other than the one that is about to be recorded; `live` says
whether the API can be used. -/
structure Tally (opts : Options) (api : Nat) (live : Prop) (applied : FinMap NodePublic AppliedPeer)
    (calls : List DeviceCall) (applying : Option NodePublic) : Prop where
  endpoint : ∀ key a, applied.get key = some a → applying ≠ some key →
    lastUpsert key calls = some (api, a.endpoint)
  owned : live → ∀ key, applying ≠ some key → ownedEndpoint api key calls ≠ none → key ∈ applied
  permitted : WritesPermitted opts calls

namespace Tally

variable {opts : Options} {api : Nat} {live : Prop} {applied : FinMap NodePublic AppliedPeer}
  {calls : List DeviceCall} {applying : Option NodePublic} {key : NodePublic}

theorem read (h : Tally opts api live applied calls applying) (result : Option PeerSpec) :
    Tally opts api live applied (.peerSpec api key result :: calls) applying where
  endpoint := h.endpoint
  owned hlive key' hkey' howned :=
    h.owned hlive key' hkey' (ownedEndpoint_of_cons (by simp) howned)
  permitted := ⟨trivial, h.permitted⟩

theorem conflict (h : Tally opts api live applied calls applying) :
    Tally opts api live applied (.conflict api key :: calls) applying :=
  ⟨h.endpoint, h.owned, trivial, h.permitted⟩

theorem delete (h : Tally opts api live applied calls applying)
    (hread : ReadPermits opts api key calls) (ok : Bool) :
    Tally opts api live applied (.delete api key ok :: calls) applying where
  endpoint := h.endpoint
  owned hlive key' hkey' howned :=
    h.owned hlive key' hkey' (ownedEndpoint_of_cons (by simp) howned)
  permitted := ⟨hread, h.permitted⟩

theorem upsertFailed (h : Tally opts api live applied calls applying)
    (hread : ReadPermits opts api spec.publicKey calls) :
    Tally opts api live applied (.upsert api spec false :: calls) applying :=
  ⟨h.endpoint, h.owned, hread, h.permitted⟩

theorem upserted (h : Tally opts api live applied calls none)
    (hread : ReadPermits opts api spec.publicKey calls) :
    Tally opts api live applied (.upsert api spec true :: calls) (some spec.publicKey) where
  endpoint key a hget hkey := by
    have hne : ¬ spec.publicKey = key := fun heq => hkey (congrArg some heq)
    refine Eq.trans (if_neg hne) ?_
    exact h.endpoint key a hget nofun
  owned hlive key hkey howned := by
    have hne : ¬ (api = api ∧ spec.publicKey = key) := fun hboth => hkey (congrArg some hboth.2)
    refine h.owned hlive key nofun fun hnone => howned ?_
    exact (if_neg hne).trans hnone
  permitted := ⟨hread, h.permitted⟩

/-- A peer that the client does not have any more is forgotten. -/
theorem erase (h : Tally opts api live applied calls applying)
    (hnone : ownedEndpoint api key calls = none) :
    Tally opts api live (applied.erase key) calls applying where
  endpoint key' a hget hkey' := by
    rw [get_erase] at hget
    split at hget
    · cases hget
    · exact h.endpoint key' a hget hkey'
  owned hlive key' hkey' howned := by
    refine mem_erase.mpr ⟨?_, h.owned hlive key' hkey' howned⟩
    rintro rfl
    exact howned hnone
  permitted := h.permitted

/-- A peer is recorded under the endpoint that was written last. -/
theorem record (h : Tally opts api live applied calls (some key))
    (hlast : lastUpsert key calls = some (api, a.endpoint)) :
    Tally opts api live (applied.insert key a) calls none where
  endpoint key' a' hget _ := by
    rw [get_insert] at hget
    split at hget
    · next heq =>
      cases hget
      rw [heq]
      exact hlast
    · next hne => exact h.endpoint key' a' hget fun heq => hne (Option.some.inj heq).symm
  owned hlive key' _ howned := by
    by_cases heq : key' = key
    · exact mem_insert.mpr (.inl heq)
    · refine mem_insert.mpr (.inr ?_)
      exact h.owned hlive key' (fun hsame => heq (Option.some.inj hsame).symm) howned
  permitted := h.permitted

theorem exempt (h : Tally opts api live applied calls none) (key : NodePublic) :
    Tally opts api live applied calls (some key) :=
  ⟨fun key' a hget _ => h.endpoint key' a hget nofun,
    fun hlive key' _ howned => h.owned hlive key' nofun howned, h.permitted⟩

end Tally

/-! ## Turns -/

section
variable {s : Sys} {applied : FinMap NodePublic AppliedPeer} {live : Prop}

/-- What may be deleted was read as absent or with the endpoint written last. -/
theorem readPermits_of_deletable {api : Nat} {snapshot : FinMap NodePublic AppliedPeer}
    (hget : snapshot.get key = some a) (hlast : lastUpsert key s.calls = some (api, a.endpoint))
    (howned : s.deletable api snapshot key = true) :
    ReadPermits s.client.opts api key (callsAfter s (some (.peerSpec api key))) := by
  refine ⟨s.peerSpec api key, s.calls, rfl, fun spec hspec => .inr ?_⟩
  unfold Sys.deletable at howned
  rw [hspec, hget] at howned
  rw [hlast, peerSpecStillOwned_iff.mp howned]

/-- What may not be deleted was read with another endpoint than the one written last. -/
theorem lost_of_not_deletable {api : Nat} {snapshot : FinMap NodePublic AppliedPeer}
    (hget : snapshot.get key = some a) (hlast : lastUpsert key s.calls = some (api, a.endpoint))
    (hlost : s.deletable api snapshot key = false) :
    ownedEndpoint api key (callsAfter s (some (.peerSpec api key))) = none := by
  unfold Sys.deletable at hlost
  show ownedEndpoint api key (.peerSpec api key (s.peerSpec api key) :: s.calls) = none
  cases hspec : s.peerSpec api key with
  | none =>
    rw [hspec] at hlost
    cases hlost
  | some spec =>
    rw [hspec, hget] at hlost
    have hlost : peerSpecStillOwned spec a = false := hlost
    refine ownedEndpoint_of_lost hlast fun heq => ?_
    rw [peerSpecStillOwned_iff.mpr heq] at hlost
    cases hlost

theorem Reconcile.tally_turn {r : Reconcile} (hcurrent : r.Current applied)
    (h : Tally s.client.opts r.api live applied s.calls r.phase.applying)
    (hnoted : r.Noted s.client.opts s.calls) {phase : ReconcilePhase} {changed : Bool}
    (ht : r.Turn s r.phase phase changed sec bind device) :
    Tally s.client.opts r.api live (appliedAfter applied sec) (callsAfter s device) phase.applying ∧
      { r with phase, changed }.Noted s.client.opts (callsAfter s device) := by
  obtain ⟨api, desired, snapshot, changed₀, phase₀⟩ := r
  have hlast {key : NodePublic} {a : AppliedPeer} (hkey : key ∈ phase₀.todo)
      (hget : snapshot.get key = some a) (happlying : phase₀.applying = none) :
      lastUpsert key s.calls = some (api, a.endpoint) := by
    refine h.endpoint key a ((hcurrent.todo key hkey).trans hget) ?_
    rw [happlying]
    exact nofun
  cases ht with
  | removesDone | stillWanted | removeReported | upsertsBegin | upsertsDone | takenOverInBind
  | undoneInBind | upsertReported | droppedUnused | announced | silent => exact ⟨h, trivial⟩
  | @readOwned key keys hunwanted howned =>
    obtain ⟨a, hget⟩ := mem_iff.mp (hcurrent.among key List.mem_cons_self)
    exact ⟨h.read _, readPermits_of_deletable hget (hlast List.mem_cons_self hget rfl) howned⟩
  | @readForeign key keys hunwanted hlost =>
    obtain ⟨a, hget⟩ := mem_iff.mp (hcurrent.among key List.mem_cons_self)
    exact ⟨h.read _, lost_of_not_deletable hget (hlast List.mem_cons_self hget rfl) hlost⟩
  | deleted => exact ⟨h.delete hnoted true, if_pos ⟨rfl, rfl⟩⟩
  | deleteFailed err => exact ⟨h.delete hnoted false, trivial⟩
  | removedFromBind => exact ⟨h, hnoted⟩
  | removed => exact ⟨h.erase hnoted, trivial⟩
  | visitedNew _ hspec =>
    exact ⟨h.read _, _, _, rfl, fun spec hsome => absurd (hspec.symm.trans hsome) nofun⟩
  | @visitedOwned key keys wanted current owned hwanted hspec hget hstill =>
    have hupsert := hlast List.mem_cons_self hget rfl
    have hsame := peerSpecStillOwned_iff.mp hstill
    cases hequal : peerSpecsEqual current (peerSpecFor s.client.opts key wanted) with
    | true =>
      refine ⟨h.read _, fun wanted' hwanted' => ?_⟩
      cases hwanted.symm.trans hwanted'
      exact hupsert.trans (by rw [← hsame, (of_peerSpecsEqual hequal).1]; rfl)
    | false =>
      refine ⟨h.read _, _, _, rfl, fun spec hsome => .inr ?_⟩
      cases hspec.symm.trans hsome
      rw [hupsert, hsame]
  | @visitedLost key _ current owned _ hspec hget hlost =>
    refine ⟨h.read _, ?_⟩
    show ownedEndpoint api key (.peerSpec api key (s.peerSpec api key) :: s.calls) = none
    rw [hspec]
    refine ownedEndpoint_of_lost (hlast List.mem_cons_self hget rfl) fun heq => ?_
    exact absurd (hlost.symm.trans (peerSpecStillOwned_iff.mpr heq)) nofun
  | visitedNamed _ hspec _ hnamed =>
    refine ⟨h.read _, _, _, rfl, fun spec hsome => .inl ?_⟩
    cases hspec.symm.trans hsome
    exact hnamed
  | visitedForeign => exact ⟨h.read _, trivial⟩
  | takenOver => exact ⟨h.erase hnoted, trivial⟩
  | conflicted => exact ⟨h.conflict, trivial⟩
  | updatedBind hwanted => exact ⟨h, hnoted⟩
  | refreshedBind hwanted => exact ⟨h.exempt _, hnoted⟩
  | upserted hwanted =>
    refine ⟨h.upserted hnoted, fun wanted' hwanted' => ?_⟩
    cases hwanted.symm.trans hwanted'
    exact if_pos rfl
  | upsertFailed | upsertFailedNew => exact ⟨h.upsertFailed hnoted, trivial⟩
  | applied hwanted => exact ⟨h.record (hnoted _ hwanted), trivial⟩
  | skipped needsUpsert hnone hphase => exact (hcurrent.not_skipped hnone hphase).elim

/-- `removeOwnedPeers` upserts nothing. -/
theorem RemoveOwned.Turn.lastUpsert_eq (ht : r.Turn s phase₀ phase sec bind device)
    (key : NodePublic) : lastUpsert key (callsAfter s device) = lastUpsert key s.calls := by
  cases ht <;> rfl

/-- `removeOwnedPeers` applies nothing. -/
theorem RemoveOwned.Turn.get_applied (ht : r.Turn s phase₀ phase sec bind device)
    (hget : (appliedAfter applied sec).get key = some a) : applied.get key = some a := by
  cases ht with
  | forgotten =>
    have hget : (applied.eraseAll r.keys).get key = some a := hget
    rw [get_eraseAll] at hget
    split at hget
    · cases hget
    · exact hget
  | _ => exact hget

theorem RemoveOwned.noted_turn (hcurrent : r.Current applied)
    (hlast : ∀ key a, applied.get key = some a →
      ∃ api, r.api = some api ∧ lastUpsert key s.calls = some (api, a.endpoint))
    (hpermitted : WritesPermitted s.client.opts s.calls) (hnoted : r.Noted s.client.opts s.calls)
    (ht : r.Turn s r.phase phase sec bind device) :
    WritesPermitted s.client.opts (callsAfter s device) ∧
      { r with phase }.Noted s.client.opts (callsAfter s device) := by
  obtain ⟨api', snapshot, keys, phase₀⟩ := r
  obtain ⟨hkeys, ⟨past, hpast⟩, happlied⟩ := hcurrent
  dsimp only at ht hlast hkeys hpast happlied ⊢
  cases ht with
  | done | noAPI | removedFromBind | forgotten => exact ⟨hpermitted, trivial⟩
  | @readOwned key rest api heq howned =>
    have hmem : key ∈ keys := by
      rw [hpast]
      exact List.mem_append_right past List.mem_cons_self
    obtain ⟨a, hget⟩ := mem_iff.mp (hkeys.mem_iff.mp hmem)
    refine ⟨⟨trivial, hpermitted⟩, fun api' hapi' => ?_⟩
    obtain ⟨api'', hapi'', hupsert⟩ := hlast key a (by rw [happlied]; exact hget)
    obtain rfl : api' = api'' := Option.some.inj (hapi'.symm.trans hapi'')
    obtain rfl : api = api' := Option.some.inj (heq.symm.trans hapi')
    exact readPermits_of_deletable hget hupsert howned
  | readForeign heq hlost => exact ⟨⟨trivial, hpermitted⟩, trivial⟩
  | called heq ok => exact ⟨⟨hnoted _ heq, hpermitted⟩, trivial⟩

end

/-! ## The ledger along runs -/

section
variable {s : Sys} {f : Frame} {R : Multiset Frame} {l : Option Frame}

/-- The call of a turn is on the attached API. -/
theorem Ledger.calls_after (h : Ledger s l)
    (hapi : ∀ act, device = some act → (act.log s).api ∈ s.devices ∧
      s.ctl.deviceAPI = some (act.log s).api) :
    ∀ call ∈ callsAfter s device, call.api ∈ s.devices ∧
      (s.ctl.deviceAPI = some call.api ∨ s.isClosed call.api = true) := by
  intro call hcall
  cases device with
  | none => exact h.calls call hcall
  | some act =>
    rcases List.mem_cons.mp hcall with rfl | hold
    · obtain ⟨hmem, hattached⟩ := hapi act rfl
      exact ⟨hmem, .inl hattached⟩
    · exact h.calls call hold

theorem Reconcile.Turn.log_api {r : Reconcile} {phase₀ phase : ReconcilePhase} {changed : Bool}
    {act : DeviceAct} (ht : r.Turn s phase₀ phase changed sec bind (some act)) :
    (act.log s).api = r.api := by
  cases ht <;> rfl

theorem RemoveOwned.Turn.log_api {act : DeviceAct} (ht : r.Turn s phase₀ phase sec bind (some act)) :
    r.api = some (act.log s).api := by
  cases ht <;> assumption

theorem loopInvariant_ledger :
    LoopInvariant { run := fun s f R _ => Steady s (f ::ₘ R) } Ledger where
  other {s f R ch e l} hp he hloop hf hl h := by
    have htraced := traced_effect he
    have happlied := applied_apply_of_not hp.orderly.life he hf
    have hcalls := calls_apply_of_not he hloop
    have hsame := sameDevices_apply e ch.now s
    have hdevices (api : Nat) (hmem : api ∈ s.devices) :
        api ∈ (e.apply ch.now s).state.devices ∧
          (s.isClosed api = true → (e.apply ch.now s).state.isClosed api = true) :=
      ⟨hsame.mem.mpr hmem, hsame.isClosed.trans⟩
    have hclosed (hopen : e.ctl.closed = false) : s.ctl.closed = false := by
      rcases htraced.ctl.closed with heq | ⟨-, -, hwas, -⟩
      · exact heq.symm.trans hopen
      · exact hwas
    rcases htraced.ctl.deviceAPI with hapi | ⟨api, sw, rfl, hapi⟩
    · exact h.same happlied (opts_apply e ch.now s) hcalls hapi hclosed hdevices
    · -- a new API is attached: nothing is applied, and nothing is in the log if it is open
      have hempty := happlied.trans (hp.clean api sw (Multiset.mem_cons_self _ _))
      have hunusable : s.usableAPI = none := by
        have hknows := hp.orderly.life.knows _ (Multiset.mem_cons_self _ _)
        cases sw with
        | true => exact hknows.2.2.2.2
        | false => exact hknows.2.2.2
      have hwas {call : DeviceCall} (hcall : call ∈ s.calls) : s.isClosed call.api = true :=
        (h.calls call hcall).2.elim (usableAPI_eq_none.mp hunusable _) id
      refine ⟨fun key a hget => ?_, fun api' key _ husable _ howned => ?_, fun call hcall => ?_, ?_, ?_⟩
      · rw [hempty] at hget
        cases hget
      · rw [hcalls] at howned
        obtain ⟨call, hcall, rfl⟩ := exists_call_of_ownedEndpoint howned
        have hnot := (usableAPI_eq_some.mp husable).2
        rw [hsame.isClosed, hwas hcall] at hnot
        cases hnot
      · rw [hcalls] at hcall
        exact ⟨hsame.mem.mpr (h.calls call hcall).1, .inr (hsame.isClosed.trans (hwas hcall))⟩
      · rw [hcalls, opts_apply]
        exact h.permitted
      · have hnoted := h.noted
        unfold LoopNoted at hnoted ⊢
        rw [hcalls, opts_apply]
        exact hnoted
  clear {s f R ch} hp hunusable _ h := by
    refine ⟨fun key a hget => ?_, fun api key _ husable => ?_, h.calls, ?_, trivial⟩
    · rw [applied_apply] at hget
      cases hget
    · exact absurd (husable.symm.trans hunusable) nofun
    · rw [opts_apply]
      exact h.permitted
  reconcileBegin _ _ h := ⟨h.applied, h.owned, h.calls, h.permitted, trivial⟩
  reconcileTurn {s r R ch phase changed sec bind device} hp ht h := by
    have hattached : s.ctl.deviceAPI = some r.api :=
      hp.orderly.life.knows _ (Multiset.mem_cons_self _ _)
    have hsame := sameDevices_apply { ctl := s.ctl, sec, bind, device } ch.now s
    have htally : Tally s.client.opts r.api (s.ctl.closed = false ∧ s.usableAPI = some r.api)
        s.client.applied s.calls r.phase.applying := by
      refine ⟨fun key a hget hkey => ?_, fun hlive key => h.owned r.api key hlive.1 hlive.2,
        h.permitted⟩
      obtain ⟨api, hapi, hlast⟩ := h.applied key a hget hkey
      rw [Option.some.inj (hattached.symm.trans hapi)]
      exact hlast
    obtain ⟨htally, hnoted⟩ := Reconcile.tally_turn
      (hp.current.reconciling r (Multiset.mem_cons_self _ _)) htally h.noted ht
    refine ⟨fun key a hget hkey => ?_, fun api key hopen husable hkey howned => ?_,
      fun call hcall => ?_, ?_, ?_⟩
    · rw [applied_apply] at hget
      exact ⟨r.api, hattached, htally.endpoint key a hget hkey⟩
    · have husable : s.usableAPI = some api := (hsame.usableAPI rfl).symm.trans husable
      cases hattached.symm.trans (usableAPI_eq_some.mp husable).1
      rw [applied_apply]
      exact htally.owned ⟨hopen, husable⟩ key hkey howned
    · obtain ⟨hmem, hwhere⟩ := h.calls_after (fun act hact => by
        subst hact
        rw [ht.log_api]
        exact ⟨hp.orderly.life.attached _ hattached, hattached⟩) call hcall
      exact ⟨hsame.mem.mpr hmem, hwhere.imp_right hsame.isClosed.trans⟩
    · rw [opts_apply]
      exact htally.permitted
    · show Reconcile.Noted _ _ _
      rw [opts_apply]
      exact hnoted
  reconcileEnd {s r} hphase h := by
    have hnone : applyingKey (some (.reconciling r)) = none := by
      show r.phase.applying = none
      rw [hphase]
      rfl
    refine ⟨fun key a hget _ => h.applied key a hget ?_, fun api key hopen husable _ =>
      h.owned api key hopen husable ?_, h.calls, h.permitted, trivial⟩
    · rw [hnone]
      exact nofun
    · rw [hnone]
      exact nofun
  removeOwnedBegin _ h := ⟨h.applied, h.owned, h.calls, h.permitted, trivial⟩
  removeOwnedTurn {s r R ch phase sec bind device errs} hp ht h := by
    obtain ⟨hclosed, hattached⟩ : s.ctl.closed = true ∧ s.ctl.deviceAPI = r.api :=
      hp.orderly.life.knows _ (Multiset.mem_cons_self _ _)
    have hsame := sameDevices_apply
      { ctl := { s.ctl with cleanupErrs := errs }, sec, bind, device } ch.now s
    obtain ⟨hpermitted, hnoted⟩ := RemoveOwned.noted_turn
      (hp.current.removing r (Multiset.mem_cons_self _ _)) (fun key a hget => by
        obtain ⟨api, hapi, hlast⟩ := h.applied key a hget nofun
        exact ⟨api, hattached.symm.trans hapi, hlast⟩) h.permitted h.noted ht
    refine ⟨fun key a hget _ => ?_, fun api key hopen => ?_, fun call hcall => ?_, ?_, ?_⟩
    · rw [applied_apply] at hget
      obtain ⟨api, hapi, hlast⟩ := h.applied key a (ht.get_applied hget) nofun
      exact ⟨api, hapi, (ht.lastUpsert_eq key).trans hlast⟩
    · exact absurd (hclosed.symm.trans hopen) nofun
    · obtain ⟨hmem, hwhere⟩ := h.calls_after (fun act hact => by
        subst hact
        have hapi := hattached.trans ht.log_api
        exact ⟨hp.orderly.life.attached _ hapi, hapi⟩) call hcall
      exact ⟨hsame.mem.mpr hmem, hwhere.imp_right hsame.isClosed.trans⟩
    · rw [opts_apply]
      exact hpermitted
    · show RemoveOwned.Noted _ _ _
      rw [opts_apply]
      exact hnoted
  removeOwnedEnd _ h := ⟨h.applied, h.owned, h.calls, h.permitted, trivial⟩
  env {s s' a l} _ ha h := by
    obtain ⟨hclient, hcalls, hctl, -, -⟩ := envStep ha
    refine h.same (congrArg Client.applied hclient) (congrArg Client.opts hclient) hcalls ?_ ?_
      fun api hmem => (env_devices ha hmem).imp_right And.left
    · rw [hctl]
    · rw [hctl]
      exact id

theorem ledger_initial (opts : Options) (privateKey : Option PrivateKey) (l : Option Frame)
    (hl : UnderWay (initial opts privateKey).frames l) : Ledger (initial opts privateKey).shared l := by
  obtain rfl := hl.eq_none
  exact ⟨nofun, fun _ _ _ _ _ howned => absurd rfl howned, nofun, trivial, trivial⟩

/-- The log agrees with what is applied in every state. -/
theorem keeps_ledger : program.Keeps { run := fun s f R _ => Steady s (f ::ₘ R) }
    fun s F => ∀ l, UnderWay F l → Ledger s l :=
  loopInvariant_ledger.keeps fun _ _ _ _ hp => hp.orderly

end

end WgoTailscale
