import WgoTailscale.Ownership

/-!
# Takeovers

Once the client has recorded that another controller took a peer over, it does not write the peer while
the specification of the other controller stays. The record is made when the peer is not applied
(`Recorded`), a peer that is not applied and that is read with another transport is not written
(`Yields`), and so nothing is written in the runs in which the other specification is always there.
With `WritesPermitted` this is `device_ownership_safety`.
-/

namespace WgoTailscale

open Machine FinMap

/-! ## Other controllers -/

/-- Is a specification on the client's own transport? -/
def PeerSpec.named (opts : Options) (spec : PeerSpec) : Bool :=
  spec.endpoint.any fun endpoint => endpoint.transport = opts.transportID

/-- The specification of a key on an API is another controller's. -/
def Sys.foreignOn (s : Sys) (api : Nat) (key : NodePublic) : Prop :=
  ∃ d spec, s.devices.get api = some d ∧ d.specs.get key = some ⟨.foreign, spec⟩

/-- Other controllers do not use the client's transport. -/
def foreignTransports (opts : Options) : Policy Sys Frame Choice EnvAct where
  env _ a := ∀ api spec, a = .foreignUpsert api spec → spec.named opts = false

/-- Moreover, the specification of a key is another controller's at every step. -/
def whileForeign (opts : Options) (api : Nat) (key : NodePublic) :
    Policy Sys Frame Choice EnvAct where
  run s _ _ _ := s.foreignOn api key
  start s _ := s.foreignOn api key
  env s a := s.foreignOn api key ∧ (foreignTransports opts).env s a

/-- Is a call a write to a key on an API? -/
def DeviceCall.writes (api : Nat) (key : NodePublic) : DeviceCall → Bool
  | .upsert api' spec _ => api' = api ∧ spec.publicKey = key
  | .delete api' key' _ => api' = api ∧ key' = key
  | _ => false

/-- No foreign specification is on the client's transport. -/
def ForeignNamed (opts : Options) (devices : FinMap Nat Device) : Prop :=
  ∀ api d key spec, devices.get api = some d → d.specs.get key = some ⟨.foreign, spec⟩ →
    spec.named opts = false

variable {api : Nat} {key : NodePublic}

section
variable {opts : Options} {devices : FinMap Nat Device}

theorem ForeignNamed.updateSpecs (h : ForeignNamed opts devices)
    {f : FinMap NodePublic Published → FinMap NodePublic Published}
    (hf : ∀ specs key spec, (f specs).get key = some ⟨.foreign, spec⟩ →
      specs.get key = some ⟨.foreign, spec⟩ ∨ spec.named opts = false) :
    ForeignNamed opts (updateSpecs devices api f) := by
  intro api' d key spec hd hspec
  unfold WgoTailscale.updateSpecs at hd
  split at hd
  · exact h api' d key spec hd hspec
  · next d' hd' =>
    rw [get_insert] at hd
    split at hd
    · cases hd
      rcases hf d'.specs key spec hspec with hold | hnew
      · exact h api d' key spec hd' hold
      · exact hnew
    · exact h api' d key spec hd hspec

/-- A controller erases a specification. -/
theorem foreign_of_erase {specs : FinMap NodePublic Published} {key' : NodePublic} {spec : PeerSpec}
    (h : (specs.erase key').get key = some ⟨.foreign, spec⟩) :
    specs.get key = some ⟨.foreign, spec⟩ := by
  rw [get_erase] at h
  split at h
  · cases h
  · exact h

theorem keeps_foreignNamed : program.Keeps (foreignTransports opts)
    fun s _ => ForeignNamed opts s.devices where
  run s f R ch o h _ ho := by
    obtain ⟨e, -, rfl⟩ := Option.map_eq_some_iff.mp ho
    cases hact : e.device with
    | none => rwa [devices_apply_none hact]
    | some act =>
      rw [devices_apply_some hact]
      unfold DeviceAct.run
      split
      · refine h.updateSpecs fun specs key spec hget => .inl ?_
        rw [get_insert] at hget
        split at hget
        · cases hget
        · exact hget
      · exact h.updateSpecs fun specs key spec hget => .inl (foreign_of_erase hget)
      · exact h
  start s F f h _ _ := h
  env s s' F a h hp ha := by
    cases a with
    | newDevice api privateKey =>
      dsimp only [program, environment] at ha
      split at ha
      · cases ha
      · cases ha
        intro api' d key spec hd hspec
        rw [get_insert] at hd
        split at hd
        · cases hd
          cases hspec
        · exact h api' d key spec hd hspec
    | closeDevice api =>
      dsimp only [program, environment] at ha
      split at ha
      · cases ha
      · next d' hd' =>
        cases ha
        intro api' d key spec hd hspec
        rw [get_insert] at hd
        split at hd
        · cases hd
          exact h api d' key spec hd' hspec
        · exact h api' d key spec hd hspec
    | foreignUpsert api spec' =>
      cases ha
      refine h.updateSpecs fun specs key spec hget => ?_
      rw [get_insert] at hget
      split at hget
      · cases hget
        exact .inr (hp api _ rfl)
      · exact .inl hget
    | foreignDelete api key' =>
      cases ha
      exact h.updateSpecs fun specs key spec hget => .inl (foreign_of_erase hget)
    | _ =>
      dsimp only [program, environment] at ha
      repeat' split at ha
      all_goals cases ha
      all_goals exact h

/-- What is read where another controller's specification stays. -/
theorem Sys.foreignOn.read {s : Sys} (h : s.foreignOn api key)
    (hnamed : ForeignNamed opts s.devices) :
    ∃ spec, s.peerSpec api key = some spec ∧ spec.named opts = false := by
  obtain ⟨d, spec, hd, hspec⟩ := h
  refine ⟨spec, ?_, hnamed api d key spec hd hspec⟩
  unfold Sys.peerSpec Device.peerSpec
  rw [hd, Option.bind_some, hspec]
  rfl

end

/-! ## The record of a takeover -/

namespace ReconcilePhase

/-- The key that is being written or recorded as applied. -/
def writing : ReconcilePhase → Option NodePublic
  | .updateBind key _ _ | .upsertCall key _ | .apply key _ _ => some key
  | _ => none

/-- The key of a peer that another controller has. -/
def yields : ReconcilePhase → Option NodePublic
  | .takeOverBind key _ | .conflict key _ => some key
  | _ => none

end ReconcilePhase

/-- A takeover is recorded when the peer is not applied, and nothing is written right after it. -/
structure Recorded (s : Sys) (l : Option Frame) : Prop where
  yields : ∀ r, l = some (.reconciling r) → ∀ key, r.phase.yields = some key →
    key ∉ s.client.applied
  latest : ∀ api key before, s.calls = .conflict api key :: before →
    (s.ctl.deviceAPI = some api → key ∉ s.client.applied) ∧
      ∀ r, l = some (.reconciling r) → r.phase.writing = none

section
variable {s : Sys} {applied : FinMap NodePublic AppliedPeer} {r : Reconcile}
  {phase : ReconcilePhase} {changed : Bool} {sec : Option Section} {bind : Option BindAct}
  {device : Option DeviceAct}

theorem Reconcile.yields_turn (hcurrent : r.Current applied)
    (h : ∀ key, r.phase.yields = some key → key ∉ applied)
    (ht : r.Turn s r.phase phase changed sec bind device) (key : NodePublic)
    (hkey : phase.yields = some key) : key ∉ appliedAfter applied sec := by
  obtain ⟨api, desired, snapshot, changed₀, phase₀⟩ := r
  cases ht with
  | visitedForeign _ _ hget =>
    cases hkey
    exact fun hin => not_mem_iff.mpr hget ((hcurrent.mem_iff List.mem_cons_self).mp hin)
  | takenOver =>
    cases hkey
    simp [appliedAfter, Section.onApplied]
  | takenOverInBind => exact h key hkey
  | _ => cases hkey

theorem Reconcile.writing_turn (ht : r.Turn s r.phase phase changed sec bind none)
    (h : r.phase.writing = none) : phase.writing = none ∧
      ∀ key, key ∉ applied → key ∉ appliedAfter applied sec := by
  obtain ⟨api, desired, snapshot, changed₀, phase₀⟩ := r
  have herase {key key' : NodePublic} (hkey : key ∉ applied) : key ∉ applied.erase key' :=
    fun hin => hkey (mem_erase.mp hin).2
  cases ht with
  | removed | takenOver => exact ⟨rfl, fun _ => herase⟩
  | updatedBind | refreshedBind | applied => cases h
  | _ => exact ⟨rfl, fun _ => id⟩

end

theorem loopInvariant_recorded :
    LoopInvariant { run := fun s f R _ => Steady s (f ::ₘ R) } Recorded where
  other {s f R ch e l} hp he hloop hf hl h := by
    have happlied := applied_apply_of_not hp.orderly.life he hf
    have hcalls := calls_apply_of_not he hloop
    refine ⟨fun r hr key hkey => ?_, fun api key before hlatest => ?_⟩
    · rw [happlied]
      exact h.yields r hr key hkey
    · rw [hcalls] at hlatest
      obtain ⟨hnot, hwriting⟩ := h.latest api key before hlatest
      refine ⟨fun hapi => ?_, hwriting⟩
      rw [happlied]
      rcases (traced_effect he).ctl.deviceAPI with hsame | ⟨api', sw, rfl, -⟩
      · exact hnot (hsame.symm.trans hapi)
      · rw [hp.clean api' sw (Multiset.mem_cons_self _ _)]
        exact not_mem_empty key
  clear _ _ _ _ := by
    refine ⟨nofun, fun api key before _ => ⟨fun _ => ?_, nofun⟩⟩
    rw [applied_apply]
    exact not_mem_empty key
  reconcileBegin _ _ h := by
    refine ⟨fun r hr key hkey => ?_, fun api key before hlatest =>
      ⟨(h.latest api key before hlatest).1, fun r hr => ?_⟩⟩
    · cases hr
      cases hkey
    · cases hr
      rfl
  reconcileTurn {s r R ch phase changed sec bind device} hp ht h := by
    have hcurrent := hp.current.reconciling r (Multiset.mem_cons_self _ _)
    refine ⟨fun r' hr' key hkey => ?_, fun api key before hlatest => ?_⟩
    · cases hr'
      rw [applied_apply]
      exact Reconcile.yields_turn hcurrent (h.yields r rfl) ht key hkey
    · rw [applied_apply]
      cases device with
      | none =>
        obtain ⟨hnot, hwriting⟩ := h.latest api key before hlatest
        obtain ⟨hwriting', hkeep⟩ := Reconcile.writing_turn ht (hwriting r rfl)
        refine ⟨fun hapi => hkeep key (hnot hapi), fun r' hr' => ?_⟩
        cases hr'
        exact hwriting'
      | some act =>
        have hyields := h.yields r rfl
        generalize hphase : r.phase = phase₀ at ht hyields
        cases ht with
        | conflicted =>
          cases hlatest
          refine ⟨fun _ => hyields _ rfl, fun r' hr' => ?_⟩
          cases hr'
          rfl
        | _ => cases hlatest
  reconcileEnd _ h := ⟨nofun, fun api key before hlatest =>
    ⟨(h.latest api key before hlatest).1, nofun⟩⟩
  removeOwnedBegin _ h := ⟨nofun, fun api key before hlatest =>
    ⟨(h.latest api key before hlatest).1, nofun⟩⟩
  removeOwnedTurn {s r R ch phase sec bind device errs} hp ht h := by
    refine ⟨nofun, fun api key before hlatest => ⟨fun hapi => ?_, nofun⟩⟩
    cases device with
    | none =>
      have hnot := (h.latest api key before hlatest).1 hapi
      rw [applied_apply]
      refine fun hin => hnot ?_
      obtain ⟨a, hget⟩ := mem_iff.mp hin
      exact mem_of_get (ht.get_applied hget)
    | some act =>
      generalize r.phase = phase₀ at ht
      cases ht <;> cases hlatest
  removeOwnedEnd _ h := ⟨nofun, fun api key before hlatest =>
    ⟨(h.latest api key before hlatest).1, nofun⟩⟩
  env {s s' a l} _ ha h := by
    obtain ⟨hclient, hcalls, hctl, -, -⟩ := envStep ha
    have hapi : s'.ctl.deviceAPI = s.ctl.deviceAPI := by rw [hctl]
    refine ⟨fun r hr key hkey => ?_, fun api key before hlatest => ?_⟩
    · rw [hclient]
      exact h.yields r hr key hkey
    · rw [hcalls] at hlatest
      rw [hclient, hapi]
      exact h.latest api key before hlatest

/-! ## Peers that another controller has -/

/-- The client leaves a peer to another controller: it is not applied, and since the log `base` it was
not written. -/
structure Yields (api : Nat) (key : NodePublic) (base : List DeviceCall) (s : Sys)
    (l : Option Frame) : Prop where
  applied : s.ctl.deviceAPI = some api → key ∉ s.client.applied
  phase : ∀ r, l = some (.reconciling r) → r.api = api → r.phase.writing ≠ some key
  log : ∃ new, s.calls = new ++ base ∧ ∀ call ∈ new, call.writes api key = false

section
variable {s : Sys}

/-- A peer that is not applied and that another controller has is not written. -/
theorem Reconcile.yields_key {r : Reconcile} {applied : FinMap NodePublic AppliedPeer}
    (hcurrent : r.Current applied) (hkey : key ∉ applied) (hphase : r.phase.writing ≠ some key)
    (hread : ∃ spec, s.peerSpec r.api key = some spec ∧ spec.named s.client.opts = false)
    {phase : ReconcilePhase} {changed : Bool} {sec : Option Section} {bind : Option BindAct}
    {device : Option DeviceAct} (ht : r.Turn s r.phase phase changed sec bind device) :
    key ∉ appliedAfter applied sec ∧ phase.writing ≠ some key ∧
      ∀ act, device = some act → (act.log s).writes r.api key = false := by
  obtain ⟨api, desired, snapshot, changed₀, phase₀⟩ := r
  have hquiet (act : DeviceAct) (hact : none = some act) : (act.log s).writes api key = false := by
    cases hact
  have hreads {key' : NodePublic} (act : DeviceAct) (hact : some (.peerSpec api key') = some act) :
      (act.log s).writes api key = false := by
    cases hact
    rfl
  have herase {key' : NodePublic} : key ∉ applied.erase key' :=
    fun hin => hkey (mem_erase.mp hin).2
  -- what is deleted was applied
  have hdelete {key' : NodePublic} {keys : List NodePublic} {ok : Bool}
      (heq : phase₀ = .removeCall key' keys) (act : DeviceAct)
      (hact : some (.delete api key' ok) = some act) : (act.log s).writes api key = false := by
    cases hact
    subst heq
    have hin := hcurrent.among key' List.mem_cons_self
    refine decide_eq_false fun hboth => hkey ?_
    rw [← hboth.2]
    exact (hcurrent.mem_iff List.mem_cons_self).mpr hin
  have hupsert {key' : NodePublic} {wanted : DesiredPeer} {keys : List NodePublic} {ok : Bool}
      (heq : phase₀ = .upsertCall key' keys) (act : DeviceAct)
      (hact : some (.upsert api (peerSpecFor s.client.opts key' wanted) ok) = some act) :
      (act.log s).writes api key = false := by
    cases hact
    subst heq
    exact decide_eq_false fun hboth => hphase (congrArg some hboth.2)
  cases ht with
  | removed | takenOver => exact ⟨herase, nofun, hquiet⟩
  | deleted | deleteFailed => exact ⟨hkey, nofun, hdelete rfl⟩
  | upserted hwanted => exact ⟨hkey, hphase, hupsert rfl⟩
  | upsertFailed | upsertFailedNew => exact ⟨hkey, nofun, hupsert rfl⟩
  | updatedBind | refreshedBind => exact ⟨hkey, hphase, hquiet⟩
  | applied hwanted =>
    refine ⟨fun hin => ?_, nofun, hquiet⟩
    rcases mem_insert.mp hin with heq | hold
    · exact hphase (congrArg some heq.symm)
    · exact hkey hold
  | @visitedNew key' _ _ _ hspec =>
    refine ⟨hkey, fun heq => ?_, hreads⟩
    obtain rfl : key' = key := Option.some.inj heq
    obtain ⟨spec, hsome, -⟩ := hread
    cases hspec.symm.trans hsome
  | @visitedOwned key' _ _ _ _ _ _ hget =>
    refine ⟨hkey, fun heq => hkey ?_, hreads⟩
    obtain rfl : key' = key := Option.some.inj heq
    exact (hcurrent.mem_iff List.mem_cons_self).mpr (mem_of_get hget)
  | @visitedNamed key' _ _ _ hspec _ hnamed =>
    refine ⟨hkey, fun heq => ?_, hreads⟩
    obtain rfl : key' = key := Option.some.inj heq
    obtain ⟨spec, hsome, hforeign⟩ := hread
    cases hspec.symm.trans hsome
    exact absurd (hnamed.symm.trans hforeign) nofun
  | readOwned | readForeign | visitedLost | visitedForeign => exact ⟨hkey, nofun, hreads⟩
  | conflicted => exact ⟨hkey, nofun, fun act hact => by cases hact; rfl⟩
  | _ => exact ⟨hkey, nofun, hquiet⟩

end

/-- The log grows by the call of a turn. -/
theorem log_callsAfter {base : List DeviceCall} {s : Sys}
    (h : ∃ new, s.calls = new ++ base ∧ ∀ call ∈ new, call.writes api key = false)
    {device : Option DeviceAct}
    (hact : ∀ act, device = some act → (act.log s).writes api key = false) :
    ∃ new, callsAfter s device = new ++ base ∧ ∀ call ∈ new, call.writes api key = false := by
  obtain ⟨new, hcalls, hnew⟩ := h
  cases device with
  | none => exact ⟨new, hcalls, hnew⟩
  | some act =>
    refine ⟨act.log s :: new, congrArg (act.log s :: ·) hcalls, fun call hcall => ?_⟩
    rcases List.mem_cons.mp hcall with rfl | hold
    · exact hact act rfl
    · exact hnew call hold

/-- A call on another API does not write the peer. -/
theorem DeviceCall.writes_of_ne {call : DeviceCall} (h : call.api ≠ api) :
    call.writes api key = false := by
  cases call with
  | upsert | delete => exact decide_eq_false fun hboth => h hboth.1
  | _ => rfl

theorem loopInvariant_yields (opts : Options) (api : Nat) (key : NodePublic)
    (base : List DeviceCall) :
    LoopInvariant { run := fun s f R _ => s.foreignOn api key ∧ Steady s (f ::ₘ R) ∧
                      ForeignNamed opts s.devices ∧ s.client.opts = opts }
      (Yields api key base) where
  other {s f R ch e l} hp he hloop hf hl h := by
    obtain ⟨-, hp, -, -⟩ := hp
    have happlied := applied_apply_of_not hp.orderly.life he hf
    have hcalls := calls_apply_of_not he hloop
    refine ⟨fun hapi => ?_, h.phase, ?_⟩
    · rw [happlied]
      rcases (traced_effect he).ctl.deviceAPI with hsame | ⟨api', sw, rfl, -⟩
      · exact h.applied (hsame.symm.trans hapi)
      · rw [hp.clean api' sw (Multiset.mem_cons_self _ _)]
        exact not_mem_empty key
    · rw [hcalls]
      exact h.log
  clear _ _ _ h := by
    refine ⟨fun _ => ?_, nofun, h.log⟩
    rw [applied_apply]
    exact not_mem_empty key
  reconcileBegin _ _ h := by
    refine ⟨h.applied, fun r hr _ => ?_, h.log⟩
    cases hr
    exact nofun
  reconcileTurn {s r R ch phase changed sec bind device} hp ht h := by
    obtain ⟨hforeign, hp, hnamed, hopts⟩ := hp
    have hattached : s.ctl.deviceAPI = some r.api :=
      hp.orderly.life.knows _ (Multiset.mem_cons_self _ _)
    by_cases hapi : r.api = api
    · obtain ⟨hkey, hphase, hact⟩ := Reconcile.yields_key
        (hp.current.reconciling r (Multiset.mem_cons_self _ _)) (h.applied (hapi ▸ hattached))
        (h.phase r rfl hapi) (by rw [hapi, hopts]; exact hforeign.read hnamed) ht
      rw [hapi] at hact
      refine ⟨fun _ => ?_, fun r' hr' _ => ?_, log_callsAfter h.log hact⟩
      · rw [applied_apply]
        exact hkey
      · cases hr'
        exact hphase
    · refine ⟨fun hother => ?_, fun r' hr' hother => ?_, log_callsAfter h.log fun act hact => ?_⟩
      · exact absurd (Option.some.inj (hattached.symm.trans hother)) hapi
      · cases hr'
        exact absurd hother hapi
      · subst hact
        exact DeviceCall.writes_of_ne (by rw [ht.log_api]; exact hapi)
  reconcileEnd _ h := ⟨h.applied, nofun, h.log⟩
  removeOwnedBegin _ h := ⟨h.applied, nofun, h.log⟩
  removeOwnedTurn {s r R ch phase sec bind device errs} hp ht h := by
    obtain ⟨-, hp, -, -⟩ := hp
    have hattached : s.ctl.deviceAPI = r.api :=
      (hp.orderly.life.knows _ (Multiset.mem_cons_self _ _)).2
    obtain ⟨hkeys, ⟨past, hpast⟩, hcurrent⟩ := hp.current.removing r (Multiset.mem_cons_self _ _)
    refine ⟨fun hapi hin => ?_, nofun, log_callsAfter h.log fun act hact => ?_⟩
    · rw [applied_apply] at hin
      obtain ⟨a, hget⟩ := mem_iff.mp hin
      exact h.applied hapi (mem_of_get (ht.get_applied hget))
    · subst hact
      by_cases hapi : (act.log s).api = api
      · -- what is deleted was applied
        have hkey := h.applied (by rw [hattached, ht.log_api, hapi])
        generalize r.phase = phase₀ at ht hpast hcurrent
        cases ht with
        | @called key' rest api' heq ok =>
          refine decide_eq_false fun hboth => hkey ?_
          have hmem : key' ∈ r.keys := by
            rw [hpast]
            exact List.mem_append_right past List.mem_cons_self
          rw [← hboth.2, show s.client.applied = r.applied from hcurrent]
          exact hkeys.mem_iff.mp hmem
        | readOwned heq howned => rfl
        | readForeign heq hlost => rfl
      · exact DeviceCall.writes_of_ne hapi
  removeOwnedEnd _ h := ⟨h.applied, nofun, h.log⟩
  env {s s' a l} _ ha h := by
    obtain ⟨hclient, hcalls, hctl, -, -⟩ := envStep ha
    have hapi : s'.ctl.deviceAPI = s.ctl.deviceAPI := by rw [hctl]
    refine ⟨?_, h.phase, ?_⟩
    · rw [hclient, hapi]
      exact h.applied
    · rw [hcalls]
      exact h.log

/-! ## Ownership -/

section
variable {opts : Options} {privateKey : Option PrivateKey} {cfg cfg' : Config Sys Frame}

/-- In every state reached the log agrees with what is applied, and every write was permitted. -/
theorem permitted_of_reaches (h : program.Reaches .any (initial opts privateKey) cfg) :
    WritesPermitted opts cfg.shared.calls := by
  have hkeeps := ((keeps_steady .any).known keeps_ledger).both (keeps_opts opts .any)
  obtain ⟨⟨-, hledger⟩, hopts⟩ := hkeeps.invariant h
    ⟨⟨steady_initial opts privateKey, ledger_initial opts privateKey⟩, rfl⟩
  obtain ⟨l, hl⟩ := exists_underWay cfg.frames
  have hpermitted := (hledger l hl).permitted
  rw [hopts] at hpermitted
  exact hpermitted

/-- After a takeover was recorded, the peer is not written while the other controller has it. -/
theorem yields_of_reaches {before : List DeviceCall}
    (h : program.Reaches (foreignTransports opts) (initial opts privateKey) cfg)
    (hconflict : cfg.shared.calls = .conflict api key :: before)
    (hforeign : program.Reaches (whileForeign opts api key) cfg cfg') :
    ∃ new, cfg'.shared.calls = new ++ cfg.shared.calls ∧
      ∀ call ∈ new, call.writes api key = false := by
  have hknown (p : Policy Sys Frame Choice EnvAct)
      (hp : ∀ s a, p.env s a → (foreignTransports opts).env s a) :
      program.Keeps p fun s F => Steady s F ∧ ForeignNamed opts s.devices ∧ s.client.opts = opts :=
    (keeps_steady p).both ((keeps_foreignNamed.mono (fun _ _ _ _ _ => trivial)
      (fun _ _ _ => trivial) hp).both (keeps_opts opts p))
  have hnamed : ForeignNamed opts (initial opts privateKey).shared.devices := by
    intro api d key spec hd hspec
    cases privateKey with
    | none => cases hd
    | some privateKey =>
      have hd : ((∅ : FinMap Nat Device).insert 0 { privateKey }).get api = some d := hd
      rw [get_insert] at hd
      split at hd
      · cases hd
        cases hspec
      · cases hd
  have hinit := (hknown _ fun _ _ ha => ha).invariant h ⟨steady_initial opts privateKey, hnamed, rfl⟩
  have hrecorded := ((keeps_steady (foreignTransports opts)).known
    (loopInvariant_recorded.keeps fun _ _ _ _ hp => hp.orderly)).invariant h
    ⟨steady_initial opts privateKey, fun l hl => by rw [hl.eq_none]; exact ⟨nofun, nofun⟩⟩
  have hstart (l : Option Frame) (hl : UnderWay cfg.frames l) :
      Yields api key cfg.shared.calls cfg.shared l := by
    obtain ⟨hnot, hwriting⟩ := (hrecorded.2 l hl).latest api key before hconflict
    refine ⟨hnot, fun r hr _ => ?_, [], rfl, nofun⟩
    rw [hwriting r hr]
    exact nofun
  have hyields := (hknown (whileForeign opts api key) fun _ _ ha => ha.2).and
    (((loopInvariant_yields opts api key cfg.shared.calls).keeps fun _ _ _ _ hp => hp.2.1.orderly).mono
      (fun _ _ _ _ hp => hp) (fun _ _ _ => trivial) fun _ _ _ => trivial)
  obtain ⟨-, hyields⟩ := hyields.invariant hforeign ⟨hinit, hstart⟩
  obtain ⟨l, hl⟩ := exists_underWay cfg'.frames
  exact (hyields l hl).log

end

/-- Ownership on shared devices. Every write of the client directly follows a read of the same key on
the same API, and what was read was absent, on the client's own transport, or the endpoint of the
client's last successful upsert of the key. If other controllers do not use that transport, then once
a takeover of a key is recorded the client does not write the key as long as the other controller's
specification stays. -/
theorem device_ownership_safety (opts : Options) (privateKey : Option PrivateKey) :
    (∀ cfg, program.Reaches .any (initial opts privateKey) cfg →
      WritesPermitted opts cfg.shared.calls) ∧
    ∀ api key before cfg cfg', program.Reaches (foreignTransports opts) (initial opts privateKey) cfg →
      cfg.shared.calls = .conflict api key :: before →
      program.Reaches (whileForeign opts api key) cfg cfg' →
      ∃ new, cfg'.shared.calls = new ++ cfg.shared.calls ∧
        ∀ call ∈ new, call.writes api key = false :=
  ⟨fun _ h => permitted_of_reaches h, fun _ _ _ _ _ h hconflict hforeign =>
    yields_of_reaches h hconflict hforeign⟩

/-! ## Particular runs -/

/-- No other controller uses the client's transport. -/
def notNamed : Act Frame Choice EnvAct → Bool
  | .env (.foreignUpsert _ spec) => !spec.named sampleOptions
  | _ => true

theorem foreignTransports_of_notNamed {cfg : Config Sys Frame} {a : Act Frame Choice EnvAct}
    (h : notNamed a = true) : (foreignTransports sampleOptions).Admits cfg a := by
  cases a with
  | run t ch => exact fun _ _ => trivial
  | start => trivial
  | env e =>
    rintro api spec rfl
    simpa [notNamed] using h

/-- Another controller's specification of the peer is there, and the environment does nothing. -/
def foreignHere (cfg : Config Sys Frame) : Act Frame Choice EnvAct → Bool
  | .env _ => false
  | _ => (cfg.shared.devices.get 0).any fun d => (d.specs.get ⟨42⟩).any (·.writer = .foreign)

theorem whileForeign_of_here {cfg : Config Sys Frame} {a : Act Frame Choice EnvAct}
    (h : foreignHere cfg a = true) : (whileForeign sampleOptions 0 ⟨42⟩).Admits cfg a := by
  have hon (h : ((cfg.shared.devices.get 0).any fun d =>
      (d.specs.get ⟨42⟩).any (·.writer = .foreign)) = true) : cfg.shared.foreignOn 0 ⟨42⟩ := by
    obtain ⟨d, hd, h⟩ := (Option.any_eq_true _ _).mp h
    obtain ⟨⟨writer, spec⟩, hspec, h⟩ := (Option.any_eq_true _ _).mp h
    obtain rfl : writer = .foreign := of_decide_eq_true h
    exact ⟨d, spec, hd, hspec⟩
  cases a with
  | run t ch => exact fun _ _ => hon h
  | start f => exact hon h
  | env e => cases h

/-- The client gives up a peer, and does not write it when the same response comes again. -/
theorem device_ownership_safety_takenOver :
    ∃ cfg cfg' before, program.Reaches (foreignTransports sampleOptions) sampleClient cfg ∧
      cfg.shared.calls = .conflict 0 ⟨42⟩ :: before ∧
      program.Reaches (whileForeign sampleOptions 0 ⟨42⟩) cfg cfg' ∧
      cfg.shared.calls.length + 2 = cfg'.shared.calls.length ∧
      ∃ new, cfg'.shared.calls = new ++ cfg.shared.calls ∧
        ∀ call ∈ new, call.writes 0 ⟨42⟩ = false := by
  have hrun : (program.system.runIf (fun _ a => notNamed a = true) sampleClient
      (loseRoutedPeer ++ applyRoutedResponse)).map (fun cfg => (cfg.shared.calls.head?,
        cfg.shared.calls.length, (program.system.runIf (fun cfg a => foreignHere cfg a = true) cfg
          (steps 1 4 { stream := .response routedResponse } ++ steps 1 1 { nodeOrder := [2] } ++
            steps 1 4 { keyOrder := [⟨42⟩] })).map fun cfg => cfg.shared.calls.length)) =
      some (some (.conflict 0 ⟨42⟩), 4, some 6) := by decide +kernel
  obtain ⟨cfg, hreach, hview⟩ := System.exists_reach_of_runIf hrun
  simp only [Prod.mk.injEq] at hview
  obtain ⟨hhead, hlength, hagain⟩ := hview
  obtain ⟨before, hcalls⟩ := List.head?_eq_some_iff.mp hhead
  obtain ⟨cfg', hforeign, hlength'⟩ := System.exists_reach_of_runIf hagain
  have hreach : program.Reaches (foreignTransports sampleOptions) sampleClient cfg :=
    hreach.mono fun _ _ => foreignTransports_of_notNamed
  have hforeign := hforeign.mono fun _ _ => whileForeign_of_here
  exact ⟨cfg, cfg', before, hreach, hcalls, hforeign, by omega,
    (device_ownership_safety sampleOptions (some ⟨7⟩)).2 0 ⟨42⟩ before cfg cfg' hreach hcalls hforeign⟩

end WgoTailscale
