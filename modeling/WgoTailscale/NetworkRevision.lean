import WgoTailscale.Applied

/-!
# The revision of the network view (`views.go`)

`DesiredNetworkConfiguration` carries the revision at which it last changed. The sections that
publish or give up single peers change the view without setting it. `reconcilePeers` announces their
changes at its end, and `Close` before it begins, so that between operations the view never changes
under its old revision (`network_view_announced`). The exception is a peer that another controller
has taken over: `reconcilePeers` gives it up, its routes go, and nothing is announced
(`takeover_unannounced`).
-/

namespace WgoTailscale

open Machine

/-! ## Sections -/

/-- The sections of the workers that talk to control. -/
def Section.isReport : Section → Bool
  | .reportError _ (some _) | .setInteraction _ _ _ | .setTerminalError _ | .registered _ => true
  | _ => false

section
variable {c : Client} {x : Section} (now : Time)

/-- The revision of the view is one that the client has had, and only grows. -/
theorem networkRevision_run (hbound : c.networkRevision ≤ c.revision) (x : Section) :
    c.networkRevision ≤ (x.run c now).client.networkRevision ∧
      (x.run c now).client.networkRevision ≤ (x.run c now).client.revision := by
  have hstep := sectionStep_run c now x
  have hrevision := hstep.revision
  rcases hstep.networkRevision with hsame | ⟨hnew, hlt⟩ <;> omega

/-- Which sections start or shut down a client. -/
theorem isStop_onState (hx : x.isReport = false) :
    (x.onState c).isStop = c.state.isStop ∨ x = .startBegin ∨ x = .startFailed ∨
      x = .closeUnstarted ∨ x = .closeStopping ∨ ∃ errs, x = .closeStopped errs := by
  cases x with
  | reportError err state =>
    cases state with
    | none => exact .inl rfl
    | some state => cases hx
  | setInteraction | setTerminalError | registered => cases hx
  | startBegin => exact .inr (.inl rfl)
  | startFailed => exact .inr (.inr (.inl rfl))
  | closeUnstarted => exact .inr (.inr (.inr (.inl rfl)))
  | closeStopping => exact .inr (.inr (.inr (.inr (.inl rfl))))
  | closeStopped errs => exact .inr (.inr (.inr (.inr (.inr ⟨errs, rfl⟩))))
  | _ =>
    refine .inl ?_
    dsimp only [Section.onState]
    repeat' split
    all_goals simp_all [State.isStop]

/-- A section that leaves the applied keys alone, and a client with a self node up or down, leaves
the content of the view alone. -/
theorem networkContent_run (hagrees : LocalAgrees c)
    (hframe : x.Leaves c (x.run c now).client)
    (hstop : (x.onState c).isStop = c.state.isStop ∨ c.self = none)
    (hkeys : ∀ key, key ∈ x.onApplied c.applied ↔ key ∈ c.applied) :
    (x.run c now).client.networkContent = c.networkContent := by
  obtain ⟨hfacts, happlied, hstate, -⟩ := hframe
  have hagrees' : LocalAgrees (x.run c now).client := localAgrees_run hagrees x
  simp only [Client.mapFacts, Prod.mk.injEq] at hfacts
  obtain ⟨hself, hpeers, hdns, -⟩ := hfacts
  refine Client.networkContent_congr ?_ hself (fun id => by rw [hpeers]) hdns fun key => ?_
  · unfold Client.up
    rw [hself, hstate]
    rcases hstop with heq | hnone
    · rw [heq]
    · rw [hnone, Option.any_none, Bool.false_and, Bool.false_and]
  · rw [Bool.eq_iff_iff]
    exact (hagrees' key).symm.trans (happlied ▸ (hkeys key).trans (hagrees key))

/-- A response that changes the view announces it. -/
theorem announces_applyMapResponse (hbound : c.networkRevision ≤ c.revision)
    (response : MapResponse) :
    c.networkRevision < (c.applyMapResponse response now).client.networkRevision ∨
      (c.applyMapResponse response now).client.networkContent = c.networkContent := by
  have hred := reduces_reduceMap response.effective now c
  unfold Client.applyMapResponse
  dsimp only
  generalize reduceMap c response.effective now = r at hred ⊢
  have hrevision : r.client.revision = c.revision :=
    congrArg (fun data => data.2.1) hred.untouched
  split
  · next hkinds =>
    refine .inr (hred.content.resolve_left ?_)
    simp [Reduction.announces, hkinds]
  · rcases hred.content with hannounced | hsame
    · refine .inl ?_
      have hnew : (r.stamp now).networkRevision = r.client.revision + 1 := if_pos hannounced
      show c.networkRevision < (r.stamp now).networkRevision
      omega
    · have hstamp : (r.stamp now).networkContent = r.client.networkContent :=
        networkContent_of_local rfl rfl (fun _ => rfl) rfl rfl
      exact .inr (hstamp.trans hsame)

end

/-! ## The operations -/

/-- `Close` has stopped the client and takes it down. -/
def Frame.isClosing : Frame → Bool
  | .closing .unstarted | .closing .unstartedDone | .closing .stopping => false
  | .closing _ | .removeOwned | .removeOwnedWait _ | .removeOwnedSnapshot _
  | .removingOwned _ => true
  | _ => false

/-- Neither `reconcilePeers` nor `Close` is in the middle of its work. -/
def Rests (F : Multiset Frame) : Prop := ∀ f ∈ F, f.isLoop = false ∧ f.isClosing = false

/-- Another controller has the peer that the client has applied. -/
def Sys.TakenOver (s : Sys) (api : Nat) (key : NodePublic) : Prop :=
  ∃ spec owned, s.peerSpec api key = some spec ∧ s.client.applied.get key = some owned ∧
    peerSpecStillOwned spec owned = false

/-- The steps of the operations, of which `reconcilePeers` visits no wanted peer that another
controller has taken over. -/
def operating : Policy Sys Frame Choice EnvAct where
  run s f _ _ := (∀ x, f = .sec x → x.isReport = false) ∧
    ∀ r key keys, f = .reconciling r → r.phase = .upsertNext (key :: keys) → key ∈ r.desired →
      ¬ s.TakenOver r.api key

/-- What `Close` has done since the client `c₀`: it has not stopped it yet, or the revision has
grown. -/
structure ClosesSince (c₀ : Client) (s : Sys) (F : Multiset Frame) : Prop where
  bound : s.client.networkRevision ≤ s.client.revision
  grows : c₀.networkRevision ≤ s.client.networkRevision
  stopped : c₀.networkRevision < s.client.networkRevision ∨ ∀ f ∈ F, f.isClosing = false

section
variable {c₀ : Client} {ch : Choice} {s : Sys} {f g : Frame} {e : Effect} {R : Multiset Frame}

/-- The frames in the middle of `Close` come from such frames, or from the section that stops the
client. -/
theorem isClosing_from (hfrom : f.From s g) (hg : g.isClosing = true) :
    f.isClosing = true ∨ f = .closing .stopping := by
  cases g with
  | closing phase =>
    cases phase with
    | cancel => exact .inr hfrom
    | unstarted | unstartedDone | stopping => cases hg
    | _ =>
      obtain rfl := hfrom
      exact .inl rfl
  | removeOwned | removeOwnedSnapshot =>
    obtain rfl := hfrom
    exact .inl rfl
  | removeOwnedWait =>
    obtain ⟨rfl, -⟩ := hfrom
    exact .inl rfl
  | removingOwned r => rcases hfrom with ⟨api, rfl⟩ | ⟨r, rfl⟩ <;> exact .inl rfl
  | _ => cases hg

theorem keeps_closesSince : program.Keeps .any (ClosesSince c₀) where
  run s f R ch o h _ ho := by
    obtain ⟨e, he, rfl⟩ := Option.map_eq_some_iff.mp ho
    obtain ⟨hgrows, hbound⟩ :
        s.client.networkRevision ≤ (e.done ch.now s.client).client.networkRevision ∧
          (e.done ch.now s.client).client.networkRevision ≤
            (e.done ch.now s.client).client.revision := by
      rcases done_cases e ch.now s.client with ⟨-, hdone⟩ | ⟨x, -, hdone⟩
      · rw [hdone]
        exact ⟨le_rfl, h.bound⟩
      · rw [hdone]
        exact networkRevision_run ch.now h.bound x
    refine ⟨hbound, h.grows.trans hgrows, ?_⟩
    rcases h.stopped with hlt | hnone
    · exact .inl (hlt.trans_le hgrows)
    by_cases hstop : f = .closing .stopping
    · subst hstop
      cases he
      exact .inl (Nat.lt_succ_of_le (h.grows.trans h.bound))
    · refine .inr fun g hg => Bool.eq_false_iff.mpr fun hclosing => ?_
      have hnone (g : Frame) (hg : g ∈ f ::ₘ R) : ¬ g.isClosing = true :=
        Bool.eq_false_iff.mp (hnone g hg)
      have hown : g.isOwn = true := by cases g <;> first | rfl | cases hclosing
      rcases mem_or_from he hg hown with hmem | hfrom
      · exact hnone g (Multiset.mem_cons_of_mem hmem) hclosing
      · rcases isClosing_from hfrom hclosing with hf | hf
        · exact hnone f (Multiset.mem_cons_self _ _) hf
        · exact hstop hf
  start s F f h _ hf := by
    refine ⟨h.bound, h.grows, h.stopped.imp_right fun hnone g hg => ?_⟩
    rcases Multiset.mem_cons.mp hg with rfl | hold
    · cases g <;> first
        | cases hf; done
        | rfl
    · exact hnone g hold
  env s s' F a h _ ha := by
    have hclient := (envStep ha).client
    exact ⟨hclient ▸ h.bound, hclient ▸ h.grows, hclient ▸ h.stopped⟩

end

/-- `reconcilePeers` has a change to announce. -/
def Pending : Option Frame → Prop
  | some (.reconciling r) => r.changed = true ∧ r.phase ≠ .unlock
  | _ => False

/-- What the view shows since the client `c₀`: its revision has grown, its content is as it was, or a
change will be announced. No peer is being given up. -/
structure ShowsSince (c₀ : Client) (s : Sys) (l : Option Frame) : Prop where
  shown : c₀.networkRevision < s.client.networkRevision ∨
    s.client.networkContent = c₀.networkContent ∨ Pending l
  phase : ∀ r key keys, l = some (.reconciling r) → r.phase ≠ .takeOver key keys

section
variable {c₀ : Client} {ch : Choice} {s : Sys} {f : Frame} {e : Effect} {R : Multiset Frame}
  {l : Option Frame}

/-- What a section makes of it. -/
theorem ShowsSince.run (h : ShowsSince c₀ s l) (hcloses : ClosesSince c₀ s R) (now : Time)
    {x : Section} (l' : Option Frame)
    (hx : c₀.networkRevision < s.client.networkRevision ∨
      s.client.networkRevision < (x.run s.client now).client.networkRevision ∨
      (x.run s.client now).client.networkContent = s.client.networkContent ∧
        (Pending l → Pending l') ∨ Pending l') :
    c₀.networkRevision < (x.run s.client now).client.networkRevision ∨
      (x.run s.client now).client.networkContent = c₀.networkContent ∨ Pending l' := by
  have hgrows := (networkRevision_run now hcloses.bound x).1
  rcases hx with hlt | hlt | ⟨hsame, hpending⟩ | hpending
  · exact .inl (hlt.trans_le hgrows)
  · exact .inl (hcloses.grows.trans_lt hlt)
  · rcases h.shown with hlt | hcontent | hl
    · exact .inl (hlt.trans_le hgrows)
    · exact .inr (.inl (hsame.trans hcontent))
    · exact .inr (.inr (hpending hl))
  · exact .inr (.inr hpending)

/-- What is known of a step of the operations. -/
def operatingSince (c₀ : Client) : Policy Sys Frame Choice EnvAct where
  run s f R ch := operating.run s f R ch ∧ Steady s (f ::ₘ R) ∧ ClosesSince c₀ s (f ::ₘ R)

/-- A step that neither loop makes, and that leaves the applied peers alone. -/
theorem ShowsSince.other (hp : (operatingSince c₀).run s f R ch) (he : effect ch s f = some e)
    (hf : ¬ f.Applies) (h : ShowsSince c₀ s l) : ShowsSince c₀ (e.apply ch.now s).state l := by
  obtain ⟨⟨hreport, -⟩, hsteady, hcloses⟩ := hp
  have happlied := applied_apply_of_not hsteady.orderly.life he hf
  refine ⟨?_, h.phase⟩
  show _ < (e.done ch.now s.client).client.networkRevision ∨
    (e.done ch.now s.client).client.networkContent = _ ∨ _
  have happlied : (e.done ch.now s.client).client.applied = s.client.applied := happlied
  rcases done_cases e ch.now s.client with ⟨-, hdone⟩ | ⟨x, hx, hdone⟩
  · rw [hdone]
    exact h.shown
  rw [hdone] at happlied ⊢
  refine h.run hcloses ch.now l ?_
  rcases frame_run s.client ch.now x with ⟨response, rfl⟩ | hframe
  · rcases announces_applyMapResponse ch.now hcloses.bound response with hlt | hsame
    · exact .inr (.inl hlt)
    · exact .inr (.inr (.inl ⟨hsame, id⟩))
  have hkeys (key : NodePublic) : key ∈ x.onApplied s.client.applied ↔ key ∈ s.client.applied := by
    rw [← applied_run s.client ch.now x, happlied]
  have hcontent (hstop : (x.onState s.client).isStop = s.client.state.isStop ∨
      s.client.self = none) :=
    networkContent_run ch.now hsteady.localAgrees hframe hstop hkeys
  have hby := (traced_effect he).sec x hx
  have hmem := Multiset.mem_cons_self f R
  have hasleep (hnot : s.ctl.runtimeStarted = false) : s.client.self = none :=
    (hsteady.orderly.sleeps (.inl hnot)).1.self
  have hnotReport : x.isReport = false := by
    rcases hby with rfl | hby
    · exact hreport x rfl
    · cases x with
      | reportError | setInteraction | setTerminalError | registered => exact hby.elim
      | _ => rfl
  have hknows := hsteady.orderly.life.knows f hmem
  rcases isStop_onState hnotReport with hstop | rfl | rfl | rfl | rfl | ⟨errs, rfl⟩
  · exact .inr (.inr (.inl ⟨hcontent (.inl hstop), id⟩))
  · obtain rfl : f = .starting .begin := hby.resolve_left fun heq => by
      subst heq
      cases hknows
    exact .inr (.inr (.inl ⟨hcontent (.inr (hasleep hknows.2.2)), id⟩))
  · obtain rfl : f = .starting .failed := hby.resolve_left fun heq => by
      subst heq
      cases hknows
    exact .inr (.inr (.inl ⟨hcontent (.inr (hasleep hknows.2.2)), id⟩))
  · obtain rfl : f = .closing .unstarted := hby.resolve_left fun heq => by
      subst heq
      cases hknows
    exact .inr (.inr (.inl ⟨hcontent (.inr (hasleep (hknows.2 rfl))), id⟩))
  · exact .inr (.inl (Nat.lt_succ_of_le hcloses.bound))
  · obtain rfl : f = .closing .stopped := hby.resolve_left fun heq => by
      subst heq
      cases hknows
    exact .inl (hcloses.stopped.resolve_right fun hnone => absurd (hnone _ hmem) (by decide))

/-- `clearAppliedDeviceLocked` announces that it has cleared something. -/
theorem ShowsSince.clear (hagrees : LocalAgrees s.client) (hcloses : ClosesSince c₀ s R)
    (now : Time) (h : ShowsSince c₀ s none) :
    c₀.networkRevision < (s.client.clearAppliedDevice now).client.networkRevision ∨
      (s.client.clearAppliedDevice now).client.networkContent = c₀.networkContent ∨
        Pending none := by
  refine h.run (x := .clearAppliedDevice) hcloses now none ?_
  have hframe := (frame_run s.client now .clearAppliedDevice).resolve_left
    fun ⟨_, heq⟩ => by cases heq
  by_cases hnone : s.client.applied.keys = ∅
  · refine .inr (.inr (.inl ⟨networkContent_run now hagrees hframe (.inl rfl) fun key => ?_, id⟩))
    rw [show s.client.applied = ∅ from FinMap.eq_empty_of_keys hnone]
    exact Iff.rfl
  · refine .inr (.inl ?_)
    dsimp only [Section.run, Client.clearAppliedDevice]
    rw [if_pos hnone]
    exact Nat.lt_succ_of_le hcloses.bound

/-- A turn of `reconcilePeers`. -/
theorem ShowsSince.turn {r : Reconcile} {phase : ReconcilePhase} {changed : Bool}
    {sec : Option Section} {bind : Option BindAct} {device : Option DeviceAct}
    (hp : (operatingSince c₀).run s (.reconciling r) R ch)
    (ht : r.Turn s r.phase phase changed sec bind device)
    (h : ShowsSince c₀ s (some (.reconciling r))) :
    ShowsSince c₀ (Effect.apply { ctl := s.ctl, sec, bind, device } ch.now s).state
      (some (.reconciling { r with phase, changed })) := by
  obtain ⟨⟨-, htaken⟩, hsteady, hcloses⟩ := hp
  have hcurrent := hsteady.current.1 r (Multiset.mem_cons_self _ _)
  have hagrees := hsteady.localAgrees
  obtain ⟨api, desired, snapshot, changed₀, phase₀⟩ := r
  -- a section that leaves the applied keys alone
  have hquiet {x : Section} (hmap : ¬ ∃ response, x = .applyMapResponse response)
      (hstop : (x.onState s.client).isStop = s.client.state.isStop)
      (hkeys : ∀ key, key ∈ x.onApplied s.client.applied ↔ key ∈ s.client.applied)
      {phase : ReconcilePhase} (hphase : phase ≠ .unlock) :=
    h.run hcloses ch.now (some (.reconciling ⟨api, desired, snapshot, changed₀, phase⟩))
      (.inr (.inr (.inl
        ⟨networkContent_run ch.now hagrees ((frame_run _ _ x).resolve_left hmap) (.inl hstop) hkeys,
          fun hl => ⟨hl.1, hphase⟩⟩)))
  have hplain {phase : ReconcilePhase} (hphase : phase ≠ .unlock) :
      c₀.networkRevision < s.client.networkRevision ∨
        s.client.networkContent = c₀.networkContent ∨
          Pending (some (.reconciling ⟨api, desired, snapshot, changed₀, phase⟩)) :=
    h.shown.imp_right fun hs => hs.imp_right fun hl => ⟨hl.1, hphase⟩
  have hstep {phase : ReconcilePhase} {changed : Bool}
      (hshown : c₀.networkRevision <
          (Effect.done { ctl := s.ctl, sec, bind, device } ch.now s.client).client.networkRevision ∨
        (Effect.done { ctl := s.ctl, sec, bind, device } ch.now s.client).client.networkContent =
            c₀.networkContent ∨
          Pending (some (.reconciling ⟨api, desired, snapshot, changed, phase⟩)))
      (hphase : ∀ key keys, phase ≠ .takeOver key keys) :
      ShowsSince c₀ (Effect.apply { ctl := s.ctl, sec, bind, device } ch.now s).state
        (some (.reconciling ⟨api, desired, snapshot, changed, phase⟩)) :=
    ⟨hshown, fun r key keys hr => by cases hr; exact hphase key keys⟩
  cases ht with
  | removed => exact hstep (.inr (.inr ⟨rfl, nofun⟩)) nofun
  | removeReported | conflicted | upsertReported | droppedUnused =>
    exact hstep (hquiet (fun ⟨_, heq⟩ => by cases heq) rfl (fun _ => Iff.rfl) nofun) nofun
  | @visitedLost key keys current owned hwanted hspec hget hlost =>
    exact (htaken _ key keys rfl rfl hwanted
      ⟨current, owned, hspec, (hcurrent.todo key List.mem_cons_self).trans hget, hlost⟩).elim
  | takenOver => exact absurd rfl (h.phase _ _ _ rfl)
  | @applied key needsUpsert keys wanted hwanted =>
    cases hchanges : s.client.peerAppliedChanges key (wanted.applied s.client.opts) needsUpsert with
    | true => exact hstep (.inr (.inr ⟨Bool.or_true _, nofun⟩)) nofun
    | false =>
      rw [Bool.or_false]
      refine hstep (hquiet (fun ⟨_, heq⟩ => by cases heq) rfl (fun key' => ?_) nofun) nofun
      -- what needs no announcement was applied before
      simp only [Client.peerAppliedChanges, Bool.or_eq_false_iff, decide_eq_false_iff_not,
        not_not] at hchanges
      refine FinMap.mem_insert.trans (or_iff_right_of_imp ?_)
      rintro rfl
      exact FinMap.mem_of_get hchanges.1.1.2
  | announced hchanged =>
    exact hstep (.inl (hcloses.grows.trans_lt (Nat.lt_succ_of_le hcloses.bound))) nofun
  | silent hchanged =>
    refine hstep (h.shown.imp_right fun hs => .inl (hs.resolve_right fun hl => ?_)) nofun
    exact absurd (hchanged.symm.trans hl.1) Bool.false_ne_true
  | skipped needsUpsert hnone hphase => exact (hcurrent.not_skipped hnone hphase).elim
  | _ => exact hstep (hplain nofun) nofun

theorem loopInvariant_showsSince : LoopInvariant (operatingSince c₀) (ShowsSince c₀) where
  other hp he _ hf _ h := h.other hp he hf
  clear hp _ _ h := ⟨h.clear hp.2.1.localAgrees hp.2.2 _, nofun⟩
  reconcileBegin hnodes hkeys h := by
    refine ⟨h.shown.imp_right fun hs => hs.imp_right False.elim, fun r key keys hr => ?_⟩
    cases hr
    exact nofun
  reconcileTurn hp ht h := h.turn hp ht
  reconcileEnd hphase h :=
    ⟨h.shown.imp_right fun hs => .inl (hs.resolve_right fun hl => hl.2 hphase), nofun⟩
  removeOwnedBegin _ h := ⟨h.shown, nofun⟩
  removeOwnedTurn hp ht h := by
    obtain ⟨-, -, hcloses⟩ := hp
    refine ⟨?_, nofun⟩
    generalize RemoveOwned.phase _ = phase₀ at ht
    cases ht with
    | forgotten =>
      have hlt := hcloses.stopped.resolve_right fun hnone =>
        Bool.false_ne_true (hnone _ (Multiset.mem_cons_self _ _)).symm
      exact .inl hlt
    | _ => exact h.shown
  removeOwnedEnd _ h := ⟨h.shown, nofun⟩
  env _ ha h := by
    have hclient := (envStep ha).client
    exact ⟨hclient ▸ h.shown, h.phase⟩

end

/-! ## Runs -/

/-- From a state between operations to another one, a change of the network view is announced. -/
def NetworkAnnounced (cfg : Config Sys Frame) : Prop :=
  Rests cfg.frames → ∀ cfg', program.Reaches operating cfg cfg' → Rests cfg'.frames →
    ∀ order order', cfg.shared.client.peers.Listing order →
      cfg'.shared.client.peers.Listing order' →
      (cfg'.shared.client.networkView order').content ≠
        (cfg.shared.client.networkView order).content →
      (cfg.shared.client.networkView order).revision <
        (cfg'.shared.client.networkView order').revision

theorem Rests.underWay {F : Multiset Frame} (h : Rests F) : UnderWay F none :=
  fun f hf => (h f hf).1

/-- In every state of every run, the operations announce what they change in the network view, as
long as `reconcilePeers` visits no peer that another controller has taken over. -/
theorem network_view_announced (opts : Options) (privateKey : Option PrivateKey)
    (acts : List (Act Frame Choice EnvAct)) :
    program.system.Visits NetworkAnnounced (initial opts privateKey) acts := by
  have hinit : ClosesSince (initial opts privateKey).shared.client (initial opts privateKey).shared
      (initial opts privateKey).frames :=
    ⟨le_rfl, le_rfl, .inr fun f hf => absurd hf (Multiset.notMem_zero f)⟩
  have hcloses (p : Policy Sys Frame Choice EnvAct) (c₀ : Client) :
      program.Keeps p fun s F => Steady s F ∧ ClosesSince c₀ s F :=
    (keeps_steady p).known (keeps_closesSince.mono (fun _ _ _ _ _ => trivial)
      (fun _ _ _ => trivial) fun _ _ _ => trivial)
  refine (hcloses .any _).visits (fun cfg hcfg hrests cfg' hreach hrests' order order' horder
    horder' hdiff => ?_) ⟨steady_initial opts privateKey, hinit⟩ acts
  obtain ⟨hsteady, hbefore⟩ := hcfg
  have hkeeps := (hcloses operating cfg.shared.client).and
    ((loopInvariant_showsSince.keeps fun _ _ _ _ hp => hp.2.1.orderly).mono
      (fun _ _ _ _ hp => hp) (fun _ _ _ => trivial) fun _ _ _ => trivial)
  obtain ⟨-, hshows⟩ := hkeeps.invariant hreach
    ⟨⟨hsteady, hbefore.bound, le_rfl, .inr fun f hf => (hrests f hf).2⟩,
      fun l hl => ⟨.inr (.inl rfl), fun r key keys hr => by
        rw [hr] at hl
        cases (hrests _ hl.1).1⟩⟩
  rw [Client.content_networkView _ horder, Client.content_networkView _ horder'] at hdiff
  exact (hshows none hrests'.underWay).shown.resolve_right fun hs =>
    hs.elim hdiff False.elim

/-! ## Particular runs -/

/-- Whether the program is between operations, whether the network is up, the number of routes and
the revision of the view. -/
def networkSummary (cfg : Config Sys Frame) : Bool × Bool × Nat × Nat :=
  (cfg.threads.flatten.all fun f => !f.isLoop && !f.isClosing, cfg.shared.client.networkContent.up,
    cfg.shared.client.networkContent.routes.card, cfg.shared.client.networkRevision)

theorem rests_of_all {cfg : Config Sys Frame}
    (h : (cfg.threads.flatten.all fun f => !f.isLoop && !f.isClosing) = true) :
    Rests cfg.frames := by
  intro f hf
  have hf := List.all_eq_true.mp h f hf
  simpa using hf

/-- Is a frame about to execute one of the sections of the workers that talk to control? -/
def Frame.reports : Frame → Bool
  | .sec x => x.isReport
  | _ => false

/-- No step of a loop, and no report. -/
def operatesOutside (cfg : Config Sys Frame) : Act Frame Choice EnvAct → Bool
  | .run t _ => (cfg.top t).all fun f => !f.isLoop && !f.reports
  | _ => true

theorem operating_of_outside {cfg : Config Sys Frame} {a : Act Frame Choice EnvAct}
    (h : operatesOutside cfg a = true) : operating.Admits cfg a := by
  cases a with
  | run t ch =>
    intro f hf
    rw [operatesOutside, Option.mem_def.mp hf, Option.all_some, Bool.and_eq_true, Bool.not_eq_true',
      Bool.not_eq_true'] at h
    refine ⟨fun x hx => ?_, fun r key keys hr => ?_⟩
    · subst hx
      exact h.2
    · subst hr
      cases h.1
  | start | env => trivial

/-- The first response brings the network up, under a new revision. -/
theorem network_view_announced_first :
    ∃ cfg cfg', program.Reaches operating cfg cfg' ∧
      cfg'.shared.client.networkContent ≠ cfg.shared.client.networkContent ∧
      cfg.shared.client.networkRevision < cfg'.shared.client.networkRevision := by
  have hrun : (program.system.run sampleClient (startRun [] ++ steps 1 8)).map (fun cfg =>
      (networkSummary cfg, (program.system.runIf (fun cfg a => operatesOutside cfg a = true) cfg
        (steps 1 2 { stream := .response routedResponse })).map networkSummary)) =
      some ((true, false, 0, 0), some (true, true, 0, 3)) := by decide +kernel
  obtain ⟨cfg, hstart, hview⟩ := Option.map_eq_some_iff.mp hrun
  obtain ⟨hbefore, hafter⟩ := Prod.mk.inj hview
  obtain ⟨cfg', hreach, hafter⟩ := System.exists_reach_of_runIf hafter
  have hreach := hreach.mono fun _ _ => operating_of_outside
  simp only [networkSummary, Prod.mk.injEq] at hbefore hafter
  have hne : cfg'.shared.client.networkContent ≠ cfg.shared.client.networkContent := fun heq => by
    rw [heq, hbefore.2.1] at hafter
    cases hafter.2.1
  have hannounced := (network_view_announced sampleOptions (some ⟨7⟩) _).of_run hstart
  have hlisting (c : Client) := FinMap.listing_sortedKeys (compare : Int → Int → Ordering) c.peers
  refine ⟨cfg, cfg', hreach, hne, hannounced (rests_of_all hbefore.1) cfg' hreach
    (rests_of_all hafter.1) _ _ (hlisting _) (hlisting _) ?_⟩
  rwa [Client.content_networkView _ (hlisting _), Client.content_networkView _ (hlisting _)]

/-- The same response once more gives up the peer that another controller has taken over: its route
is gone, under the old revision. -/
theorem takeover_unannounced :
    ∃ cfg cfg', program.Reaches .any sampleClient cfg ∧ Rests cfg.frames ∧
      program.system.run cfg applyRoutedResponse = some cfg' ∧ Rests cfg'.frames ∧
      cfg'.shared.client.networkContent ≠ cfg.shared.client.networkContent ∧
      cfg'.shared.client.networkRevision = cfg.shared.client.networkRevision := by
  have hrun : (program.system.runIf (Policy.any).Admits sampleClient loseRoutedPeer).map
      (fun cfg => (networkSummary cfg,
        (program.system.run cfg applyRoutedResponse).map networkSummary)) =
      some ((true, true, 1, 4), some (true, true, 0, 4)) := by decide +kernel
  obtain ⟨cfg, hreach, hview⟩ := System.exists_reach_of_runIf hrun
  obtain ⟨hbefore, hafter⟩ := Prod.mk.inj hview
  obtain ⟨cfg', hrun', hafter⟩ := Option.map_eq_some_iff.mp hafter
  simp only [networkSummary, Prod.mk.injEq] at hbefore hafter
  refine ⟨cfg, cfg', hreach, rests_of_all hbefore.1, hrun', rests_of_all hafter.1, fun heq => ?_,
    hafter.2.2.2.trans hbefore.2.2.2.symm⟩
  have hroutes := hafter.2.2.1
  rw [heq, hbefore.2.2.1] at hroutes
  cases hroutes

end WgoTailscale
