import WgoTailscale.Locks
import WgoTailscale.SectionFacts

/-!
# The order of events

An operation builds its event under `Client.mu` and calls `eventHub.publish` later, so two operations
may publish in the other order than they built their events, and a subscriber then sees a revision
go back (`received_revision_goes_back`). This is the only way: as long as every `publish` starts
while no older event waits for its own, what each subscriber receives is in order
(`received_revisions_ordered`).
-/

namespace WgoTailscale

open Multiset

/-- The revision of the event that a frame is about to publish. -/
def Frame.waiting : Frame → Option Nat
  | .publish e => some e.revision
  | _ => none

/-- A `publish` starts only while no event of an older revision waits to be published. -/
def inRevisionOrder : Machine.Policy Sys Frame Choice EnvAct where
  run _ f R _ := ∀ n ∈ f.waiting, ∀ g ∈ R, ∀ m ∈ g.waiting, n ≤ m

instance (s : Sys) (f : Frame) (R : Multiset Frame) (ch : Choice) :
    Decidable (inRevisionOrder.run s f R ch) :=
  inferInstanceAs (Decidable (∀ n ∈ f.waiting, ∀ g ∈ R, ∀ m ∈ g.waiting, n ≤ m))

instance (s : Sys) (f : Frame) : Decidable (inRevisionOrder.start s f) := .isTrue trivial

instance (s : Sys) (a : EnvAct) : Decidable (inRevisionOrder.env s a) := .isTrue trivial

/-- What has been published is in order, what waits is newer, and nobody has anything else. -/
structure EventsOrdered (s : Sys) (F : Multiset Frame) : Prop where
  sorted : s.hub.published.Pairwise fun e e' => e.revision ≤ e'.revision
  bounded : ∀ e ∈ s.hub.published, e.revision ≤ s.client.revision
  waiting : ∀ e, .publish e ∈ F → e.revision ≤ s.client.revision ∧
    ∀ p ∈ s.hub.published, p.revision ≤ e.revision
  delivering : ∀ e phase, .publishing e phase ∈ F → s.hub.Delivering e phase.pending
  delivered : s.hub.Delivered

section
variable {ch : Choice} {s : Sys} {R : Multiset Frame} {f : Frame} {e : Effect}

/-- Revisions only grow, and a section's events carry the new one. -/
theorem stamped_done (e : Effect) (now : Time) (c : Client) :
    c.revision ≤ (e.done now c).client.revision ∧
      ∀ ev ∈ (e.done now c).events, ev.revision = (e.done now c).client.revision := by
  rcases done_cases e now c with ⟨-, hdone⟩ | ⟨x, -, hdone⟩
  · rw [hdone]
    exact ⟨le_rfl, List.forall_mem_nil _⟩
  · rw [hdone]
    exact ⟨(sectionStep_run c now x).revision, (sectionStep_run c now x).events⟩

/-- The events that wait after a step, if it publishes nothing: those that waited, and new ones of
the current revision. -/
theorem waiting_apply (h : effect ch s f = some e) {ev : Event}
    (hev : .publish ev ∈ (e.apply ch.now s).frames + R) :
    .publish ev ∈ R ∨ s.client.revision ≤ ev.revision ∧
      ev.revision ≤ (e.apply ch.now s).state.client.revision := by
  obtain ⟨hle, hevents⟩ := stamped_done e ch.now s.client
  rcases mem_add.mp hev with hnew | hold
  · refine .inr ?_
    rcases mem_frames_apply.mp hnew with ⟨ev', hev', heq⟩ | ⟨c, -, heq⟩ | hframe
    · obtain rfl := Frame.publish.inj heq
      exact ⟨hle.trans (hevents ev hev').ge, (hevents ev hev').le⟩
    · cases heq
    · have hrevision : ev.revision = s.client.revision := ((traced_effect h).calls _ hframe).2
      exact ⟨hrevision.ge, hrevision.trans_le hle⟩
  · exact .inl hold

/-- A step that leaves the hub alone. -/
theorem EventsOrdered.of_quiet (hI : EventsOrdered s (f ::ₘ R)) (h : effect ch s f = some e)
    (hquiet : s.hub.Quiet (e.apply ch.now s).state.hub)
    (hf : ∀ ev phase, .publishing ev phase ∉ (e.apply ch.now s).frames) :
    EventsOrdered (e.apply ch.now s).state ((e.apply ch.now s).frames + R) := by
  obtain ⟨hle, -⟩ := stamped_done e ch.now s.client
  refine ⟨?_, fun p hp => ?_, fun ev hev => ?_, fun ev phase hev => ?_, hquiet.delivered hI.delivered⟩
  · rw [hquiet.published]
    exact hI.sorted
  · rw [hquiet.published] at hp
    exact (hI.bounded p hp).trans hle
  · rw [hquiet.published]
    rcases waiting_apply h hev with hold | ⟨hlow, hhigh⟩
    · obtain ⟨hrevision, hnewer⟩ := hI.waiting ev (mem_cons_of_mem hold)
      exact ⟨hrevision.trans hle, hnewer⟩
    · exact ⟨hhigh, fun p hp => (hI.bounded p hp).trans hlow⟩
  · have hold := (mem_add.mp hev).resolve_left (hf ev phase)
    exact hquiet.delivering (hI.delivering ev phase (mem_cons_of_mem hold))

/-- While one `publish` holds the hub's lock, no other does. -/
theorem not_publishing_of_alone (hl : LocksHeld s (f ::ₘ R)) (hf : .hub ∈ f.locks) (ev : Event)
    (phase : PublishPhase) : .publishing ev phase ∉ R :=
  fun hmem => hl.alone (by decide) hf hmem List.mem_cons_self

/-- `publish` takes the lock, in its turn. -/
theorem EventsOrdered.run_publish {ev : Event} (hI : EventsOrdered s (.publish ev ::ₘ R))
    (hl : LocksHeld s (.publish ev ::ₘ R)) (hturn : ∀ ev', .publish ev' ∈ R → ev.revision ≤ ev'.revision)
    (h : effect ch s (.publish ev) = some e) :
    EventsOrdered (e.apply ch.now s).state ((e.apply ch.now s).frames + R) := by
  have hpublish : publishEffect ch s ev = some e := h
  revert hpublish
  fun_cases publishEffect ch s ev <;> intro hpublish <;> cases hpublish
  · next hub hbegin =>
    obtain rfl := Hub.publishBegin_none hbegin
    refine hI.of_quiet h (.refl s.hub) fun ev phase hmem => ?_
    simp [mem_frames_apply, Effect.done] at hmem
  · next hub phase hbegin =>
    obtain ⟨hdelivering, hpublished, -⟩ := hI.delivered.begin hbegin
    obtain ⟨hrevision, hnewer⟩ := hI.waiting ev (mem_cons_self _ _)
    have hold : ∀ ev' phase', Frame.publishing ev' phase' ∉ R := fun ev' phase' hmem => by
      have hlocked := hl.level_ne_zero (mem_cons_of_mem hmem) (ℓ := .hub) List.mem_cons_self
      simp [lockLevel, (Hub.locked_publishBegin hbegin).1] at hlocked
    refine ⟨?_, fun p hp => ?_, fun ev' hev' => ?_, fun ev' phase' hev' => ?_, hdelivering.delivered⟩
    · show hub.published.Pairwise _
      rw [hpublished]
      refine List.pairwise_append.mpr ⟨hI.sorted, List.pairwise_singleton _ _, fun p hp q hq => ?_⟩
      rw [List.mem_singleton.mp hq]
      exact hnewer p hp
    · have hp : p ∈ hub.published := hp
      rw [hpublished] at hp
      rcases List.mem_append.mp hp with hp | hp
      · exact hI.bounded p hp
      · rw [List.mem_singleton.mp hp]
        exact hrevision
    · have hmem : .publish ev' ∈ R := by
        simpa [mem_frames_apply, Effect.done] using hev'
      obtain ⟨hrevision', hnewer'⟩ := hI.waiting ev' (mem_cons_of_mem hmem)
      refine ⟨hrevision', fun p hp => ?_⟩
      have hp : p ∈ hub.published := hp
      rw [hpublished] at hp
      rcases List.mem_append.mp hp with hp | hp
      · exact hnewer' p hp
      · rw [List.mem_singleton.mp hp]
        exact hturn ev' hmem
    · have hmem : .publishing ev' phase' = Frame.publishing ev phase ∨ .publishing ev' phase' ∈ R := by
        simpa [mem_frames_apply, Effect.done] using hev'
      obtain ⟨rfl, rfl⟩ := Frame.publishing.inj (hmem.resolve_right (hold ev' phase'))
      exact hdelivering

/-- `publish` offers its event to the next subscriber, or releases the lock. -/
theorem EventsOrdered.run_publishing {ev : Event} {phase : PublishPhase}
    (hI : EventsOrdered s (.publishing ev phase ::ₘ R)) (hl : LocksHeld s (.publishing ev phase ::ₘ R))
    (h : effect ch s (.publishing ev phase) = some e) :
    EventsOrdered (e.apply ch.now s).state ((e.apply ch.now s).frames + R) := by
  have hold := not_publishing_of_alone hl List.mem_cons_self
  have hstep := (hI.delivering ev phase (mem_cons_self _ _)).step
  have hpublished := Hub.published_publishStep s.hub ev phase
  have hframe : ∀ (hub : Hub) (F : Multiset Frame), hub.published = s.hub.published → hub.Delivered →
      (∀ ev', .publish ev' ∈ F → .publish ev' ∈ R) →
      (∀ ev' phase', .publishing ev' phase' ∈ F → hub.Delivering ev' phase'.pending) →
      EventsOrdered { s with hub } F := by
    intro hub F hpub hdelivered hwaiting hdelivering
    refine ⟨?_, fun p hp => hI.bounded p (hpub ▸ hp), fun ev' hev' => ?_, hdelivering, hdelivered⟩
    · show hub.published.Pairwise _
      rw [hpub]
      exact hI.sorted
    · obtain ⟨hrevision, hnewer⟩ := hI.waiting ev' (mem_cons_of_mem (hwaiting ev' hev'))
      exact ⟨hrevision, fun p hp => hnewer p (hpub ▸ hp)⟩
  have hpublishing : publishingEffect s ev phase = some e := h
  revert hpublishing
  fun_cases publishingEffect s ev phase <;> intro hpublishing <;> cases hpublishing
  · next hub heq =>
    rw [heq] at hstep hpublished
    refine hframe hub _ hpublished hstep (fun ev' hev' => ?_) fun ev' phase' hev' => ?_
    · simpa [mem_frames_apply, Effect.done] using hev'
    · exact absurd (by simpa [mem_frames_apply, Effect.done] using hev') (hold ev' phase')
  · next hub phase' heq =>
    rw [heq] at hstep hpublished
    refine hframe hub _ hpublished hstep.delivered (fun ev' hev' => ?_) fun ev' phase'' hev' => ?_
    · simpa [mem_frames_apply, Effect.done] using hev'
    · have hmem : .publishing ev' phase'' = Frame.publishing ev phase' ∨
          .publishing ev' phase'' ∈ R := by
        simpa [mem_frames_apply, Effect.done] using hev'
      obtain ⟨rfl, rfl⟩ := Frame.publishing.inj (hmem.resolve_right (hold ev' phase''))
      exact hstep

/-- The other steps leave the hub alone, or close it. -/
theorem quiet_apply (h : effect ch s f = some e) (hf : ∀ ev, f ≠ .publish ev)
    (hf' : ∀ ev phase, f ≠ .publishing ev phase) : s.hub.Quiet (e.apply ch.now s).state.hub := by
  cases hhub : e.hub with
  | none =>
    show s.hub.Quiet (e.hub.getD s.hub)
    rw [hhub]
    exact .refl s.hub
  | some hub =>
    have hisHub : f.isHub = true := (traced_effect h).hub (by simp [hhub])
    cases f with
    | publish ev => exact absurd rfl (hf ev)
    | publishing ev phase => exact absurd rfl (hf' ev phase)
    | closeHub =>
      dsimp only [effect] at h
      split at h
      · cases h
      · next hub' heq =>
        cases h
        exact Hub.quiet_close heq
    | _ => cases hisHub

/-- Every step that keeps to the order of revisions keeps the events in order. -/
theorem keeps_eventsOrdered :
    program.Keeps inRevisionOrder fun s F => LocksHeld s F ∧ EventsOrdered s F := by
  refine (keeps_locks inRevisionOrder).and ⟨?_, ?_, ?_⟩
  · rintro s f R ch o hI ⟨hturn, hl⟩ ho
    obtain ⟨e, he, rfl⟩ := Option.map_eq_some_iff.mp ho
    by_cases hpublish : ∃ ev, f = .publish ev
    · obtain ⟨ev, rfl⟩ := hpublish
      exact hI.run_publish hl (fun ev' hev' => hturn _ rfl _ hev' _ rfl) he
    by_cases hpublishing : ∃ ev phase, f = .publishing ev phase
    · obtain ⟨ev, phase, rfl⟩ := hpublishing
      exact hI.run_publishing hl he
    simp only [not_exists] at hpublish hpublishing
    refine hI.of_quiet he (quiet_apply he hpublish hpublishing) fun ev phase hmem => ?_
    rcases (mem_or_from he (mem_add.mpr (.inl hmem)) rfl).resolve_left
      (notMem_zero _) with rfl | ⟨phase', rfl⟩
    · exact hpublish ev rfl
    · exact hpublishing ev phase' rfl
  · intro s F f hI _ hf
    refine ⟨hI.sorted, hI.bounded, fun ev hev => ?_, fun ev phase hev => ?_, hI.delivered⟩
    · rcases mem_cons.mp hev with rfl | hold
      · exact absurd hf Bool.false_ne_true
      · exact hI.waiting ev hold
    · rcases mem_cons.mp hev with rfl | hold
      · exact absurd hf Bool.false_ne_true
      · exact hI.delivering ev phase hold
  · intro s s' F a hI _ ha
    obtain ⟨hclient, -, -, hquiet, -⟩ := envStep ha
    refine ⟨?_, fun p hp => ?_, fun ev hev => ?_, fun ev phase hev => ?_,
      hquiet.delivered hI.delivered⟩
    · rw [hquiet.published]
      exact hI.sorted
    · rw [hclient]
      exact hI.bounded p (hquiet.published ▸ hp)
    · rw [hclient, hquiet.published]
      exact hI.waiting ev hev
    · exact hquiet.delivering (hI.delivering ev phase hev)

end

/-- As long as every `publish` starts while no older event waits for its own, the revisions that a
subscriber receives never go back. -/
theorem received_revisions_ordered {opts : Options} {privateKey : Option PrivateKey}
    {cfg : Config Sys Frame} (h : program.Reaches inRevisionOrder (initial opts privateKey) cfg)
    {id : Nat} {ch : Channel} (hch : cfg.shared.hub.channels.get id = some ch) :
    (ch.received.map Event.revision).Pairwise (· ≤ ·) := by
  have hinit : EventsOrdered (initial opts privateKey).shared (initial opts privateKey).frames :=
    ⟨.nil, fun _ h => absurd h List.not_mem_nil, fun _ h => absurd h (notMem_zero _),
      fun _ _ h => absurd h (notMem_zero _), fun _ _ h => by cases h⟩
  have hI := (keeps_eventsOrdered.invariant h ⟨locksHeld_initial .., hinit⟩).2
  have hsub : ch.received.Sublist cfg.shared.hub.published :=
    (List.sublist_append_left _ _).trans (hI.delivered id ch hch)
  exact List.pairwise_map.mpr (hI.sorted.sublist hsub)

/-- The revisions that subscriber 1 has received. -/
def receivedRevisions (cfg : Config Sys Frame) : Option (List Nat) :=
  (cfg.shared.hub.channels.get 1).map fun ch => ch.received.map Event.revision

/-- A registration and the first section of `Close`, each with its events still to be published. -/
def registerWhileClosing : Schedule :=
  [.env (.subscribe 8)] ++ startRun [1] ++ steps 1 2 ++ [.start .close] ++ steps 8 2

/-- The registration publishes its two events first, and then `Close` its first one. -/
def publishInOrder : Schedule :=
  registerWhileClosing ++ steps 1 6 { subOrder := [1] } ++ steps 8 3 { subOrder := [1] } ++
    List.replicate 5 (.env (.receive 1))

theorem received_revisions_ordered_publishInOrder :
    ∃ cfg, program.Reaches inRevisionOrder sampleClient cfg ∧
      ∃ ch, cfg.shared.hub.channels.get 1 = some ch ∧
        ch.received.map Event.revision = [1, 1, 2, 2, 3] ∧
        (ch.received.map Event.revision).Pairwise (· ≤ ·) := by
  have hrun : (program.system.runIf inRevisionOrder.Admits sampleClient publishInOrder).map
      receivedRevisions = some (some [1, 1, 2, 2, 3]) := by decide +kernel
  obtain ⟨cfg, hreach, hreceived⟩ := System.exists_reach_of_runIf hrun
  obtain ⟨ch, hch, hrevisions⟩ := Option.map_eq_some_iff.mp hreceived
  exact ⟨cfg, hreach, ch, hch, hrevisions, received_revisions_ordered hreach hch⟩

/-- `Close` publishes before the registration, whose events are older. -/
def publishOutOfOrder : Schedule :=
  registerWhileClosing ++ steps 8 3 { subOrder := [1] } ++ steps 1 3 { subOrder := [1] } ++
    List.replicate 4 (.env (.receive 1))

/-- A subscriber receives revision 3 and then revision 2. -/
theorem received_revision_goes_back :
    ∃ cfg, program.Reaches .any sampleClient cfg ∧
      ∃ ch, cfg.shared.hub.channels.get 1 = some ch ∧
        ¬ (ch.received.map Event.revision).Pairwise (· ≤ ·) := by
  have hrun : (program.system.runIf (Machine.Policy.any).Admits sampleClient publishOutOfOrder).map
      receivedRevisions = some (some [1, 1, 3, 2]) := by decide +kernel
  obtain ⟨cfg, hreach, hreceived⟩ := System.exists_reach_of_runIf hrun
  obtain ⟨ch, hch, hrevisions⟩ := Option.map_eq_some_iff.mp hreceived
  refine ⟨cfg, hreach, ch, hch, ?_⟩
  rw [hrevisions]
  decide

end WgoTailscale
