import WgoTailscale.NetcheckRounds

/-!
# The STUN probes of a round

When a round is told that its STUN probes are done. Each target has at most one frame that sends to
it and at most one entry in `stunPending`, so it is answered or given up once, and `remaining`
counts the targets that are neither: `ProbesSound`. This needs that no target is answered whose
requests could not be sent, which is the policy `unansweredFailures`. `netcheck_rounds` is what
holds of the rounds and of their probes in every run.
-/

namespace WgoTailscale

open Machine Multiset

/-! ## The invariant -/

/-- Every target to which the round sends a STUN request was answered, or could not be sent to. -/
def DerpCheckRound.Settled (r : DerpCheckRound) : Prop := r.stunTargets ⊆ r.answered ∪ r.failed

/-- The target was answered, or could not be sent to. -/
def DerpCheckRound.resolved (r : DerpCheckRound) (i : Nat) : Bool := i ∈ r.answered ∪ r.failed

/-- An entry is for a target of a round. -/
def PendingProbe.IsFor (probe : PendingProbe) (id i : Nat) : Prop :=
  probe.checkID = id ∧ probe.target = i

/-- Nothing was sent to the target yet. -/
structure Netcheck.Unsent (s : Netcheck) (id i : Nat) : Prop where
  answered : i ∉ (s.rounds id).answered
  failed : i ∉ (s.rounds id).failed
  pending : ∀ tx probe, s.stunPending.get tx = some probe → ¬ probe.IsFor id i

/-- The frames that will send to the target, or are sending to it. -/
def NetcheckFrame.launches (id i : Nat) : NetcheckFrame → Nat
  | .startRound _ id' => if id' = id then 1 else 0
  | .querySTUN _ id' i' | .writeSTUN id' i' _ _ => if id' = id ∧ i' = i then 1 else 0
  | _ => 0

/-- The frames that will count the target. -/
def NetcheckFrame.completes (id i : Nat) : NetcheckFrame → Nat
  | .completeSTUNProbe id' i' => if id' = id ∧ i' = i then 1 else 0
  | _ => 0

/-- What a frame knows about its target. -/
def NetcheckFrame.Holds (s : Netcheck) : NetcheckFrame → Prop
  | .startRound _ id => ∀ i, s.Unsent id i
  | .querySTUN _ id i => i ∈ (s.rounds id).stunTargets ∧ s.Unsent id i
  | .writeSTUN id i tx _ => i ∈ (s.rounds id).stunTargets ∧ i ∉ (s.rounds id).failed ∧
      ∀ tx' probe, s.stunPending.get tx' = some probe → probe.IsFor id i → tx' = tx
  | .completeSTUNProbe id i => i ∈ (s.rounds id).stunTargets
  | .signalSTUN id => (s.rounds id).Settled
  | _ => True

/-- What holds of a round: `remaining` counts the targets that were not counted. -/
structure DerpCheckRound.CountsDown (r : DerpCheckRound) : Prop where
  counted : r.counted ⊆ r.stunTargets
  remaining : r.remaining + r.counted.card = r.stunTargets.card
  signalled : r.signalled → r.Settled

/-- What holds of an entry of `stunPending`. -/
structure PendingProbe.Open (r : DerpCheckRound) (probe : PendingProbe) : Prop where
  target : probe.target ∈ r.stunTargets
  answered : probe.target ∉ r.answered
  failed : probe.target ∉ r.failed

/-- What holds of the rounds and their probes. -/
structure ProbesOk (s : Netcheck) : Prop where
  rounds : ∀ id, (s.rounds id).CountsDown
  pending : ∀ tx probe, s.stunPending.get tx = some probe → probe.Open (s.rounds probe.checkID)
  unique : ∀ tx tx' probe probe', s.stunPending.get tx = some probe →
    s.stunPending.get tx' = some probe' → probe'.IsFor probe.checkID probe.target → tx' = tx

/-- What holds between the steps. -/
structure ProbesSound (s : Netcheck) (F : Multiset NetcheckFrame) : Prop extends ProbesOk s where
  launched : ∀ id i, weightOf (NetcheckFrame.launches id i) F ≤ 1
  completed : ∀ id i, weightOf (NetcheckFrame.completes id i) F +
    (decide (i ∈ (s.rounds id).counted)).toNat ≤ ((s.rounds id).resolved i).toNat
  holds : ∀ f ∈ F, f.Holds s

section
variable {s s' : Netcheck} {f g : NetcheckFrame} {R : Multiset NetcheckFrame}
  {o : Outcome Netcheck NetcheckFrame} {id i : Nat} {r : DerpCheckRound}

theorem resolved_iff : r.resolved i = true ↔ i ∈ r.answered ∨ i ∈ r.failed := by
  rw [DerpCheckRound.resolved, decide_eq_true_iff, Finset.mem_union]

theorem unresolved (hanswered : i ∉ r.answered) (hfailed : i ∉ r.failed) :
    r.resolved i = false := by
  rw [Bool.eq_false_iff, ne_eq, resolved_iff]
  exact fun h => h.elim hanswered hfailed

theorem get_erase_eq_some {pending : FinMap TxID PendingProbe} {tx tx' : TxID}
    {probe : PendingProbe} (h : (pending.erase tx).get tx' = some probe) :
    tx' ≠ tx ∧ pending.get tx' = some probe := by
  rw [FinMap.get_erase] at h
  split at h
  · cases h
  · next hne => exact ⟨hne, h⟩

/-- While a frame is at a target, no other is. -/
theorem ProbesSound.alone (h : ProbesSound s (f ::ₘ R)) (id i : Nat) (hf : f.launches id i = 1) :
    ∀ g ∈ R, g.launches id i = 0 := by
  intro g hg
  have hle := h.launched id i
  have hmem : g.launches id i ≤ _ := weight_le_of_mem hg
  rw [weightOf_cons] at hle
  omega

/-- What was counted is resolved. -/
theorem ProbesSound.resolved (h : ProbesSound s R) (hi : i ∈ (s.rounds id).counted) :
    i ∈ (s.rounds id).answered ∪ (s.rounds id).failed := by
  have hle := h.completed id i
  rw [decide_eq_true hi, Bool.toNat_true] at hle
  by_contra hnot
  rw [DerpCheckRound.resolved, decide_eq_false hnot, Bool.toNat_false] at hle
  omega

/-- Where nothing remains, every target is resolved. -/
theorem settled_of_remaining (hcounted : r.counted ⊆ r.stunTargets)
    (hcard : r.remaining + r.counted.card = r.stunTargets.card) (hremaining : r.remaining = 0)
    (hresolved : r.counted ⊆ r.answered ∪ r.failed) : r.Settled := by
  have hall : r.counted = r.stunTargets := Finset.eq_of_subset_of_card_le hcounted (by omega)
  exact fun i hi => hresolved (hall ▸ hi)

/-- What a frame knows stays true where nothing changes for its targets. -/
theorem NetcheckFrame.Holds.transfer (h : g.Holds s)
    (hround : ∀ id, g.round = some id → (s'.rounds id).stunTargets = (s.rounds id).stunTargets ∧
      ((s.rounds id).Settled → (s'.rounds id).Settled))
    (hsends : ∀ id i, g.launches id i = 1 → s.Unsent id i → s'.Unsent id i)
    (hwrites : ∀ id i, g.launches id i = 1 →
      (i ∈ (s'.rounds id).failed → i ∈ (s.rounds id).failed) ∧
      ∀ tx probe, s'.stunPending.get tx = some probe → probe.IsFor id i →
        s.stunPending.get tx = some probe) : g.Holds s' := by
  cases g with
  | startRound ctx id => exact fun i => hsends id i (if_pos rfl) (h i)
  | querySTUN ctx id i =>
    refine ⟨?_, hsends id i (if_pos ⟨rfl, rfl⟩) h.2⟩
    rw [(hround id rfl).1]
    exact h.1
  | writeSTUN id i tx addresses =>
    obtain ⟨hfailed, hpending⟩ := hwrites id i (if_pos ⟨rfl, rfl⟩)
    refine ⟨?_, fun hmem => h.2.1 (hfailed hmem), fun tx' probe hprobe hfor => ?_⟩
    · rw [(hround id rfl).1]
      exact h.1
    · exact h.2.2 tx' probe (hpending tx' probe hprobe hfor) hfor
  | completeSTUNProbe id i =>
    show i ∈ (s'.rounds id).stunTargets
    rw [(hround id rfl).1]
    exact h
  | signalSTUN id => exact (hround id rfl).2 h
  | _ => trivial

/-- What has to be shown of a step. -/
theorem ProbesSound.step (h : ProbesSound s (f ::ₘ R)) (hok : ProbesOk o.state)
    (hlaunched : ∀ id i, Outcome.weight (NetcheckFrame.launches id i) o ≤ f.launches id i)
    (hcompleted : ∀ id i, Outcome.weight (NetcheckFrame.completes id i) o +
      (decide (i ∈ (o.state.rounds id).counted)).toNat + ((s.rounds id).resolved i).toNat ≤
      f.completes id i + (decide (i ∈ (s.rounds id).counted)).toNat +
        ((o.state.rounds id).resolved i).toNat)
    (hold : ∀ g ∈ R, g.Holds o.state) (hnew : ∀ g ∈ o.frames, g.Holds o.state) :
    ProbesSound o.state (o.frames + R) := by
  refine { hok with
    launched := fun id i => ?_
    completed := fun id i => ?_
    holds := fun g hg => ?_ }
  · have hle := h.launched id i
    have hstep := hlaunched id i
    rw [weightOf_cons] at hle
    rw [weightOf_add, weightOf_frames]
    omega
  · have hle := h.completed id i
    have hstep := hcompleted id i
    rw [weightOf_cons] at hle
    rw [weightOf_add, weightOf_frames]
    omega
  · rcases mem_add.mp hg with hg | hg
    · exact hnew g hg
    · exact hold g hg

/-! ## Steps of no probe -/

/-- The rounds have sent and counted the same; probes may have been forgotten. -/
structure Netcheck.SameSent (s s' : Netcheck) : Prop where
  rounds : ∀ id, ∃ latencies stunDone wg,
    s'.rounds id = { s.rounds id with latencies, stunDone, wg }
  pending : ∀ tx probe, s'.stunPending.get tx = some probe → s.stunPending.get tx = some probe

namespace Netcheck.SameSent

theorem refl (s : Netcheck) : s.SameSent s := ⟨fun _ => ⟨_, _, _, rfl⟩, fun _ _ h => h⟩

theorem of_sameProbes (h : s.SameProbes s') : s.SameSent s' := by
  refine ⟨fun id => ?_, h.pending⟩
  obtain ⟨stunDone, wg, heq⟩ := h.rounds id
  exact ⟨_, _, _, heq⟩

/-- What does not read the latencies, `stunDone` and the HTTPS probes is the same. -/
theorem view {γ : Type} (h : s.SameSent s') (view : DerpCheckRound → γ)
    (hview : ∀ r latencies stunDone wg,
      view { r with latencies, stunDone, wg } = view r) (id : Nat) :
    view (s'.rounds id) = view (s.rounds id) := by
  obtain ⟨latencies, stunDone, wg, heq⟩ := h.rounds id
  rw [heq, hview]

theorem unsent (h : s.SameSent s') (hunsent : s.Unsent id i) : s'.Unsent id i := by
  refine ⟨?_, ?_, fun tx probe hprobe => hunsent.pending tx probe (h.pending tx probe hprobe)⟩
  · rw [h.view (·.answered) (fun _ _ _ _ => rfl)]
    exact hunsent.answered
  · rw [h.view (·.failed) (fun _ _ _ _ => rfl)]
    exact hunsent.failed

theorem holds (h : s.SameSent s') (hg : g.Holds s) : g.Holds s' := by
  refine hg.transfer (fun id _ => ⟨?_, ?_⟩) (fun _ _ _ => h.unsent) fun id i _ =>
    ⟨?_, fun tx probe hprobe _ => h.pending tx probe hprobe⟩
  · exact h.view (·.stunTargets) (fun _ _ _ _ => rfl) id
  · rw [h.view (·.Settled) (fun _ _ _ _ => rfl)]
    exact fun h => h
  · rw [h.view (·.failed) (fun _ _ _ _ => rfl)]
    exact fun h => h

theorem probesOk (h : s.SameSent s') (hok : ProbesOk s) : ProbesOk s' where
  rounds id := by
    obtain ⟨latencies, stunDone, wg, heq⟩ := h.rounds id
    obtain ⟨hcounted, hremaining, hsignalled⟩ := hok.rounds id
    rw [heq]
    exact ⟨hcounted, hremaining, hsignalled⟩
  pending tx probe hprobe := by
    obtain ⟨htarget, hanswered, hfailed⟩ := hok.pending tx probe (h.pending tx probe hprobe)
    obtain ⟨latencies, stunDone, wg, heq⟩ := h.rounds probe.checkID
    rw [heq]
    exact ⟨htarget, hanswered, hfailed⟩
  unique tx tx' probe probe' hprobe hprobe' :=
    hok.unique tx tx' probe probe' (h.pending tx probe hprobe) (h.pending tx' probe' hprobe')

end Netcheck.SameSent

theorem NetcheckFrame.not_probes (h : g.probes = false) :
    (∀ id i, g.launches id i = 0) ∧ (∀ id i, g.completes id i = 0) ∧ g.Holds s := by
  cases g <;> first | exact ⟨fun _ _ => rfl, fun _ _ => rfl, trivial⟩ | cases h

theorem ProbesSound.same (h : ProbesSound s R) (hsame : s.SameSent s') : ProbesSound s' R := by
  refine { hsame.probesOk h.toProbesOk with
    launched := h.launched
    completed := fun id i => ?_
    holds := fun g hg => hsame.holds (h.holds g hg) }
  rw [hsame.view (fun r => decide (i ∈ r.counted)) (fun _ _ _ _ => rfl),
    hsame.view (·.resolved i) (fun _ _ _ _ => rfl)]
  exact h.completed id i

/-- A step that neither sends nor counts. -/
theorem ProbesSound.rest (h : ProbesSound s (f ::ₘ R)) (hsame : s.SameSent o.state)
    (hnew : ∀ g ∈ o.frames, g.probes = false) : ProbesSound o.state (o.frames + R) := by
  have h' := h.same hsame
  refine h'.step h'.toProbesOk (fun id i => ?_) (fun id i => ?_)
    (fun g hg => h'.holds g (mem_cons_of_mem hg))
    fun g hg => (g.not_probes (hnew g hg)).2.2
  · rw [weight_eq_zero fun g hg => (g.not_probes (s := s) (hnew g hg)).1 id i]
    exact Nat.zero_le _
  · rw [weight_eq_zero fun g hg => (g.not_probes (s := s) (hnew g hg)).2.1 id i]
    omega

/-- A call from outside. -/
theorem ProbesSound.enter (h : ProbesSound s R) (hf : f.probes = false) :
    ProbesSound s (f ::ₘ R) := by
  obtain ⟨hlaunches, hcompletes, hholds⟩ := f.not_probes (s := s) hf
  refine { h with launched := fun id i => ?_, completed := fun id i => ?_, holds := fun g hg => ?_ }
  · rw [weightOf_cons, hlaunches, Nat.zero_add]
    exact h.launched id i
  · rw [weightOf_cons, hcompletes, Nat.zero_add]
    exact h.completed id i
  · rcases mem_cons.mp hg with rfl | hg
    · exact hholds
    · exact h.holds g hg

/-! ## Sending -/

/-- A step between frames at the same target. -/
theorem ProbesSound.goto (h : ProbesSound s (f ::ₘ R)) (ho : o = { state := s, calls := [g] })
    (hlaunches : ∀ id i, g.launches id i = f.launches id i)
    (hcompletes : ∀ id i, g.completes id i = 0) (hg : g.Holds s) :
    ProbesSound o.state (o.frames + R) := by
  have hnew : ∀ g' ∈ o.frames, g' = g := by
    rw [ho]
    simp [Outcome.frames]
  subst ho
  refine h.step h.toProbesOk (fun id i => ?_) (fun id i => ?_)
    (fun g hg => h.holds g (mem_cons_of_mem hg)) fun g' hg' => hnew g' hg' ▸ hg
  · rw [weight_call, hlaunches]
  · rw [weight_call, hcompletes]
    dsimp only
    omega

/-- `querySTUN` stores its request. -/
theorem ProbesSound.sent {ctx : Nat} {tx : TxID} {addresses : List Addr} {probe : PendingProbe}
    (h : ProbesSound s (.querySTUN ctx id i ::ₘ R)) (hid : probe.checkID = id)
    (htarget : probe.target = i)
    (ho : o = { state := { s with stunPending := s.stunPending.insert tx probe }
                calls := [.writeSTUN id i tx addresses] }) :
    ProbesSound o.state (o.frames + R) := by
  obtain ⟨hi, hunsent⟩ := h.holds _ (mem_cons_self _ _)
  have halone := h.alone id i (if_pos ⟨rfl, rfl⟩)
  -- an entry is the new one or an old one, and then for another target
  have hentry {tx' : TxID} {probe' : PendingProbe}
      (hget : (s.stunPending.insert tx probe).get tx' = some probe') :
      (tx' = tx ∧ probe' = probe) ∨
        (s.stunPending.get tx' = some probe' ∧ ¬ probe'.IsFor id i) := by
    rw [FinMap.get_insert] at hget
    split at hget
    · next htx => exact .inl ⟨htx, (Option.some.inj hget).symm⟩
    · exact .inr ⟨hget, hunsent.pending tx' probe' hget⟩
  have hnew : ∀ g' ∈ o.frames, g' = .writeSTUN id i tx addresses := by
    rw [ho]
    simp [Outcome.frames]
  subst ho
  refine h.step ⟨h.rounds, fun tx' probe' hget => ?_, fun tx₁ tx₂ p₁ p₂ hget₁ hget₂ hfor => ?_⟩
    (fun id' i' => le_rfl) (fun id' i' => ?_) (fun g hg => ?_) fun g' hg' => ?_
  · rcases hentry hget with ⟨-, rfl⟩ | ⟨hold, -⟩
    · subst hid htarget
      exact ⟨hi, hunsent.answered, hunsent.failed⟩
    · exact h.pending tx' probe' hold
  · rcases hentry hget₁ with ⟨rfl, rfl⟩ | ⟨hold₁, hother₁⟩
    · rcases hentry hget₂ with ⟨rfl, -⟩ | ⟨-, hother₂⟩
      · rfl
      · exact absurd (hid ▸ htarget ▸ hfor) hother₂
    · rcases hentry hget₂ with ⟨-, rfl⟩ | ⟨hold₂, -⟩
      · exact absurd ⟨hfor.1.symm.trans hid, hfor.2.symm.trans htarget⟩ hother₁
      · exact h.unique tx₁ tx₂ p₁ p₂ hold₁ hold₂ hfor
  · rw [weight_call]
    simp [NetcheckFrame.completes]
  · -- the other frames are at other targets
    have hother (id' i' : Nat) (hlaunches : g.launches id' i' = 1) {tx' : TxID}
        {probe' : PendingProbe} (hget : (s.stunPending.insert tx probe).get tx' = some probe')
        (hfor : probe'.IsFor id' i') : s.stunPending.get tx' = some probe' := by
      rcases hentry hget with ⟨-, rfl⟩ | ⟨hold, -⟩
      · obtain ⟨rfl, rfl⟩ := hfor
        rw [hid, htarget, halone g hg] at hlaunches
        cases hlaunches
      · exact hold
    exact (h.holds g (mem_cons_of_mem hg)).transfer (fun _ _ => ⟨rfl, fun h => h⟩)
      (fun id' i' hlaunches hold => ⟨hold.answered, hold.failed, fun tx' probe' hget hfor =>
        hold.pending tx' probe' (hother id' i' hlaunches hget hfor) hfor⟩)
      fun id' i' hlaunches => ⟨fun h => h, fun tx' probe' => hother id' i' hlaunches⟩
  · rw [hnew g' hg']
    refine ⟨hi, hunsent.failed, fun tx' probe' hget hfor => ?_⟩
    rcases hentry hget with ⟨htx, -⟩ | ⟨-, hother⟩
    · exact htx
    · exact absurd hfor hother

/-! ## Resolving -/

/-- The target is answered, or given up. -/
structure DerpCheckRound.Resolves (r r' : DerpCheckRound) (i : Nat) : Prop where
  stunTargets : r'.stunTargets = r.stunTargets
  counted : r'.counted = r.counted
  remaining : r'.remaining = r.remaining
  signalled : r'.signalled = r.signalled
  answered : ∀ j ≠ i, j ∈ r'.answered ↔ j ∈ r.answered
  failed : ∀ j ≠ i, j ∈ r'.failed ↔ j ∈ r.failed
  resolved : i ∈ r'.answered ∪ r'.failed

/-- A target of a round is resolved, and its probe forgotten. -/
structure Netcheck.Resolves (s s' : Netcheck) (id i : Nat) : Prop where
  round : (s.rounds id).Resolves (s'.rounds id) i
  rounds : ∀ id' ≠ id, s'.rounds id' = s.rounds id'
  pending : ∀ tx probe, s'.stunPending.get tx = some probe →
    s.stunPending.get tx = some probe ∧ ¬ probe.IsFor id i

theorem DerpCheckRound.Resolves.resolved_eq {r' : DerpCheckRound} (h : r.Resolves r' i) {j : Nat}
    (hj : j ≠ i) : r'.resolved j = r.resolved j := by
  rw [Bool.eq_iff_iff, resolved_iff, resolved_iff, h.answered j hj, h.failed j hj]

theorem DerpCheckRound.Resolves.settled {r' : DerpCheckRound} (h : r.Resolves r' i)
    (hsettled : r.Settled) : r'.Settled := by
  intro j hj
  rw [h.stunTargets] at hj
  by_cases hji : j = i
  · rw [hji]
    exact h.resolved
  · rw [Finset.mem_union, h.answered j hji, h.failed j hji, ← Finset.mem_union]
    exact hsettled hj

theorem DerpCheckRound.Resolves.countsDown {r' : DerpCheckRound} (h : r.Resolves r' i)
    (hr : r.CountsDown) : r'.CountsDown where
  counted := by
    rw [h.counted, h.stunTargets]
    exact hr.counted
  remaining := by
    rw [h.remaining, h.counted, h.stunTargets]
    exact hr.remaining
  signalled hs := h.settled (hr.signalled (h.signalled ▸ hs))

/-- A target could not be sent to. -/
theorem DerpCheckRound.Resolves.fail (r : DerpCheckRound) (i : Nat) :
    r.Resolves { r with failed := insert i r.failed } i :=
  ⟨rfl, rfl, rfl, rfl, fun _ _ => Iff.rfl, fun _ hj => Finset.mem_insert.trans (or_iff_right hj),
    Finset.mem_union_right _ (Finset.mem_insert_self i _)⟩

/-- A target was answered. -/
theorem DerpCheckRound.Resolves.answer (r : DerpCheckRound) (i : Nat) :
    r.Resolves { r with answered := insert i r.answered } i :=
  ⟨rfl, rfl, rfl, rfl, fun _ hj => Finset.mem_insert.trans (or_iff_right hj), fun _ _ => Iff.rfl,
    Finset.mem_union_left _ (Finset.mem_insert_self i _)⟩

namespace Netcheck.Resolves

theorem setRound {pending : FinMap TxID PendingProbe} (hr : (s.rounds id).Resolves r i)
    (hpending : ∀ tx probe, pending.get tx = some probe →
      s.stunPending.get tx = some probe ∧ ¬ probe.IsFor id i) :
    s.Resolves ({ s with stunPending := pending }.setRound id r) id i := by
  refine ⟨?_, fun id' hid => rounds_setRound_ne hid, hpending⟩
  rw [rounds_setRound_self]
  exact hr

theorem probesOk (h : s.Resolves s' id i) (hok : ProbesOk s) : ProbesOk s' where
  rounds id' := by
    by_cases hid : id' = id
    · rw [hid]
      exact h.round.countsDown (hok.rounds id)
    · rw [h.rounds id' hid]
      exact hok.rounds id'
  pending tx probe hprobe := by
    obtain ⟨hold, hother⟩ := h.pending tx probe hprobe
    obtain ⟨htarget, hanswered, hfailed⟩ := hok.pending tx probe hold
    by_cases hid : probe.checkID = id
    · have hne : probe.target ≠ i := fun heq => hother ⟨hid, heq⟩
      rw [hid] at htarget hanswered hfailed ⊢
      exact ⟨h.round.stunTargets ▸ htarget,
        fun hmem => hanswered ((h.round.answered _ hne).mp hmem),
        fun hmem => hfailed ((h.round.failed _ hne).mp hmem)⟩
    · rw [h.rounds _ hid]
      exact ⟨htarget, hanswered, hfailed⟩
  unique tx tx' probe probe' hget hget' :=
    hok.unique tx tx' probe probe' (h.pending tx probe hget).1 (h.pending tx' probe' hget').1

/-- What the frames at other targets know stays true. -/
theorem holds (h : s.Resolves s' id i) (hg : g.Holds s)
    (hother : g.launches id i = 1 → ¬ s.Unsent id i ∧ i ∉ (s'.rounds id).failed) : g.Holds s' := by
  refine hg.transfer (fun id' _ => ?_) (fun id' i' hlaunches hunsent => ?_)
    fun id' i' hlaunches => ⟨fun hmem => ?_, fun tx probe hprobe _ => (h.pending tx probe hprobe).1⟩
  · by_cases hid : id' = id
    · rw [hid]
      exact ⟨h.round.stunTargets, h.round.settled⟩
    · rw [h.rounds id' hid]
      exact ⟨rfl, fun h => h⟩
  · have hpending (tx : TxID) (probe : PendingProbe) (hprobe : s'.stunPending.get tx = some probe) :
        ¬ probe.IsFor id' i' := hunsent.pending tx probe (h.pending tx probe hprobe).1
    by_cases hid : id' = id
    · subst hid
      have hne : i' ≠ i := by
        rintro rfl
        exact (hother hlaunches).1 hunsent
      exact ⟨fun hmem => hunsent.answered ((h.round.answered i' hne).mp hmem),
        fun hmem => hunsent.failed ((h.round.failed i' hne).mp hmem), hpending⟩
    · refine ⟨?_, ?_, hpending⟩
      all_goals rw [h.rounds id' hid]
      exacts [hunsent.answered, hunsent.failed]
  · by_cases hid : id' = id
    · subst hid
      have hne : i' ≠ i := by
        rintro rfl
        exact (hother hlaunches).2 hmem
      exact (h.round.failed i' hne).mp hmem
    · rwa [h.rounds id' hid] at hmem

end Netcheck.Resolves

/-- A target is resolved, and will be counted. -/
theorem ProbesSound.resolve (h : ProbesSound s (f ::ₘ R)) (calls : List NetcheckFrame)
    (hresolves : s.Resolves o.state id i) (hi : i ∈ (s.rounds id).stunTargets)
    (hunresolved : (s.rounds id).resolved i = false) (hcalls : ∀ g ∈ calls, g.probes = false)
    (hother : ∀ g ∈ R, g.launches id i = 1 → ¬ s.Unsent id i ∧ i ∉ (o.state.rounds id).failed)
    (hocalls : o.calls = calls ++ [.completeSTUNProbe id i]) (hospawned : o.spawned = []) :
    ProbesSound o.state (o.frames + R) := by
  have hnew : ∀ g ∈ o.frames, g.probes = false ∨ g = .completeSTUNProbe id i := by
    intro g hg
    have hg : g ∈ calls ∨ g = .completeSTUNProbe id i := by
      simpa [Outcome.frames, hocalls, hospawned] using hg
    exact hg.imp_left (hcalls g)
  have hcompletes (id' i' : Nat) : Outcome.weight (NetcheckFrame.completes id' i') o =
      if id = id' ∧ i = i' then 1 else 0 := by
    have hzero : (calls.map (NetcheckFrame.completes id' i')).sum = 0 := by
      refine List.sum_eq_zero fun n hn => ?_
      obtain ⟨g, hg, rfl⟩ := List.mem_map.mp hn
      exact (g.not_probes (s := s) (hcalls g hg)).2.1 id' i'
    simp [Outcome.weight, hocalls, hospawned, hzero, NetcheckFrame.completes]
  refine h.step (hresolves.probesOk h.toProbesOk) (fun id' i' => ?_) (fun id' i' => ?_)
    (fun g hg => hresolves.holds (h.holds g (mem_cons_of_mem hg)) (hother g hg))
    fun g hg => ?_
  · rw [weight_eq_zero fun g hg => ?_]
    · exact Nat.zero_le _
    · rcases hnew g hg with hplain | rfl
      · exact (g.not_probes (s := s) hplain).1 id' i'
      · rfl
  · rw [hcompletes]
    by_cases hid : id' = id
    · subst hid
      rw [hresolves.round.counted]
      by_cases hi' : i' = i
      · subst hi'
        rw [hunresolved, resolved_iff.mpr (Finset.mem_union.mp hresolves.round.resolved),
          if_pos ⟨rfl, rfl⟩]
        simp only [Bool.toNat_false, Bool.toNat_true]
        omega
      · rw [hresolves.round.resolved_eq hi', if_neg fun heq => hi' heq.2.symm]
        omega
    · rw [hresolves.rounds id' hid, if_neg fun heq => hid heq.1.symm]
      omega
  · rcases hnew g hg with hplain | rfl
    · exact (g.not_probes hplain).2.2
    · show i ∈ (o.state.rounds id).stunTargets
      rw [hresolves.round.stunTargets]
      exact hi

/-! ## Counting -/

/-- Where the probes of a round have got. -/
def DerpCheckRound.sent (r : DerpCheckRound) := (r.stunTargets, r.answered, r.failed)

/-- A round is changed, but not where its probes have got. -/
theorem ProbesSound.setRound (h : ProbesSound s (f ::ₘ R)) (hstate : o.state = s.setRound id r)
    (hsent : r.sent = (s.rounds id).sent) (hr : r.CountsDown)
    (hcounted : ∀ j, (decide (j ∈ r.counted)).toNat ≤
      f.completes id j + (decide (j ∈ (s.rounds id).counted)).toNat)
    (hnew : ∀ g ∈ o.frames, (∀ id i, g.launches id i = 0) ∧ (∀ id i, g.completes id i = 0) ∧
      g.Holds o.state) : ProbesSound o.state (o.frames + R) := by
  have hround (id' : Nat) : ((s.setRound id r).rounds id').sent = (s.rounds id').sent :=
    view_setRound _ hsent id'
  simp only [DerpCheckRound.sent, Prod.mk.injEq] at hround
  refine h.step (hstate ▸ ⟨fun id' => ?_, fun tx probe hprobe => ?_, h.unique⟩)
    (fun id' i' => ?_) (fun id' i' => ?_) (fun g hg => ?_) fun g hg => (hnew g hg).2.2
  · by_cases hid : id' = id
    · rw [hid, rounds_setRound_self]
      exact hr
    · rw [rounds_setRound_ne hid]
      exact h.rounds id'
  · obtain ⟨htarget, hanswered, hfailed⟩ := h.pending tx probe hprobe
    obtain ⟨htargets', hanswered', hfailed'⟩ := hround probe.checkID
    exact ⟨htargets' ▸ htarget, hanswered' ▸ hanswered, hfailed' ▸ hfailed⟩
  · rw [weight_eq_zero fun g hg => (hnew g hg).1 id' i']
    exact Nat.zero_le _
  · obtain ⟨-, hanswered, hfailed⟩ := hround id'
    rw [weight_eq_zero fun g hg => (hnew g hg).2.1 id' i', hstate,
      DerpCheckRound.resolved, DerpCheckRound.resolved, hanswered, hfailed]
    by_cases hid : id' = id
    · subst hid
      have hle := hcounted i'
      rw [rounds_setRound_self]
      omega
    · rw [rounds_setRound_ne hid]
      omega
  · rw [hstate]
    refine (h.holds g (mem_cons_of_mem hg)).transfer (fun id' _ => ?_)
      (fun id' i' _ hunsent => ?_) fun id' i' _ => ?_
    · obtain ⟨htargets, hanswered, hfailed⟩ := hround id'
      rw [DerpCheckRound.Settled, DerpCheckRound.Settled, htargets, hanswered, hfailed]
      exact ⟨rfl, fun h => h⟩
    · obtain ⟨-, hanswered, hfailed⟩ := hround id'
      exact ⟨hanswered ▸ hunsent.answered, hfailed ▸ hunsent.failed, hunsent.pending⟩
    · rw [(hround id').2.2]
      exact ⟨fun h => h, fun _ _ h _ => h⟩

/-- A round is told that its probes are done. -/
theorem ProbesSound.signal {calls : List NetcheckFrame} {spawned : List (List NetcheckFrame)}
    (h : ProbesSound s (f ::ₘ R)) (hsettled : (s.rounds id).Settled)
    (hr : r = { s.rounds id with stunDone := true, signalled := true })
    (ho : o = { state := s.setRound id r, calls, spawned })
    (hnew : ∀ g ∈ o.frames, g.probes = false) : ProbesSound o.state (o.frames + R) := by
  refine h.setRound (r := r) (by rw [ho]) (by rw [hr]; rfl) ?_ (fun j => ?_)
    fun g hg => g.not_probes (hnew g hg)
  · obtain ⟨hcounted, hremaining, -⟩ := h.rounds id
    rw [hr]
    exact ⟨hcounted, hremaining, fun _ => hsettled⟩
  · rw [hr]
    exact Nat.le_add_left _ _

/-- A target is counted. -/
theorem ProbesSound.count (h : ProbesSound s (.completeSTUNProbe id i ::ₘ R))
    (hr : r = { s.rounds id with
      remaining := (s.rounds id).remaining - 1, counted := insert i (s.rounds id).counted })
    (ho : o = { state := s.setRound id r
                calls := if r.remaining = 0 then [.signalSTUN id] else [] }) :
    ProbesSound o.state (o.frames + R) := by
  have hi : i ∈ (s.rounds id).stunTargets := h.holds _ (mem_cons_self _ _)
  -- the frame that counts the target shows that it was not counted before
  have hcredit := h.completed id i
  rw [weightOf_cons, NetcheckFrame.completes, if_pos ⟨rfl, rfl⟩] at hcredit
  have huncounted : i ∉ (s.rounds id).counted := by
    intro hmem
    rw [decide_eq_true hmem, Bool.toNat_true] at hcredit
    have := Bool.toNat_le ((s.rounds id).resolved i)
    omega
  have hresolved : (s.rounds id).resolved i = true := by
    by_contra hnot
    rw [Bool.eq_false_iff.mpr hnot, Bool.toNat_false] at hcredit
    omega
  obtain ⟨hcounted, hremaining, hsignalled⟩ := h.rounds id
  have hr' : r.CountsDown := by
    rw [hr]
    refine ⟨Finset.insert_subset hi hcounted, ?_, hsignalled⟩
    rw [Finset.card_insert_of_notMem huncounted]
    show (s.rounds id).remaining - 1 + _ = ((s.rounds id).stunTargets.card : Int)
    push_cast
    omega
  refine h.setRound (r := r) (by rw [ho]) (by rw [hr]; rfl) hr' (fun j => ?_) fun g hg => ?_
  · rw [hr]
    by_cases hj : j = i
    · subst hj
      simp [NetcheckFrame.completes, huncounted]
    · simp [Finset.mem_insert, hj]
  · rw [ho] at hg ⊢
    by_cases hzero : r.remaining = 0
    · obtain rfl : g = .signalSTUN id := by simpa [Outcome.frames, hzero] using hg
      refine ⟨fun _ _ => rfl, fun _ _ => rfl, ?_⟩
      show ((s.setRound id r).rounds id).Settled
      rw [rounds_setRound_self]
      refine settled_of_remaining hr'.counted hr'.remaining hzero ?_
      rw [hr]
      exact Finset.insert_subset (Finset.mem_union.mpr (resolved_iff.mp hresolved))
        fun j hj => h.resolved hj
    · simp [Outcome.frames, hzero] at hg

/-! ## Starting -/

/-- As many targets are probed as have a node. -/
theorem length_probedTargets (node : DerpProbeTarget → Option DERPNode)
    (targets : List DerpProbeTarget) :
    (probedTargets node targets).length = targets.countP fun target => (node target).isSome := by
  unfold probedTargets
  rw [← List.countP_eq_length_filter]
  induction targets with
  | nil => rfl
  | cons target targets ih =>
    rw [List.length_cons, List.range_succ_eq_map, List.countP_cons, List.countP_map,
      List.countP_cons]
    exact congrArg (· + _) ih

theorem nodup_probedTargets (node : DerpProbeTarget → Option DERPNode)
    (targets : List DerpProbeTarget) : (probedTargets node targets).Nodup :=
  List.nodup_range.filter _

theorem mem_probedTargets (h : r.usesSTUN = true) :
    i ∈ probedTargets (·.stun) r.targets ↔ i ∈ r.stunTargets := by
  simp [probedTargets, DerpCheckRound.stunTargets, h]

theorem stunTargets_eq_empty (h : ¬ r.usesSTUN = true) : r.stunTargets = ∅ := by
  simp [DerpCheckRound.stunTargets, h]

theorem card_stunTargets :
    r.stunTargets.card = if r.usesSTUN then r.targets.countP (·.stun.isSome) else 0 := by
  by_cases h : r.usesSTUN = true
  · have hlist : r.stunTargets = (probedTargets (·.stun) r.targets).toFinset := by
      ext i
      rw [List.mem_toFinset, mem_probedTargets h]
    rw [if_pos h, hlist, List.toFinset_card_of_nodup (nodup_probedTargets _ _),
      length_probedTargets]
  · rw [if_neg h, stunTargets_eq_empty h, Finset.card_empty]

/-- A round that has to wait for probes sends them. -/
theorem DerpCheckRound.CountsDown.usesSTUN (h : r.CountsDown) (hremaining : r.remaining ≠ 0) :
    r.usesSTUN = true := by
  by_contra hnot
  obtain ⟨hcounted, hcard, -⟩ := h
  rw [stunTargets_eq_empty hnot] at hcounted hcard
  rw [Finset.subset_empty.mp hcounted, Finset.card_empty] at hcard
  exact hremaining (by simpa using hcard)

/-- The threads of a round send to each target as often as it is listed. -/
theorem sum_launches (ctx id' i' : Nat) (is : List Nat) :
    (((is.map fun i => [NetcheckFrame.querySTUN ctx id i]).flatten).map
      (NetcheckFrame.launches id' i')).sum = if id = id' then is.count i' else 0 := by
  induction is with
  | nil => simp
  | cons i is ih =>
    rw [List.map_cons, List.flatten_cons, List.map_append, List.sum_append, ih, List.count_cons]
    by_cases hid : id = id'
    · simp [NetcheckFrame.launches, hid, Nat.add_comm]
    · simp [NetcheckFrame.launches, hid]

/-- `kickDiscovery` starts the probes of its round. -/
theorem ProbesSound.start {ctx : Nat} (h : ProbesSound s (.startRound ctx id ::ₘ R))
    (hremaining : (s.rounds id).remaining ≠ 0)
    (ho : o = { state := s
                spawned := ((probedTargets (·.stun) (s.rounds id).targets).map fun i =>
                  [.querySTUN ctx id i]) ++ [[.finishDERPCheck ctx id]] }) :
    ProbesSound o.state (o.frames + R) := by
  have huses := (h.rounds id).usesSTUN hremaining
  have hunsent : ∀ i, s.Unsent id i := h.holds _ (mem_cons_self _ _)
  have hnew : ∀ g ∈ o.frames, (∃ i ∈ (s.rounds id).stunTargets, g = .querySTUN ctx id i) ∨
      g = .finishDERPCheck ctx id := by
    rw [ho]
    intro g hg
    refine (mem_startProbes hg).imp_left ?_
    rintro ⟨i, hi, rfl⟩
    exact ⟨i, (mem_probedTargets huses).mp hi, rfl⟩
  have hcompletes (id' i' : Nat) :
      Outcome.weight (NetcheckFrame.completes id' i') o = 0 := by
    refine weight_eq_zero fun g hg => ?_
    rcases hnew g hg with ⟨i, -, rfl⟩ | rfl
    · rfl
    · rfl
  have hlaunches (id' i' : Nat) : Outcome.weight (NetcheckFrame.launches id' i') o =
      if id = id' then (probedTargets (·.stun) (s.rounds id).targets).count i' else 0 := by
    rw [ho]
    simp only [Outcome.weight, List.flatten_append, List.map_append, List.sum_append,
      sum_launches]
    simp [NetcheckFrame.launches]
  have hstate : o.state = s := by rw [ho]
  refine h.step (hstate ▸ h.toProbesOk) (fun id' i' => ?_) (fun id' i' => ?_) (fun g hg => ?_)
    fun g hg => ?_
  · rw [hlaunches, NetcheckFrame.launches]
    split
    · exact List.nodup_iff_count_le_one.mp (nodup_probedTargets _ _) i'
    · exact le_rfl
  · rw [hcompletes, hstate]
    omega
  · rw [hstate]
    exact h.holds g (mem_cons_of_mem hg)
  · rw [hstate]
    rcases hnew g hg with ⟨i, hi, rfl⟩ | rfl
    · exact ⟨hi, hunsent i⟩
    · trivial

theorem NetcheckFrame.round_of_launches (h : g.launches id i ≠ 0) : g.round = some id := by
  cases g with
  | startRound ctx id' => exact congrArg some (ite_ne_right_iff.mp h).1
  | querySTUN ctx id' i' | writeSTUN id' i' tx addresses =>
    exact congrArg some (ite_ne_right_iff.mp h).1.1
  | _ => exact absurd rfl h

theorem NetcheckFrame.round_of_completes (h : g.completes id i ≠ 0) : g.round = some id := by
  cases g with
  | completeSTUNProbe id' i' => exact congrArg some (ite_ne_right_iff.mp h).1.1
  | _ => exact absurd rfl h

/-- A new round has sent nothing. -/
theorem countsDown_newRound (now : Time) (targets : List DerpProbeTarget) (full : Bool) :
    ((s.newRound now targets full).rounds (s.derpCheckID + 1)).CountsDown ∧
      ((s.newRound now targets full).rounds (s.derpCheckID + 1)).answered = ∅ ∧
      ((s.newRound now targets full).rounds (s.derpCheckID + 1)).failed = ∅ ∧
      ((s.newRound now targets full).rounds (s.derpCheckID + 1)).counted = ∅ := by
  have hround : (s.newRound now targets full).rounds (s.derpCheckID + 1) =
      { full, targets, usesSTUN := !s.cfg.disableDiscovery && s.conn
        remaining := if !s.cfg.disableDiscovery && s.conn then targets.countP (·.stun.isSome)
          else 0 } := rounds_setRound_self
  rw [hround]
  refine ⟨⟨Finset.empty_subset _, ?_, nofun⟩, rfl, rfl, rfl⟩
  rw [card_stunTargets, Finset.card_empty]
  split
  · simp
  · simp

/-- `kickDiscovery` starts a round. -/
theorem ProbesSound.newRound {ctx : Nat} {now : Time} {targets : List DerpProbeTarget} {full : Bool}
    (h : ProbesSound s (f ::ₘ R)) (hrounds : RoundsSound s (f ::ₘ R))
    (ho : o = { state := s.newRound now targets full
                calls := [.startRound ctx (s.derpCheckID + 1)] }) :
    ProbesSound o.state (o.frames + R) := by
  obtain ⟨hnew, hanswered, hfailed, hcounted⟩ := countsDown_newRound (s := s) now targets full
  have hold {id : Nat} (hid : id ≠ s.derpCheckID + 1) :
      (s.newRound now targets full).rounds id = s.rounds id := rounds_setRound_ne hid
  -- frames and entries are about rounds that were started before
  have hframe {g : NetcheckFrame} (hg : g ∈ R) {id : Nat} (hid : g.round = some id) :
      id ≠ s.derpCheckID + 1 :=
    Nat.ne_of_lt (Nat.lt_succ_of_le (hrounds.known g (mem_cons_of_mem hg) id hid).1)
  have hentry {tx : TxID} {probe : PendingProbe} (hprobe : s.stunPending.get tx = some probe) :
      probe.checkID ≠ s.derpCheckID + 1 :=
    Nat.ne_of_lt (Nat.lt_succ_of_le (hrounds.pending tx probe hprobe).1)
  have hlaunches (i : Nat) :
      weightOf (NetcheckFrame.launches (s.derpCheckID + 1) i) R = 0 := by
    refine weightOf_eq_zero fun g hg => ?_
    by_contra hne
    exact hframe hg (NetcheckFrame.round_of_launches hne) rfl
  have hcompletes (i : Nat) :
      weightOf (NetcheckFrame.completes (s.derpCheckID + 1) i) R = 0 := by
    refine weightOf_eq_zero fun g hg => ?_
    by_contra hne
    exact hframe hg (NetcheckFrame.round_of_completes hne) rfl
  have hframes : o.frames + R = .startRound ctx (s.derpCheckID + 1) ::ₘ R := by
    rw [ho, Outcome.frames_call]
  rw [hframes]
  subst ho
  refine ⟨⟨fun id => ?_, fun tx probe hprobe => ?_, h.unique⟩, fun id i => ?_, fun id i => ?_,
    fun g hg => ?_⟩
  · by_cases hid : id = s.derpCheckID + 1
    · rw [hid]
      exact hnew
    · rw [hold hid]
      exact h.rounds id
  · rw [hold (hentry hprobe)]
    exact h.pending tx probe hprobe
  · have hle := h.launched id i
    rw [weightOf_cons] at hle ⊢
    by_cases hid : id = s.derpCheckID + 1
    · subst hid
      rw [hlaunches, NetcheckFrame.launches, if_pos rfl]
    · rw [NetcheckFrame.launches, if_neg (Ne.symm hid)]
      omega
  · have hle := h.completed id i
    rw [weightOf_cons] at hle ⊢
    by_cases hid : id = s.derpCheckID + 1
    · subst hid
      rw [hcompletes, hcounted]
      exact Nat.zero_le _
    · have hzero : (NetcheckFrame.startRound ctx (s.derpCheckID + 1)).completes id i = 0 := rfl
      rw [hold hid, hzero]
      omega
  · rcases mem_cons.mp hg with rfl | hg
    · intro i
      refine ⟨?_, ?_, fun tx probe hprobe hfor => hentry hprobe hfor.1⟩
      · rw [hanswered]
        exact Finset.notMem_empty i
      · rw [hfailed]
        exact Finset.notMem_empty i
    · refine (h.holds g (mem_cons_of_mem hg)).transfer (fun id hid => ?_)
        (fun id i hlaunches hunsent => ?_) fun id i hlaunches => ?_
      · rw [hold (hframe hg hid)]
        exact ⟨rfl, fun h => h⟩
      · have hid := hframe hg (NetcheckFrame.round_of_launches
          (hlaunches.trans_ne Nat.one_ne_zero))
        refine ⟨?_, ?_, hunsent.pending⟩
        · rw [hold hid]
          exact hunsent.answered
        · rw [hold hid]
          exact hunsent.failed
      · have hid := hframe hg (NetcheckFrame.round_of_launches
          (hlaunches.trans_ne Nat.one_ne_zero))
        rw [hold hid]
        exact ⟨fun h => h, fun _ _ h _ => h⟩

end

/-! ## Runs -/

/-- No target is answered whose requests could not be sent. -/
def unansweredFailures :
    Policy Netcheck NetcheckFrame NetcheckChoice (Option DERPMap × Int) where
  run s f _ _ := match f with
    | .writeSTUN id i _ [] => i ∉ (s.rounds id).answered
    | _ => True

theorem keeps_probesSound : netcheck.Keeps unansweredFailures fun s F =>
    RoundsSound s F ∧ ProbesSound s F := by
  refine (keeps_roundsSound.mono (fun _ _ _ _ _ => trivial) (fun _ _ _ => trivial)
    fun _ _ _ => trivial).and ⟨fun s f R ch o h hp ho => ?_, fun s F f h _ hf => ?_,
    fun s s' F e h _ he => ?_⟩
  · obtain ⟨hunanswered, hrounds⟩ := hp
    have hf := h.holds f (mem_cons_self _ _)
    cases netcheckStep_move ho with
    | rest _ hsame hnew => exact h.rest (.of_sameProbes hsame) fun g hg => (hnew g hg).probes
    | newRound hsame now targets full =>
      exact (h.same (.of_sameProbes hsame)).newRound (hrounds.same hsame.sameRounds) rfl
    | startEmpty ctx id hremaining =>
      obtain ⟨hcounted, hcard, -⟩ := h.rounds id
      exact h.signal (settled_of_remaining hcounted hcard hremaining fun _ => h.resolved) rfl rfl
        (by simp [Outcome.frames, NetcheckFrame.probes])
    | startProbes ctx id hremaining => exact h.start hremaining rfl
    | queryFailed ctx id i =>
      obtain ⟨hi, hunsent⟩ := hf
      have halone := h.alone id i (if_pos ⟨rfl, rfl⟩)
      exact h.resolve []
        (.setRound (.fail _ i) fun tx probe hprobe => ⟨hprobe, hunsent.pending tx probe hprobe⟩)
        hi (unresolved hunsent.answered hunsent.failed) (by simp)
        (fun g hg hlaunches => absurd (halone g hg) (hlaunches.trans_ne Nat.one_ne_zero)) rfl rfl
    | querySent ctx id i tx addresses hid htarget => exact h.sent hid htarget rfl
    | written | uncounted => exact h.rest (.refl s) (by simp [Outcome.frames])
    | writeNext id i tx address addresses => exact h.goto rfl (fun _ _ => rfl) (fun _ _ => rfl) hf
    | writeFailed id i tx =>
      obtain ⟨hi, hfailed, hpending⟩ := hf
      have halone := h.alone id i (if_pos ⟨rfl, rfl⟩)
      refine h.resolve []
        (.setRound (.fail _ i) fun tx' probe hprobe => ?_) hi
        (unresolved hunanswered hfailed) (by simp)
        (fun g hg hlaunches => absurd (halone g hg) (hlaunches.trans_ne Nat.one_ne_zero)) rfl rfl
      obtain ⟨hne, hold⟩ := get_erase_eq_some hprobe
      exact ⟨hold, fun hfor => hne (hpending tx' probe hold hfor)⟩
    | counted id i _ hr => exact h.count hr rfl
    | signal id => exact h.signal hf rfl rfl (by simp [Outcome.frames])
    | @answered tx mapped probe hprobe calls hcalls =>
      obtain ⟨hi, hanswered, hfailed⟩ := h.pending tx probe hprobe
      refine h.resolve calls (.setRound (.answer _ _) fun tx' probe' hprobe' => ?_) hi
        (unresolved hanswered hfailed) (fun g hg => ?_) (fun g _ _ => ⟨fun hunsent => ?_, ?_⟩) rfl
        rfl
      · obtain ⟨hne, hold⟩ := get_erase_eq_some hprobe'
        exact ⟨hold, fun hfor => hne (h.unique tx tx' probe probe' hprobe hold hfor)⟩
      · rcases hcalls with rfl | ⟨latency, rfl⟩
        · cases hg
        · rw [List.mem_singleton.mp hg]
          rfl
      · exact hunsent.pending tx probe hprobe ⟨rfl, rfl⟩
      · dsimp only [Netcheck.answer]
        rw [rounds_setRound_self]
        exact hfailed
    | measured id i hregion latency =>
      exact h.rest (.refl s) (by simp [Outcome.frames, NetcheckFrame.probes])
    | sample | report =>
      exact h.rest ⟨fun _ => ⟨_, _, _, rfl⟩, fun _ _ h => h⟩ (by simp [Outcome.frames])
    | record id metric source hcurrent hpos =>
      refine h.rest ?_ (by simp [Outcome.frames])
      rw [recordLatency_eq]
      refine ⟨fun id' => ?_, fun _ _ h => h⟩
      by_cases hid : id' = id
      · rw [hid, rounds_setRound_self]
        exact ⟨_, _, _, rfl⟩
      · rw [rounds_setRound_ne hid]
        exact ⟨_, _, _, rfl⟩
    | drop isOpen conn ctx last lastFull =>
      exact h.rest ⟨fun _ => ⟨_, _, _, rfl⟩, fun _ _ hprobe => by cases hprobe⟩
        (by simp [Outcome.frames, NetcheckFrame.probes])
  · refine h.enter ?_
    cases f <;> first | rfl | cases hf
  · cases he
    exact h.same ⟨fun _ => ⟨_, _, _, rfl⟩, fun _ _ h => h⟩

/-- The rounds of the netcheck, in every state of every interleaving of `kickDiscovery`, the probes,
the replies, the timeouts and `Open` and `Close`: a round has at most one report, and none if it was
superseded; a report lists regions of its round in ascending order, each with the least latency that
was recorded for it under the id of the round; `remaining` is never negative. If moreover no target
is answered whose requests could not be sent, a round is told that its probes are done only when
each target to which it sends was answered or could not be sent to. -/
theorem netcheck_rounds (cfg : BindConfig)
    (acts : List (Act NetcheckFrame NetcheckChoice (Option DERPMap × Int))) :
    netcheck.system.Visits (fun c => RoundsApart c.shared) { shared := { cfg } } acts ∧
      (netcheck.system.Meets unansweredFailures.Admits { shared := { cfg } } acts →
        netcheck.system.Visits
          (fun c => ∀ id, (c.shared.rounds id).signalled → (c.shared.rounds id).Settled)
          { shared := { cfg } } acts) := by
  have hrounds : RoundsSound { cfg } 0 :=
    { once := List.nodup_nil
      superseded := nofun
      good := nofun
      remaining := fun _ => le_rfl
      current := nofun
      supersededStarted := nofun
      reportedStarted := nofun
      sampledStarted := nofun
      pending := nofun
      known := nofun }
  have hprobes : ProbesSound { cfg } 0 :=
    { rounds := fun _ => ⟨Finset.empty_subset _, rfl, nofun⟩
      pending := nofun
      unique := nofun
      launched := fun _ _ => Nat.zero_le 1
      completed := fun _ _ => Nat.zero_le _
      holds := nofun }
  exact ⟨keeps_roundsSound.visits (fun _ h => h.toRoundsApart) hrounds acts, fun hmeets =>
    keeps_probesSound.visits_of_meets (fun _ h id => (h.2.rounds id).signalled) ⟨hrounds, hprobes⟩
      hmeets⟩

instance (s : Netcheck) (f : NetcheckFrame) (R : Multiset NetcheckFrame) (ch : NetcheckChoice) :
    Decidable (unansweredFailures.run s f R ch) := by
  unfold unansweredFailures
  dsimp only
  split <;> infer_instance

instance (s : Netcheck) (f : NetcheckFrame) : Decidable (unansweredFailures.start s f) :=
  .isTrue trivial

instance (s : Netcheck) (e : Option DERPMap × Int) : Decidable (unansweredFailures.env s e) :=
  .isTrue trivial

/-- A round for two regions, of which one answers and the other cannot be sent to. -/
def answerOneProbe : List (Act NetcheckFrame NetcheckChoice (Option DERPMap × Int)) :=
  let sent : NetcheckChoice := { now := 100 * second, order := [1, 2], resolved := [.v4 1] }
  let regions := FinMap.ofList ([1, 2].map fun id =>
    (id, some { regionID := id, nodes := some [some { hostName := "derp" }] : DERPRegion }))
  [.env (some { regions := some regions }, 1), .start .openBind, .run 0 {}, .run 0 sent, .run 0 {},
    .run 1 { sent with tx := 1 }, .run 1 {}, .run 2 { sent with tx := 2 }, .run 2 { ok := false },
    .run 2 {}, .run 2 {}, .start (.handleSTUN 1 ⟨.v4 2, 5⟩), .run 4 { now := 101 * second },
    .run 4 {}, .run 4 {}, .run 4 {}]

theorem netcheck_rounds_signalled :
    ∃ c, netcheck.system.run { shared := { cfg := ⟨false, false⟩ } } answerOneProbe = some c ∧
      (c.shared.rounds 1).signalled ∧ (c.shared.rounds 1).Settled := by
  have hrun : (netcheck.system.run { shared := { cfg := ⟨false, false⟩ } } answerOneProbe).map
      (fun c => (c.shared.rounds 1).signalled) = some true := by decide +kernel
  obtain ⟨c, hc, hsignalled⟩ := Option.map_eq_some_iff.mp hrun
  have hsettled := (netcheck_rounds ⟨false, false⟩ answerOneProbe).2
    (System.meets_of_runIf (by decide +kernel))
  exact ⟨c, hc, hsignalled, hsettled.of_run hc 1 hsignalled⟩

end WgoTailscale
