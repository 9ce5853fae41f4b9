import WgoTailscale.Program
import WgoTailscale.SectionFacts

/-!
# Expiry and degradation

Two things degrade a running client, a node key that expired and a device that closed. They share
one state, one error text and one interaction, and every way back to running decides from a part of
them. `expiry_reduceMap` says what a map response makes of the self node, the interaction and the state.
From it follow the exact conditions under which an expired key stays announced
(`expired_notice_iff`) and under which a client that says it is running is not degraded
(`running_undegraded_iff`).
-/

namespace WgoTailscale

/-! ## What a response does -/

/-- The interaction says that the node key expired. -/
def Client.expiryNotice (c : Client) : Bool := c.interaction.any fun i => i.kind = .nodeKeyExpired

/-- Does a response ask to open a URL other than the last one? -/
def Client.opensURL (c : Client) (response : MapResponse) : Bool :=
  response.popBrowserURL ≠ "" ∧ response.popBrowserURL ≠ c.lastBrowserURL

/-- Does the interaction say that the node key expired, once a response is applied? -/
def Client.noticeAfter (c : Client) (response : MapResponse) (now : Time) : Bool :=
  let stays := c.expiryNotice && !c.opensURL response
  if c.expiresSelf response now then !c.selfExpired || stays else !c.selfExpired && stays

/-- The state once a response is applied. -/
def Client.stateAfter (c : Client) (response : MapResponse) (now : Time) : State :=
  if c.expiresSelf response now then .degraded
  else if c.state = .degraded ∧ c.noticeAfter response now = false then .running
  else c.state

section
variable (c : Client) (response : MapResponse) (now : Time)

theorem popBrowserURL_effective : response.effective.popBrowserURL = response.popBrowserURL := by
  unfold MapResponse.effective
  split <;> rfl

/-- Only a new URL replaces the interaction before the expiry of the self node. -/
theorem expiryNotice_reduceFacts : (reduceFacts c response.effective now).client.expiryNotice =
    (c.expiryNotice && !c.opensURL response) := by
  obtain ⟨r, hr⟩ : ∃ r, r = reduceControlTime response.effective now
      (reduceSession response.effective { client := c }) := ⟨_, rfl⟩
  have hsame : r.client.interaction = c.interaction ∧
      r.client.lastBrowserURL = c.lastBrowserURL := by
    obtain ⟨_, _, hsession⟩ := client_reduceSession response.effective { client := c }
    rw [hr, client_reduceControlTime, hsession]
    exact ⟨rfl, rfl⟩
  have hfacts : (reduceFacts c response.effective now).client.interaction =
      (reduceBrowserURL response.effective now r).client.interaction := by
    obtain ⟨_, _, _, _, _, _, _, hfacts⟩ := client_reduceFacts c response.effective now
    rw [hfacts, hr]
    show (reduceNode response.effective _).client.interaction = _
    rw [client_reduceNode]
  rw [Client.expiryNotice, hfacts]
  unfold reduceBrowserURL
  rw [popBrowserURL_effective, hsame.2]
  by_cases hopens : response.popBrowserURL ≠ "" ∧ response.popBrowserURL ≠ c.lastBrowserURL
  · simp [hopens, Client.opensURL, Reduction.emit]
  · simp [hopens, Client.opensURL, Client.expiryNotice, hsame.1]

/-- An expired self node degrades the client and is announced when it becomes so; one that is no
longer expired is no longer announced. -/
theorem reduceSelfExpiry_spec (selfWasExpired : Bool) (r : Reduction) :
    (reduceSelfExpiry selfWasExpired now r).client.state =
        (if r.client.selfExpired then .degraded else r.client.state) ∧
      (reduceSelfExpiry selfWasExpired now r).client.expiryNotice =
        (if r.client.selfExpired then !selfWasExpired || r.client.expiryNotice
          else !selfWasExpired && r.client.expiryNotice) := by
  unfold reduceSelfExpiry
  by_cases hexpired : r.client.selfExpired = true
  · simp only [if_pos hexpired]
    cases selfWasExpired
    all_goals
      simp only [Bool.false_eq_true, if_true, if_false]
      split
      · next h => exact ⟨h, rfl⟩
      · exact ⟨rfl, rfl⟩
  · simp only [if_neg hexpired]
    split
    · next h => exact ⟨rfl, by simp [h.1, Client.expiryNotice, Reduction.emit]⟩
    · next h =>
      refine ⟨rfl, ?_⟩
      cases selfWasExpired with
      | false => rfl
      | true => simpa [Client.expiryNotice] using h

theorem state_reduceRecovered (r : Reduction) : (reduceRecovered r).client.state =
    if r.client.state = .degraded ∧ r.client.selfExpired = false ∧ r.client.expiryNotice = false
    then .running else r.client.state := by
  have hall : (r.client.interaction.all fun i => decide (i.kind ≠ .nodeKeyExpired)) = true ↔
      r.client.expiryNotice = false := by
    unfold Client.expiryNotice
    cases r.client.interaction <;> simp
  unfold reduceRecovered
  simp only [hall]
  split <;> rfl

/-- What a response makes of the self node's expiry, of the interaction and of the state. -/
theorem expiry_reduceMap :
    (reduceMap c response.effective now).client.selfExpired = c.expiresSelf response now ∧
      (reduceMap c response.effective now).client.expiryNotice = c.noticeAfter response now ∧
      (reduceMap c response.effective now).client.state = c.stateAfter response now := by
  obtain ⟨hstate, hself, hexpiry⟩ := reduceFacts_spec c response now
  have hnotice := expiryNotice_reduceFacts c response now
  rw [reduceMap_eq]
  generalize reduceFacts c response.effective now = r at hstate hself hexpiry hnotice ⊢
  have hexpired : (reduceMarkSelf now r).client.selfExpired = c.expiresSelf response now := by
    rw [selfExpired_markSelf, hself, hexpiry]
    rfl
  have hstate := (state_markSelf now r).trans hstate
  have hnotice : (reduceMarkSelf now r).client.expiryNotice =
      (c.expiryNotice && !c.opensURL response) := by
    rw [← hnotice, client_reduceMarkSelf]
    rfl
  generalize reduceMarkSelf now r = r at hstate hexpired hnotice ⊢
  obtain ⟨hstate', hnotice'⟩ := reduceSelfExpiry_spec now c.selfExpired r
  have hself' := self_selfExpiry now c.selfExpired r
  generalize reduceSelfExpiry c.selfExpired now r = r' at hstate' hnotice' hself' ⊢
  have hpeers := client_reducePeerExpiry now r'
  have hstate'' : (reducePeerExpiry now r').client.state = r'.client.state := by rw [hpeers]
  have hself'' : (reducePeerExpiry now r').client.self = r'.client.self := by rw [hpeers]
  have hnotice'' : (reducePeerExpiry now r').client.expiryNotice = r'.client.expiryNotice := by
    rw [hpeers]
    rfl
  generalize reducePeerExpiry now r' = r'' at hstate'' hself'' hnotice'' ⊢
  rw [hexpired, hstate] at hstate'
  rw [hexpired, hnotice] at hnotice'
  rw [hnotice'] at hnotice''
  rw [hstate'] at hstate''
  have hexpired'' : r''.client.selfExpired = c.expiresSelf response now := by
    simpa only [Client.selfExpired, hself'', hself'] using hexpired
  refine ⟨?_, ?_, ?_⟩
  · rw [← hexpired'']
    simp only [Client.selfExpired, self_recovered]
  · obtain ⟨_, _, hrecovered⟩ := client_reduceRecovered r''
    rw [Client.noticeAfter, ← hnotice'', hrecovered]
    rfl
  · rw [state_reduceRecovered, hexpired'', hstate'', hnotice'', Client.stateAfter,
      Client.noticeAfter]
    cases c.expiresSelf response now <;> simp

/-- The same, of the whole section. -/
theorem expiry_applyMapResponse :
    (c.applyMapResponse response now).client.selfExpired = c.expiresSelf response now ∧
      (c.applyMapResponse response now).client.expiryNotice = c.noticeAfter response now ∧
      (c.applyMapResponse response now).client.state = c.stateAfter response now := by
  rw [applyMapResponse_view Client.selfExpired fun _ _ => rfl,
    applyMapResponse_view Client.expiryNotice fun _ _ => rfl,
    applyMapResponse_view Client.state fun _ _ => rfl]
  exact expiry_reduceMap c response now

end

/-! ## The notice of an expired key -/

/-- The calls that write the interaction of a client with a map stream. -/
inductive NoticeOp where
  | applyMapResponse (response : MapResponse)
  | resumeInteraction (id : Nat)

/-- The client after a call; a response with another node key is refused. -/
def NoticeOp.run (c : Client) (now : Time) : NoticeOp → Client
  | .applyMapResponse response =>
    if c.nodeKeyMismatch response then c else (c.applyMapResponse response now).client
  | .resumeInteraction id => (c.resumeInteraction id now).client

/-- Calls one after another, each at some time. -/
def noticeSystem : System Client (NoticeOp × Time) := ⟨fun c a => some (a.1.run c a.2)⟩

/-- The interaction says that the node key expired exactly if it did. -/
def ExpiryAnnounced (c : Client) : Prop := c.selfExpired = true ↔ c.expiryNotice = true

/-- The call does not bring a new URL while the self node is expired, and stays so. -/
def LeavesNotice (c : Client) : NoticeOp × Time → Prop
  | (.applyMapResponse response, now) => c.nodeKeyMismatch response = true ∨
      ¬ (c.selfExpired = true ∧ c.expiresSelf response now = true ∧ c.opensURL response = true)
  | (.resumeInteraction _, _) => True

/-- What an announced expiry needs of a response to stay announced. -/
theorem expiryAnnounced_applyMapResponse {c : Client} (hc : ExpiryAnnounced c)
    (response : MapResponse) (now : Time) :
    ExpiryAnnounced (c.applyMapResponse response now).client ↔
      ¬ (c.selfExpired = true ∧ c.expiresSelf response now = true ∧
        c.opensURL response = true) := by
  obtain ⟨hexpired, hnotice, -⟩ := expiry_applyMapResponse c response now
  have hsame : c.expiryNotice = c.selfExpired := Bool.eq_iff_iff.mpr hc.symm
  rw [ExpiryAnnounced, hexpired, hnotice, Client.noticeAfter, hsame]
  cases c.selfExpired <;> cases c.expiresSelf response now <;> cases c.opensURL response <;> decide

/-- Acknowledging a URL does not touch the notice. -/
theorem expiryAnnounced_resumeInteraction {c : Client} (hc : ExpiryAnnounced c) (id : Nat)
    (now : Time) : ExpiryAnnounced (c.resumeInteraction id now).client := by
  unfold Client.resumeInteraction
  split
  · next h =>
    have hnone : c.expiryNotice = false := by
      unfold Client.expiryNotice
      cases hi : c.interaction with
      | none => rfl
      | some i =>
        simp only [hi, Option.any_some, decide_eq_true_eq] at h
        simp [h.2.2]
    have hself : ¬ c.selfExpired = true := fun h => Bool.eq_false_iff.mp hnone (hc.mp h)
    exact iff_of_false hself Bool.false_ne_true
  · exact hc

/-- The call leaves an expired node key announced, and no other. -/
def AnnouncedAfter (c : Client) (a : NoticeOp × Time) : Prop := ExpiryAnnounced (a.1.run c a.2)

/-- The first call, if there is one, is a response that is applied and finds the self node not
expired. -/
def Recovers (c : Client) : List (NoticeOp × Time) → Prop
  | [] => True
  | (.applyMapResponse response, now) :: _ =>
    c.nodeKeyMismatch response = false ∧ c.expiresSelf response now = false
  | (.resumeInteraction _, _) :: _ => False

/-- From a state in which the expiry is announced. -/
theorem announcedAfter_iff {c : Client} (hc : ExpiryAnnounced c) (a : NoticeOp × Time) :
    AnnouncedAfter c a ↔ LeavesNotice c a := by
  obtain ⟨op, now⟩ := a
  cases op with
  | applyMapResponse response =>
    unfold AnnouncedAfter LeavesNotice NoticeOp.run
    by_cases hmismatch : c.nodeKeyMismatch response = true
    · simp [hmismatch, hc]
    · dsimp only
      rw [if_neg hmismatch, or_iff_right hmismatch]
      exact expiryAnnounced_applyMapResponse hc response now
  | resumeInteraction id => exact iff_of_true (expiryAnnounced_resumeInteraction hc id now) trivial

/-- From a state in which the self node is expired and there is no interaction. -/
theorem announcedAfter_of_unannounced {c : Client} (hnone : c.interaction = none)
    (hself : c.selfExpired = true) (a : NoticeOp × Time) (ops : List (NoticeOp × Time)) :
    AnnouncedAfter c a ↔ Recovers c (a :: ops) ∧ LeavesNotice c a := by
  have hnotice : c.expiryNotice = false := by simp [Client.expiryNotice, hnone]
  have hnot : ¬ ExpiryAnnounced c := by simp [ExpiryAnnounced, hself, hnotice]
  obtain ⟨op, now⟩ := a
  unfold AnnouncedAfter NoticeOp.run Recovers LeavesNotice
  cases op with
  | applyMapResponse response =>
    by_cases hmismatch : c.nodeKeyMismatch response = true
    · simp [hmismatch, hnot]
    · obtain ⟨hexpired, hafter, -⟩ := expiry_applyMapResponse c response now
      simp only [if_neg hmismatch, ExpiryAnnounced, hexpired, hafter, Client.noticeAfter, hself,
        hnotice]
      cases c.expiresSelf response now <;> simp [hmismatch]
  | resumeInteraction id =>
    refine iff_of_false ?_ fun h => h.1
    simpa [Client.resumeInteraction, hnone] using hnot

/-- From a state in which the expiry is announced, it is announced after every call of a run exactly
if every call leaves it so. -/
theorem meets_announcedAfter_iff {c : Client} (hc : ExpiryAnnounced c)
    (ops : List (NoticeOp × Time)) :
    noticeSystem.Meets AnnouncedAfter c ops ↔ noticeSystem.Meets LeavesNotice c ops := by
  induction ops generalizing c with
  | nil => exact Iff.rfl
  | cons a ops ih =>
    refine forall_congr' fun c' => imp_congr_right fun hstep => ?_
    cases hstep
    rw [announcedAfter_iff hc]
    exact and_congr_right fun h => ih ((announcedAfter_iff hc a).mpr h)

/-- In a run that starts without an interaction, an expired node key is announced after every call
exactly if it is not expired at the start or the first call changes that, and no response brings a new
URL while it is expired and stays so. -/
theorem expired_notice_iff {c : Client} (hnone : c.interaction = none)
    (ops : List (NoticeOp × Time)) :
    noticeSystem.Meets AnnouncedAfter c ops ↔
      (c.selfExpired = true → Recovers c ops) ∧ noticeSystem.Meets LeavesNotice c ops := by
  by_cases hself : c.selfExpired = true
  · cases ops with
    | nil => exact iff_of_true trivial ⟨fun _ => trivial, trivial⟩
    | cons a ops =>
      have hfirst := announcedAfter_of_unannounced hnone hself a ops
      have hcons (P : Client → NoticeOp × Time → Prop) : noticeSystem.Meets P c (a :: ops) ↔
          P c a ∧ noticeSystem.Meets P (a.1.run c a.2) ops :=
        ⟨fun h => h _ rfl, fun h _ hstep => Option.some.inj hstep ▸ h⟩
      rw [hcons, hcons, hfirst, forall_prop_of_true hself, and_assoc]
      refine and_congr_right fun hrecovers => and_congr_right fun hleaves => ?_
      exact meets_announcedAfter_iff (hfirst.mpr ⟨hrecovers, hleaves⟩) ops
  · have hannounced : ExpiryAnnounced c := by
      simp [ExpiryAnnounced, Client.expiryNotice, hnone, hself]
    rw [meets_announcedAfter_iff hannounced]
    exact (and_iff_right fun h => absurd h hself).symm

/-- A new client. -/
def newClient : Client := { opts := sampleOptions }

/-- A response that finds the self node expired, and one that asks to open a URL. -/
def urlWhileExpired : List (NoticeOp × Time) :=
  [(.applyMapResponse { node := some { id := 1, key := ⟨1⟩, expired := true } }, 1),
    (.applyMapResponse { keepAlive := true, popBrowserURL := "open" }, 2),
    (.resumeInteraction 2, 3)]

theorem expired_notice_iff_urlWhileExpired :
    newClient.interaction = none ∧
      (noticeSystem.Meets AnnouncedAfter newClient urlWhileExpired ↔
        (newClient.selfExpired = true → Recovers newClient urlWhileExpired) ∧
          noticeSystem.Meets LeavesNotice newClient urlWhileExpired) :=
  ⟨rfl, expired_notice_iff rfl _⟩

/-- The URL replaces the notice; once it is acknowledged, the key is expired and nothing says so. -/
theorem expired_notice_lost : ∃ c, noticeSystem.run newClient urlWhileExpired = some c ∧
    c.selfExpired = true ∧ c.interaction = none := by
  refine ⟨_, rfl, ?_⟩
  decide +kernel

/-! ## Running -/

/-- A client, and whether the last report of a closed device still waits for a device. -/
structure Reported where
  client : Client
  outstanding : Bool := false

/-- The sections of a client that is not being closed. Errors are reported with the degraded state
or without one. -/
def Section.beforeClose : Section → Bool
  | .closeUnstarted | .closeStopping | .closeStopped _ => false
  | .reportError _ (some state) => state = .degraded
  | _ => true

/-- Is a report outstanding after a section? -/
def Section.leavesReport (outstanding : Bool) : Section → Bool
  | .reportClosedDevice => true
  | .restoreStateAfterDeviceAttach => false
  | _ => outstanding

/-- Sections one after another, each at some time. -/
def reportSystem : System Reported (Section × Time) where
  step s a :=
    if a.1.beforeClose then
      some ⟨(a.1.run s.client a.2).client, a.1.leavesReport s.outstanding⟩
    else none

/-- A client that is running is not degraded by either cause. -/
def Undegraded (s : Reported) : Prop :=
  s.client.state = .running → s.client.selfExpired = false ∧ s.outstanding = false

/-- The section does not call a client running that is degraded: a response of a degraded client
without a device finds the self node expired, or an older notice of expiry which it leaves; a
registration finds no cause of degradation; and a device is not attached while the self node is
expired and the last error is that of the device. -/
def Heedful (s : Reported) : Section × Time → Prop
  | (.applyMapResponse response, now) =>
    s.outstanding = true → s.client.state = .degraded → s.client.expiresSelf response now = true ∨
      s.client.selfExpired = false ∧ s.client.expiryNotice = true ∧
        s.client.opensURL response = false
  | (.registered _, _) => s.client.selfExpired = false ∧ s.outstanding = false
  | (.restoreStateAfterDeviceAttach, _) =>
    ¬ (s.client.lastError = s.client.opts.packages.errDeviceClosed ∧ s.client.authenticated = true ∧
      s.client.selfExpired = true)
  | _ => True

section
variable {s : Reported} (hs : Undegraded s) (now : Time)
include hs

theorem undegraded_applyMapResponse (response : MapResponse) :
    Undegraded ⟨(s.client.applyMapResponse response now).client, s.outstanding⟩ ↔
      Heedful s (.applyMapResponse response, now) := by
  obtain ⟨hexpired, -, hstate⟩ := expiry_applyMapResponse s.client response now
  unfold Undegraded Heedful
  simp only [hexpired, hstate, Client.stateAfter]
  by_cases hexpires : s.client.expiresSelf response now = true
  · simp [hexpires]
  have hnotice : s.client.noticeAfter response now = false ↔ ¬ (s.client.selfExpired = false ∧
      s.client.expiryNotice = true ∧ s.client.opensURL response = false) := by
    rw [Client.noticeAfter, if_neg hexpires]
    cases s.client.selfExpired <;> cases s.client.expiryNotice <;>
      cases s.client.opensURL response <;> decide
  by_cases hrecovers : s.client.state = .degraded ∧ s.client.noticeAfter response now = false
  · have hlost := hnotice.mp hrecovers.2
    simp [hexpires, hrecovers, hlost]
  · simp only [hexpires, if_neg hrecovers]
    refine iff_of_true (fun hrunning => ⟨trivial, (hs hrunning).2⟩) fun _ hdegraded => .inr ?_
    exact not_not.mp fun hlost => hrecovers ⟨hdegraded, hnotice.mpr hlost⟩

theorem undegraded_restoreStateAfterDeviceAttach (hstop : s.client.state.isStop = false) :
    Undegraded ⟨(s.client.restoreStateAfterDeviceAttach now).client, false⟩ ↔
      Heedful s (.restoreStateAfterDeviceAttach, now) := by
  unfold Undegraded Heedful Client.restoreStateAfterDeviceAttach
  rw [if_neg (Bool.eq_false_iff.mp hstop)]
  by_cases herror : s.client.lastError = s.client.opts.packages.errDeviceClosed
  · cases hauth : s.client.authenticated with
    | true =>
      simp only [herror, if_true]
      exact ⟨fun h hexpired => Bool.eq_false_iff.mp (h rfl).1 hexpired.2.2,
        fun h _ => ⟨Bool.eq_false_iff.mpr fun hexpired => h ⟨trivial, trivial, hexpired⟩, trivial⟩⟩
    | false =>
      simp only [herror, if_true, Bool.false_eq_true, if_false, false_and, and_false,
        not_false_eq_true, iff_true]
      split <;> exact nofun
  · rw [if_neg herror]
    exact iff_of_true (fun hrunning => ⟨(hs hrunning).1, rfl⟩) fun h => herror h.1

/-- A section leaves a client undegraded exactly if it is heedful. -/
theorem undegraded_run (hstop : s.client.state.isStop = false) {x : Section}
    (hx : x.beforeClose = true) :
    Undegraded ⟨(x.run s.client now).client, x.leavesReport s.outstanding⟩ ↔
      Heedful s (x, now) := by
  rcases frame_run s.client now x with ⟨response, rfl⟩ | ⟨hfacts, -, hstate, -⟩
  · exact undegraded_applyMapResponse hs now response
  have hself : (x.run s.client now).client.selfExpired = s.client.selfExpired :=
    congrArg (Option.any _) (congrArg Prod.fst hfacts)
  cases x with
  | applyMapResponse response => exact undegraded_applyMapResponse hs now response
  | restoreStateAfterDeviceAttach => exact undegraded_restoreStateAfterDeviceAttach hs now hstop
  | registered response => exact ⟨fun h => h rfl, fun h _ => h⟩
  | reportClosedDevice =>
    unfold Section.run Client.reportClosedDevice
    rw [if_neg (Bool.eq_false_iff.mp hstop)]
    exact iff_of_true nofun trivial
  | reportError err state =>
    cases state with
    | none => exact iff_of_true hs trivial
    | some state =>
      obtain rfl : state = .degraded := of_decide_eq_true hx
      exact iff_of_true nofun trivial
  | setInteraction kind url message =>
    refine iff_of_true (fun hrunning => ?_) trivial
    have hrunning := hstate.symm.trans hrunning
    dsimp only [Section.onState] at hrunning
    split at hrunning <;> cases hrunning
  | closeUnstarted | closeStopping | closeStopped => cases hx
  | _ =>
    refine iff_of_true (fun hrunning => ?_) trivial
    have hrunning := hstate.symm.trans hrunning
    dsimp only [Section.onState] at hrunning
    first
    | exact (hs hrunning).imp_left hself.trans
    | cases hrunning

end

theorem reportSystem_step {s s' : Reported} {a : Section × Time}
    (h : reportSystem.step s a = some s') : a.1.beforeClose = true ∧
      s' = ⟨(a.1.run s.client a.2).client, a.1.leavesReport s.outstanding⟩ := by
  unfold reportSystem at h
  dsimp only at h
  split at h
  · next hx => exact ⟨hx, (Option.some.inj h).symm⟩
  · cases h

/-- In a run of a new client up to `Close`, a client that is running is never degraded exactly if
every section is heedful. -/
theorem running_undegraded_iff (opts : Options) (acts : List (Section × Time)) :
    reportSystem.Visits Undegraded ⟨{ opts }, false⟩ acts ↔
      reportSystem.Meets Heedful ⟨{ opts }, false⟩ acts := by
  refine System.visits_iff_meets (J := fun s => s.client.state.isStop = false) ?_ ?_ rfl nofun acts
  · intro s s' a hstop hstep
    obtain ⟨hx, rfl⟩ := reportSystem_step hstep
    refine Bool.eq_false_iff.mpr fun hstop' => ?_
    have hreport : ∀ err state, a.1 = .reportError err (some state) → state = .degraded := by
      intro err state heq
      rw [heq] at hx
      exact of_decide_eq_true hx
    rcases isStop_run s.client a.2 hreport hstop' with h | h | h | ⟨errs, h⟩
    · exact Bool.eq_false_iff.mp hstop h
    all_goals
      rw [h] at hx
      cases hx
  · intro s s' a hstop hs hstep
    obtain ⟨hx, rfl⟩ := reportSystem_step hstep
    exact undegraded_run hs a.2 hstop hx

/-- A registered client whose device closes, and a keepalive. -/
def keepAliveAfterClose : List (Section × Time) :=
  [(.startBegin, 1), (.registered {}, 2), (.reportClosedDevice, 3),
    (.applyMapResponse { keepAlive := true }, 4)]

/-- The keepalive calls the client running although nobody attached another device. -/
theorem running_without_device :
    ∃ s, reportSystem.run ⟨newClient, false⟩ keepAliveAfterClose = some s ∧
      s.client.state = .running ∧ s.outstanding = true := by
  refine ⟨_, rfl, ?_⟩
  decide +kernel

end WgoTailscale
