import WgoTailscale.Workers

/-!
# The queue of control pings (`map.go`)

`answerControlPing` and `controlPingWorker` as a machine of their own, one lock operation, channel
operation or map access at a time. The send to `pingWake` and the mark in `pingPending` are two
steps under `pingMu`, between which the worker may already receive the ping; it cannot remove a mark
that is not there yet, because it needs the same lock (`PingsSound`). Any number of calls and workers
may run. `control_ping_queue` is what holds in every state.
-/

namespace WgoTailscale

open Machine Multiset

/-! ## The machine -/

/-- What the two functions share. -/
structure PingQueue where
  lastPingURL : String := ""
  pingMu : Bool := false
  /-- A channel of capacity `maxPendingControlPings`. -/
  pingWake : List PingRequest := []
  pingPending : Finset String := ∅

/-- The program points of `answerControlPing`, called with a ping that is not nil, and of
`controlPingWorker`. -/
inductive PingFrame where
  | answerControlPing (ping : PingRequest)
  | lockPings (ping : PingRequest)
  | sendPing (ping : PingRequest)
  | markPing (url : String)
  | unlockPings
  | controlPingWorker
  | answerPing (ping : PingRequest)
  | recordPing (url : String)
  | unmarkPing (url : String)

/-- Whether the worker's context is done, and whether a ping is answered without an error. -/
structure PingChoice where
  done : Bool := false
  ok : Bool := true

/-- One step. -/
def pingStep (ch : PingChoice) (s : PingQueue) : PingFrame → Option (Outcome PingQueue PingFrame)
  | .answerControlPing ping =>
    if ping.types ≠ "" ∨ s.lastPingURL = ping.url then some { state := s }
    else some { state := s, calls := [.lockPings ping] }
  | .lockPings ping =>
    if s.pingMu then none
    else if ping.url ∈ s.pingPending then
      some { state := { s with pingMu := true }, calls := [.unlockPings] }
    else some { state := { s with pingMu := true }, calls := [.sendPing ping] }
  | .sendPing ping =>
    if s.pingWake.length < maxPendingControlPings then
      some { state := { s with pingWake := s.pingWake ++ [ping] }, calls := [.markPing ping.url] }
    else some { state := s, calls := [.unlockPings] }
  | .markPing url =>
    some { state := { s with pingPending := insert url s.pingPending }, calls := [.unlockPings] }
  | .unlockPings => some { state := { s with pingMu := false } }
  | .controlPingWorker =>
    if ch.done then some { state := s }
    else match s.pingWake with
      | [] => none
      | ping :: queue => some { state := { s with pingWake := queue },
                                calls := [.answerPing ping, .controlPingWorker] }
  | .answerPing ping =>
    if ch.ok then some { state := s, calls := [.recordPing ping.url, .unmarkPing ping.url] }
    else some { state := s, calls := [.unmarkPing ping.url] }
  | .recordPing url => some { state := { s with lastPingURL := url } }
  | .unmarkPing url =>
    if s.pingMu then none
    else some { state := { s with pingPending := s.pingPending.erase url } }

/-- The machine; calls and workers are started from outside. -/
def pings : Machine PingQueue PingFrame PingChoice Empty where
  exec f ch s := pingStep ch s f
  env := nofun
  entry f _ := match f with
    | .answerControlPing _ | .controlPingWorker => true
    | _ => false

/-! ## The invariant -/

/-- The frames that hold `pingMu`. -/
def PingFrame.holds : PingFrame → Nat
  | .sendPing _ | .markPing _ | .unlockPings => 1
  | _ => 0

/-- The ping that a frame of the worker is answering. -/
def PingFrame.answering : PingFrame → Option String
  | .answerPing ping => some ping.url
  | .unmarkPing url => some url
  | _ => none

/-- The ping that was sent and is to be marked. -/
def PingFrame.marking : PingFrame → Option String
  | .markPing url => some url
  | _ => none

/-- The URLs of the queued pings and of those being answered. -/
def PingQueue.urls (s : PingQueue) (F : Multiset PingFrame) : Multiset String :=
  (s.pingWake.map PingRequest.url : List String) + F.filterMap PingFrame.answering

/-- The URLs of the pings that were sent and are to be marked. -/
def unmarkedURLs (F : Multiset PingFrame) : Multiset String := F.filterMap PingFrame.marking

theorem urls_cons (s : PingQueue) (f : PingFrame) (F : Multiset PingFrame) :
    s.urls (f ::ₘ F) = (f.answering.map singleton).getD 0 + s.urls F := by
  rw [PingQueue.urls, PingQueue.urls, filterMap_cons]
  exact add_left_comm _ _ _

theorem mem_unmarkedURLs_cons {f : PingFrame} {F : Multiset PingFrame} {url : String} :
    url ∈ unmarkedURLs (f ::ₘ F) ↔ f.marking = some url ∨ url ∈ unmarkedURLs F := by
  simp only [unmarkedURLs, mem_filterMap, mem_cons, or_and_right, exists_or,
    exists_eq_left]

/-- What holds between the steps of all calls and workers. -/
structure PingsSound (s : PingQueue) (F : Multiset PingFrame) : Prop where
  locked : weightOf PingFrame.holds F = s.pingMu.toNat
  nodup : (s.urls F).Nodup
  marked : ∀ url, url ∈ s.pingPending ∨ url ∈ unmarkedURLs F ↔ url ∈ s.urls F
  sending : ∀ ping, .sendPing ping ∈ F → ping.url ∉ s.pingPending
  bounded : s.pingWake.length ≤ maxPendingControlPings

section
variable {s : PingQueue} {F R : Multiset PingFrame} {f : PingFrame}

/-- While a frame holds the lock, no other does. -/
theorem PingsSound.holder (h : PingsSound s (f ::ₘ R)) (hf : f.holds = 1) :
    s.pingMu = true ∧ ∀ g ∈ R, g.holds = 0 :=
  weight_of_locked h.locked hf

/-- While the lock is free, no frame holds it. -/
theorem PingsSound.free (h : PingsSound s F) (hmu : s.pingMu = false) : ∀ g ∈ F, g.holds = 0 :=
  weight_of_free h.locked hmu

/-- Where no frame holds the lock, every sent ping is marked. -/
theorem notMem_unmarkedURLs (h : ∀ g ∈ F, g.holds = 0) (url : String) : url ∉ unmarkedURLs F := by
  intro hurl
  obtain ⟨g, hg, hmark⟩ := (mem_filterMap _ _).mp hurl
  have hzero := h g hg
  cases g <;> cases hmark
  cases hzero

theorem sending_notMem (h : ∀ g ∈ F, g.holds = 0) (ping : PingRequest) : .sendPing ping ∉ F :=
  fun hmem => absurd (h _ hmem) Nat.one_ne_zero

end

/-! ## Steps -/

section
variable {s : PingQueue} {R : Multiset PingFrame} {f g : PingFrame} {ping : PingRequest}
  {url : String}

/-- A frame is replaced by one that holds, answers and marks the same and does not send. -/
theorem PingsSound.replace (h : PingsSound s (f ::ₘ R)) (hholds : g.holds = f.holds)
    (hanswering : g.answering = f.answering) (hmarking : g.marking = f.marking)
    (hsend : ∀ ping, g ≠ .sendPing ping) : PingsSound s (g ::ₘ R) := by
  have hurls : s.urls (g ::ₘ R) = s.urls (f ::ₘ R) := by rw [urls_cons, urls_cons, hanswering]
  refine ⟨?_, ?_, fun url => ?_, fun ping hmem => ?_, h.bounded⟩
  · rw [weightOf_cons, hholds, ← weightOf_cons]
    exact h.locked
  · rw [hurls]
    exact h.nodup
  · rw [hurls, mem_unmarkedURLs_cons, hmarking, ← mem_unmarkedURLs_cons]
    exact h.marked url
  · rcases mem_cons.mp hmem with heq | hmem
    · exact absurd heq.symm (hsend ping)
    · exact h.sending ping (mem_cons_of_mem hmem)

/-- Frames that hold, answer and mark nothing come and go. -/
theorem pingsSound_idle (hholds : f.holds = 0) (hanswering : f.answering = none)
    (hmarking : f.marking = none) : PingsSound s (f ::ₘ R) ↔ PingsSound s R := by
  have hlocked : weightOf PingFrame.holds (f ::ₘ R) =
      weightOf PingFrame.holds R := by
    rw [weightOf_cons, hholds, Nat.zero_add]
  have hurls : s.urls (f ::ₘ R) = s.urls R := by
    rw [urls_cons, hanswering]
    exact zero_add _
  have hmarked (url : String) : url ∈ unmarkedURLs (f ::ₘ R) ↔ url ∈ unmarkedURLs R := by
    rw [mem_unmarkedURLs_cons, hmarking]
    exact or_iff_right nofun
  have hsending (ping : PingRequest) : .sendPing ping ∈ f ::ₘ R ↔ .sendPing ping ∈ R := by
    rw [mem_cons]
    refine or_iff_right ?_
    rintro rfl
    cases hholds
  constructor
  · rintro ⟨h₁, h₂, h₃, h₄, h₅⟩
    simp only [hlocked, hurls, hmarked, hsending] at h₁ h₂ h₃ h₄
    exact ⟨h₁, h₂, h₃, h₄, h₅⟩
  · rintro ⟨h₁, h₂, h₃, h₄, h₅⟩
    simp only [← hlocked, ← hurls, ← hmarked, ← hsending] at h₁ h₂ h₃ h₄
    exact ⟨h₁, h₂, h₃, h₄, h₅⟩

/-- `pingMu` is taken. -/
theorem PingsSound.lock (h : PingsSound s R) (hmu : s.pingMu = false) (hholds : g.holds = 1)
    (hanswering : g.answering = none) (hmarking : g.marking = none)
    (hsend : ∀ ping, g = .sendPing ping → ping.url ∉ s.pingPending) :
    PingsSound { s with pingMu := true } (g ::ₘ R) := by
  have hurls : s.urls (g ::ₘ R) = s.urls R := by
    rw [urls_cons, hanswering]
    exact zero_add _
  refine ⟨?_, ?_, fun url => ?_, fun ping hmem => ?_, h.bounded⟩
  · have hlocked := h.locked
    rw [hmu] at hlocked
    rw [weightOf_cons, hholds, hlocked]
    rfl
  · exact hurls ▸ h.nodup
  · rw [mem_unmarkedURLs_cons, hmarking, or_iff_right (a := none = some url) nofun]
    exact (h.marked url).trans (by rw [← hurls]; rfl)
  · rcases mem_cons.mp hmem with heq | hmem
    · exact hsend ping heq.symm
    · exact absurd hmem (sending_notMem (h.free hmu) ping)

/-- A ping that is not marked is sent: it is neither queued nor being answered. -/
theorem PingsSound.send (h : PingsSound s (.sendPing ping ::ₘ R))
    (hroom : s.pingWake.length < maxPendingControlPings) :
    PingsSound { s with pingWake := s.pingWake ++ [ping] } (.markPing ping.url ::ₘ R) := by
  obtain ⟨-, hothers⟩ := h.holder rfl
  have hold : s.urls (.sendPing ping ::ₘ R) = s.urls R := (urls_cons _ _ _).trans (zero_add _)
  have hurls : ({ s with pingWake := s.pingWake ++ [ping] } : PingQueue).urls
      (.markPing ping.url ::ₘ R) = ping.url ::ₘ s.urls R := by
    refine (urls_cons _ _ _).trans ((zero_add _).trans ?_)
    simp only [PingQueue.urls, List.map_append, List.map_singleton, ← coe_add,
      coe_singleton, ← singleton_add]
    abel
  have hmarked (url : String) : url ∈ s.pingPending ↔ url ∈ s.urls R := by
    rw [← hold, ← h.marked, mem_unmarkedURLs_cons]
    simp [PingFrame.marking, notMem_unmarkedURLs hothers url]
  refine ⟨?_, ?_, fun url => ?_, fun ping' hmem => ?_, ?_⟩
  · have hlocked := h.locked
    rw [weightOf_cons] at hlocked ⊢
    exact hlocked
  · rw [hurls, nodup_cons, ← hmarked]
    exact ⟨h.sending ping (mem_cons_self _ _), hold ▸ h.nodup⟩
  · rw [hurls, mem_cons, ← hmarked, mem_unmarkedURLs_cons]
    simp [PingFrame.marking, notMem_unmarkedURLs hothers url, or_comm, eq_comm]
  · rcases mem_cons.mp hmem with heq | hmem
    · cases heq
    · exact absurd hmem (sending_notMem hothers ping')
  · rw [List.length_append, List.length_singleton]
    exact hroom

/-- A sent ping is marked. -/
theorem PingsSound.mark (h : PingsSound s (.markPing url ::ₘ R)) :
    PingsSound { s with pingPending := insert url s.pingPending } (.unlockPings ::ₘ R) := by
  obtain ⟨-, hothers⟩ := h.holder rfl
  have hurls (f : PingFrame) (hf : f.answering = none) : s.urls (f ::ₘ R) = s.urls R := by
    rw [urls_cons, hf]
    exact zero_add _
  have hnodup := h.nodup
  have hmarked := h.marked
  rw [hurls _ rfl] at hnodup hmarked
  refine ⟨?_, ?_, fun url' => ?_, fun ping hmem => ?_, h.bounded⟩
  · have hlocked := h.locked
    rw [weightOf_cons] at hlocked ⊢
    exact hlocked
  · exact (hurls .unlockPings rfl).symm ▸ hnodup
  · show _ ↔ url' ∈ s.urls (.unlockPings ::ₘ R)
    rw [hurls _ rfl, ← hmarked, mem_unmarkedURLs_cons, mem_unmarkedURLs_cons, Finset.mem_insert]
    simp [PingFrame.marking, notMem_unmarkedURLs hothers url', or_comm, eq_comm]
  · rcases mem_cons.mp hmem with heq | hmem
    · cases heq
    · exact absurd hmem (sending_notMem hothers ping)

/-- `pingMu` is released. -/
theorem PingsSound.unlock (h : PingsSound s (.unlockPings ::ₘ R)) :
    PingsSound { s with pingMu := false } R := by
  obtain ⟨hmu, -⟩ := h.holder rfl
  have hurls : s.urls (.unlockPings ::ₘ R) = s.urls R := (urls_cons _ _ _).trans (zero_add _)
  refine ⟨?_, ?_, fun url => ?_, fun ping hmem => ?_, h.bounded⟩
  · have hlocked := h.locked
    rw [hmu, weightOf_cons] at hlocked
    simp only [PingFrame.holds, Bool.toNat_true] at hlocked
    show _ = 0
    omega
  · exact hurls ▸ h.nodup
  · have hmarked := h.marked url
    have hnone : PingFrame.marking .unlockPings ≠ some url := nofun
    rw [hurls, mem_unmarkedURLs_cons, or_iff_right hnone] at hmarked
    exact hmarked
  · exact h.sending ping (mem_cons_of_mem hmem)

/-- The worker receives a ping. -/
theorem PingsSound.receive (h : PingsSound s R) {queue : List PingRequest}
    (hqueue : s.pingWake = ping :: queue) :
    PingsSound { s with pingWake := queue } (.answerPing ping ::ₘ R) := by
  have hurls : ({ s with pingWake := queue } : PingQueue).urls (.answerPing ping ::ₘ R) =
      s.urls R := by
    rw [urls_cons, PingQueue.urls, PingQueue.urls, hqueue, List.map_cons, ← cons_coe,
      ← singleton_add, add_assoc]
    rfl
  refine ⟨?_, ?_, fun url => ?_, fun ping' hmem => ?_, ?_⟩
  · exact (weightOf_cons _ _ _).trans ((Nat.zero_add _).trans h.locked)
  · rw [hurls]
    exact h.nodup
  · rw [hurls, ← h.marked, mem_unmarkedURLs_cons]
    simp [PingFrame.marking]
  · rcases mem_cons.mp hmem with heq | hmem
    · cases heq
    · exact h.sending ping' hmem
  · have hbounded := h.bounded
    rw [hqueue, List.length_cons] at hbounded
    exact Nat.le_of_succ_le hbounded

/-- The worker removes the mark of the ping it answered, which was the only ping with that URL. -/
theorem PingsSound.unmark (h : PingsSound s (.unmarkPing url ::ₘ R)) (hmu : s.pingMu = false) :
    PingsSound { s with pingPending := s.pingPending.erase url } R := by
  have hfree := h.free hmu
  have hurls : s.urls (.unmarkPing url ::ₘ R) = url ::ₘ s.urls R := urls_cons _ _ _
  have hnodup := h.nodup
  rw [hurls, nodup_cons] at hnodup
  refine ⟨?_, hnodup.2, fun url' => ?_, fun ping hmem => ?_, h.bounded⟩
  · have hlocked := h.locked
    rw [weightOf_cons] at hlocked
    exact (Nat.zero_add _).symm.trans hlocked
  · have hmarked := h.marked url'
    rw [hurls, or_iff_left (notMem_unmarkedURLs hfree url'), mem_cons] at hmarked
    have hothers := notMem_unmarkedURLs (fun g hg => hfree g (mem_cons_of_mem hg)) url'
    rw [or_iff_left hothers, Finset.mem_erase, hmarked]
    constructor
    · rintro ⟨hne, heq | hmem⟩
      · exact absurd heq hne
      · exact hmem
    · intro hmem
      refine ⟨?_, .inr hmem⟩
      rintro rfl
      exact hnodup.1 hmem
  · exact absurd (mem_cons_of_mem hmem) (sending_notMem hfree ping)

end

/-! ## Runs -/

/-- Every step keeps the invariant. -/
theorem keeps_pingsSound : pings.Keeps .any PingsSound where
  run s f R ch o h hany ho := by
    have ho : pingStep ch s f = some o := ho
    revert ho
    fun_cases pingStep ch s f <;> intro ho <;> cases ho
    case case1 => exact (Outcome.frames_none _ R).symm ▸ (pingsSound_idle rfl rfl rfl).mp h
    case case2 ping _ =>
      rw [Outcome.frames_call]
      exact h.replace rfl rfl rfl nofun
    case case4 ping hmu _ =>
      rw [Outcome.frames_call]
      have hrest := (pingsSound_idle rfl rfl rfl).mp h
      exact hrest.lock (Bool.eq_false_iff.mpr hmu) rfl rfl rfl nofun
    case case5 ping hmu hpending =>
      rw [Outcome.frames_call]
      have hrest := (pingsSound_idle rfl rfl rfl).mp h
      refine hrest.lock (Bool.eq_false_iff.mpr hmu) rfl rfl rfl fun ping' heq => ?_
      obtain rfl := PingFrame.sendPing.inj heq
      exact hpending
    case case6 ping hroom =>
      rw [Outcome.frames_call]
      exact h.send hroom
    case case7 ping _ =>
      rw [Outcome.frames_call]
      exact h.replace rfl rfl rfl nofun
    case case8 url =>
      rw [Outcome.frames_call]
      exact h.mark
    case case9 => exact (Outcome.frames_none _ R).symm ▸ h.unlock
    case case10 => exact (Outcome.frames_none _ R).symm ▸ (pingsSound_idle rfl rfl rfl).mp h
    case case12 _ ping queue hqueue =>
      rw [Outcome.frames_calls]
      exact h.receive hqueue
    case case13 ping _ =>
      rw [Outcome.frames_calls]
      exact (pingsSound_idle rfl rfl rfl).mpr (h.replace rfl rfl rfl nofun)
    case case14 ping _ =>
      rw [Outcome.frames_call]
      exact h.replace rfl rfl rfl nofun
    case case15 url =>
      rw [Outcome.frames_none]
      obtain ⟨hlocked, hnodup, hmarked, hsending, hbounded⟩ := (pingsSound_idle rfl rfl rfl).mp h
      exact ⟨hlocked, hnodup, hmarked, hsending, hbounded⟩
    case case17 url hmu =>
      rw [Outcome.frames_none]
      exact h.unmark (Bool.eq_false_iff.mpr hmu)
  start s F f h _ hf := by
    cases f with
    | answerControlPing | controlPingWorker => exact (pingsSound_idle rfl rfl rfl).mpr h
    | _ => cases hf
  env s s' F e h _ he := nomatch e

theorem pingsSound_empty : PingsSound {} 0 :=
  ⟨rfl, nodup_zero, fun url => by simp [PingQueue.urls, unmarkedURLs], nofun,
    Nat.zero_le _⟩

/-- In every state of every interleaving each URL occurs at most once among the queued pings and
those being answered, the marks are exactly these URLs whenever the lock is free, and the queue is
bounded. -/
theorem control_ping_queue (acts : List (Act PingFrame PingChoice Empty)) :
    pings.system.Visits (fun cfg => (cfg.shared.urls cfg.frames).Nodup ∧
      (cfg.shared.pingMu = false →
        ∀ url, url ∈ cfg.shared.pingPending ↔ url ∈ cfg.shared.urls cfg.frames) ∧
      cfg.shared.pingWake.length ≤ maxPendingControlPings) { shared := {} } acts := by
  refine keeps_pingsSound.visits (fun cfg h => ⟨h.nodup, fun hmu url => ?_, h.bounded⟩)
    pingsSound_empty acts
  rw [← h.marked url, or_iff_left (notMem_unmarkedURLs (h.free hmu) url)]

end WgoTailscale
