import WgoTailscale.Hub
import WgoTailscale.Lib.Transition

/-!
# What a subscriber is guaranteed (`events.go`)

The hub under any interleaving of its operations. `publish` is interrupted between any two of its
channel operations, and subscribers receive at any time. The events due to a subscriber are read off
the history of the hub's lock (`Window`): those published after its `subscribe` and before its
`unsubscribe` or the hub's `close`. `hub_queue_guarantee` says that in every run a subscriber has a
subsequence of them, with the newest one kept, in a queue no longer than its capacity, and that no
closed channel is sent to or closed again.
-/

namespace WgoTailscale

open FinMap

/-! ## Runs of the hub -/

/-- What happened at the hub, in the order in which its lock was taken. -/
inductive HubRecord where
  | published (e : Event)
  | subscribed (id : Nat)
  | unsubscribed (id : Nat)
  | closed

/-- The hub, the `publish` that holds its lock, and its history, the latest first. -/
structure HubRun where
  hub : Hub := {}
  current : Option (Event × PublishPhase) := none
  history : List HubRecord := []

/-- The steps of the hub's clients. `publish` begins a call and `proceed` makes the next step of the
call that holds the lock. -/
inductive HubOp where
  | publish (e : Event) (order : List Nat)
  | proceed
  | subscribe (buffer : Int)
  | unsubscribe (id : Nat)
  | receive (id : Nat)
  | close

/-- One step. The function that `subscribe` returns is there once the channel is. -/
def HubRun.step (r : HubRun) : HubOp → Option HubRun
  | .publish e order =>
    (r.hub.publishBegin e order).map fun (hub, phase) =>
      { hub, current := phase.map (e, ·), history := .published e :: r.history }
  | .proceed =>
    r.current.map fun (e, phase) =>
      { r with
        hub := (r.hub.publishStep e phase).1
        current := (r.hub.publishStep e phase).2.map (e, ·) }
  | .subscribe buffer =>
    (r.hub.subscribe buffer).map fun hub =>
      { r with hub, history := .subscribed hub.nextID :: r.history }
  | .unsubscribe id =>
    if id ∈ r.hub.channels then
      (r.hub.unsubscribe id).map fun hub =>
        { r with hub, history := .unsubscribed id :: r.history }
    else none
  | .receive id => (r.hub.receive id).map fun hub => { r with hub }
  | .close => r.hub.close.map fun hub => { r with hub, history := .closed :: r.history }

/-- The hub under sequences of steps. -/
def hubSystem : System HubRun HubOp := ⟨HubRun.step⟩

/-- The channel has been closed. -/
def Hub.isClosed (h : Hub) (id : Nat) : Bool := (h.channels.get id).any Channel.closed

/-- The step sends on a closed channel or closes one, which panics. -/
def HubRun.Faults (r : HubRun) : HubOp → Prop
  | .proceed =>
    match r.current with
    | some (_, .send (id :: _)) | some (_, .resend id _) => r.hub.isClosed id = true
    | _ => False
  | .unsubscribe id => id ∈ r.hub.subs ∧ r.hub.isClosed id = true
  | .close => r.hub.closed = false ∧ ∃ id ∈ r.hub.subs, r.hub.isClosed id = true
  | _ => False

/-! ## The events due to a subscriber -/

/-- The part of the history that concerns one subscriber: whether the hub is closed, whether the
subscription stands, and the events published while it stood. -/
structure Window where
  closed : Bool := false
  stands : Bool := false
  events : List Event := []

/-- What a record adds to the window of a subscriber. -/
def Window.add (id : Nat) (w : Window) : HubRecord → Window
  | .published e => if w.stands then { w with events := w.events ++ [e] } else w
  | .subscribed id' => if id' = id ∧ w.closed = false then { w with stands := true } else w
  | .unsubscribed id' => if id' = id then { w with stands := false } else w
  | .closed => { w with closed := true, stands := false }

/-- The window of a subscriber. -/
def window (id : Nat) : List HubRecord → Window
  | [] => {}
  | record :: history => (window id history).add id record

/-- The subscribers that the `publish` in progress has not dealt with. -/
def HubRun.pending (r : HubRun) : List Nat := (r.current.map fun c => c.2.pending).getD []

/-- The events that were offered to a subscriber: all that are due, except the one that is on its
way. -/
def HubRun.offered (r : HubRun) (id : Nat) : List Event :=
  if id ∈ r.pending then (window id r.history).events.dropLast else (window id r.history).events

/-- `publish` has removed the oldest event of a full channel and not yet sent again. -/
def HubRun.draining (r : HubRun) (id : Nat) : Prop := ∃ e ids, r.current = some (e, .resend id ids)

/-- What a subscriber is guaranteed. -/
structure QueueGuarantee (r : HubRun) (id : Nat) (ch : Channel) : Prop where
  /-- What it received and still has buffered is a subsequence of what is due to it. -/
  inOrder : ch.content.Sublist (window id r.history).events
  /-- The newest event offered to it is the last it has; with no `publish` on its way to it this is
  the newest event due to it. -/
  newest : ¬ r.draining id → ch.content.getLast? = (r.offered id).getLast?
  settled : id ∉ r.pending → ch.content.getLast? = (window id r.history).events.getLast?
  bounded : ch.queue.length ≤ ch.capacity

/-! ## One channel -/

/-- A channel and the events offered to it; `draining` says that its oldest event has just been
removed. -/
structure ChannelOK (ch : Channel) (offered : List Event) (draining : Prop) : Prop where
  capacity : 0 < ch.capacity
  bounded : ch.queue.length ≤ ch.capacity
  inOrder : ch.content.Sublist offered
  newest : ¬ draining → ch.content.getLast? = offered.getLast?
  room : draining → ch.queue.length < ch.capacity

variable {e : Event} {id : Nat} {h : Hub} {history : List HubRecord} {ch : Channel}

section
variable {ch : Channel} {offered : List Event} {draining : Prop}

/-- A send that finds room. -/
theorem ChannelOK.send (h : ChannelOK ch offered draining) (e : Event)
    (hroom : ch.queue.length < ch.capacity) :
    ChannelOK { ch with queue := ch.queue ++ [e] } (offered ++ [e]) False := by
  have hcontent : ({ ch with queue := ch.queue ++ [e] } : Channel).content = ch.content ++ [e] :=
    (List.append_assoc ..).symm
  refine ⟨h.capacity, ?_, ?_, fun _ => ?_, False.elim⟩
  · simpa using Nat.succ_le_of_lt hroom
  · rw [hcontent]
    exact h.inOrder.append (.refl [e])
  · rw [hcontent, List.getLast?_concat, List.getLast?_concat]

/-- The removal of the oldest event, if there still is one. -/
theorem ChannelOK.drain (h : ChannelOK ch offered draining) :
    ChannelOK { ch with queue := ch.queue.tail } offered True := by
  have hlength : ch.queue.tail.length < ch.capacity := by
    have hcapacity := h.capacity
    have hbounded := h.bounded
    rw [List.length_tail]
    omega
  refine ⟨h.capacity, hlength.le, ?_, fun hn => absurd trivial hn, fun _ => hlength⟩
  exact ((List.Sublist.refl _).append (List.tail_sublist _)).trans h.inOrder

/-- The subscriber takes the oldest event. -/
theorem ChannelOK.receive {queue : List Event} (h : ChannelOK ch offered draining)
    (hqueue : ch.queue = e :: queue) :
    ChannelOK { ch with queue, received := ch.received ++ [e] } offered draining := by
  have hcontent : ({ ch with queue, received := ch.received ++ [e] } : Channel).content =
      ch.content := by
    simp [Channel.content, hqueue]
  have hlength : ch.queue.length = queue.length + 1 := by rw [hqueue, List.length_cons]
  refine ⟨h.capacity, ?_, ?_, fun hn => ?_, fun hd => ?_⟩
  · have hbounded := h.bounded
    show queue.length ≤ ch.capacity
    omega
  · rw [hcontent]
    exact h.inOrder
  · rw [hcontent]
    exact h.newest hn
  · have hroom := h.room hd
    show queue.length < ch.capacity
    omega

theorem ChannelOK.close (h : ChannelOK ch offered draining) :
    ChannelOK { ch with closed := true } offered draining :=
  ⟨h.capacity, h.bounded, h.inOrder, h.newest, h.room⟩

/-- Only which events were offered and whether the channel is being drained matters. -/
theorem ChannelOK.congr {offered' : List Event} {draining' : Prop}
    (h : ChannelOK ch offered draining) (ho : offered' = offered) (hd : draining' ↔ draining) :
    ChannelOK ch offered' draining' := by
  subst ho
  exact ⟨h.capacity, h.bounded, h.inOrder, fun hn => h.newest (mt hd.mpr hn), fun hd' =>
    h.room (hd.mp hd')⟩

end

/-! ## The invariant -/

/-- What the hub knows of its subscribers agrees with its history. -/
structure Books (h : Hub) (history : List HubRecord) : Prop where
  closed : ∀ id, (window id history).closed = h.closed
  stands : ∀ id, (window id history).stands = true ↔ id ∈ h.subs
  empty : h.closed = true → h.subs = ∅
  fresh : ∀ id, h.nextID < id → id ∉ h.channels ∧ (window id history).events = []
  /-- A subscribed channel is open. -/
  opened : ∀ id ∈ h.subs, ∃ ch, h.channels.get id = some ch ∧ ch.closed = false

/-- What holds between the steps of the hub's clients. -/
structure HubRun.Inv (r : HubRun) : Prop where
  books : Books r.hub r.history
  locked : r.hub.locked = r.current.isSome
  nodup : r.pending.Nodup
  pending : ∀ id ∈ r.pending, id ∈ r.hub.subs
  /-- The event in progress is due to the subscribers it has still to reach. -/
  due : ∀ e phase, r.current = some (e, phase) → ∀ id ∈ phase.pending,
    ∃ before, (window id r.history).events = before ++ [e]
  channels : ∀ id ch, r.hub.channels.get id = some ch →
    ChannelOK ch (r.offered id) (r.draining id)

/-- Only a published event is added to what is due. -/
theorem Window.events_add {w : Window} {record : HubRecord} (h : ∀ e, record ≠ .published e) :
    (w.add id record).events = w.events := by
  cases record with
  | published e => exact absurd rfl (h e)
  | subscribed | unsubscribed =>
    unfold Window.add
    dsimp only
    split <;> rfl
  | closed => rfl

/-- Only a close closes. -/
theorem Window.closed_add {w : Window} {record : HubRecord} (h : record ≠ .closed) :
    (w.add id record).closed = w.closed := by
  cases record with
  | closed => exact absurd rfl h
  | published | subscribed | unsubscribed =>
    unfold Window.add
    dsimp only
    split <;> rfl

theorem Books.not_stands (hb : Books h history) (hid : id ∉ h.subs) :
    (window id history).stands = false :=
  Bool.eq_false_iff.mpr (mt (hb.stands id).mp hid)

/-- Rewriting a channel without closing it. -/
theorem Books.insert (hb : Books h history) {ch' : Channel} (hch : h.channels.get id = some ch)
    (hclosed : ch'.closed = ch.closed) :
    Books { h with channels := h.channels.insert id ch' } history := by
  refine ⟨hb.closed, hb.stands, hb.empty, fun id' hid => ?_, fun id' hid => ?_⟩
  · obtain ⟨hnone, hnil⟩ := hb.fresh id' hid
    refine ⟨?_, hnil⟩
    have hne : id' ≠ id := fun heq => hnone (heq ▸ mem_of_get hch)
    simp [hne, hnone]
  · obtain ⟨ch₀, hch₀, hopen⟩ := hb.opened id' hid
    by_cases hne : id' = id
    · subst hne
      cases hch.symm.trans hch₀
      exact ⟨ch', get_insert_self .., hclosed.trans hopen⟩
    · exact ⟨ch₀, (get_insert_ne _ _ hne).trans hch₀, hopen⟩

theorem Books.update (hb : Books h history) (id : Nat) {f : Channel → Channel}
    (hf : ∀ ch, (f ch).closed = ch.closed) : Books (h.update id f) history := by
  unfold Hub.update
  split
  · exact hb
  · next hch => exact hb.insert hch (hf _)

/-- A subscribed channel may be sent to, and closed. -/
theorem Books.not_isClosed (hb : Books h history) (hid : id ∈ h.subs) : h.isClosed id = false := by
  obtain ⟨ch, hch, hopen⟩ := hb.opened id hid
  simp [Hub.isClosed, hch, hopen]

namespace HubRun

variable {r r' : HubRun}

/-- While nobody holds the lock, everything that is due was offered. -/
theorem offered_of_none (hcur : r.current = none) (id : Nat) :
    r.offered id = (window id r.history).events := by
  simp [offered, HubRun.pending, hcur]

theorem not_draining_of_none (hcur : r.current = none) (id : Nat) : ¬ r.draining id := by
  rintro ⟨e, ids, h⟩
  cases hcur.symm.trans h

theorem Inv.current_of_free (h : r.Inv) (hfree : ¬ r.hub.locked = true) : r.current = none := by
  rw [h.locked] at hfree
  exact Option.not_isSome_iff_eq_none.mp hfree

/-- The channels while nobody holds the lock. -/
theorem Inv.idle (h : r.Inv) (hcur : r.current = none) (hch : r.hub.channels.get id = some ch) :
    ChannelOK ch (window id r.history).events False :=
  (h.channels id ch hch).congr (offered_of_none hcur id).symm
    (iff_of_false not_false (not_draining_of_none hcur id))

/-- The invariant while nobody holds the lock. -/
theorem Inv.of_idle (hcur : r.current = none) (hbooks : Books r.hub r.history)
    (hlocked : r.hub.locked = false)
    (hchannels : ∀ id ch, r.hub.channels.get id = some ch →
      ChannelOK ch (window id r.history).events False) : r.Inv := by
  refine ⟨hbooks, ?_, ?_, fun id hid => ?_, fun e phase hc => ?_, fun id ch hch => ?_⟩
  · rw [hlocked, hcur]
    rfl
  · simp [HubRun.pending, hcur]
  · simp [HubRun.pending, hcur] at hid
  · cases hcur.symm.trans hc
  · exact (hchannels id ch hch).congr (offered_of_none hcur id)
      (iff_of_false (not_draining_of_none hcur id) not_false)

/-! ### Subscribers -/

theorem inv_subscribe {buffer : Int} (h : r.Inv) (hs : r.step (.subscribe buffer) = some r') :
    r'.Inv := by
  obtain ⟨hub, hsub, rfl⟩ := Option.map_eq_some_iff.mp hs
  unfold Hub.subscribe at hsub
  split at hsub
  · cases hsub
  next hfree =>
  have hcur := h.current_of_free hfree
  cases hsub
  have hb := h.books
  have hfresh := hb.fresh (r.hub.nextID + 1) (Nat.lt_succ_self _)
  have hnot : r.hub.nextID + 1 ∉ r.hub.subs := fun hmem => by
    obtain ⟨ch, hch, -⟩ := hb.opened _ hmem
    exact hfresh.1 (mem_of_get hch)
  have hevents (id : Nat) : (window id (.subscribed (r.hub.nextID + 1) :: r.history)).events =
      (window id r.history).events := Window.events_add nofun
  have hsame (id : Nat) : (window id (.subscribed (r.hub.nextID + 1) :: r.history)).closed =
      (window id r.history).closed := Window.closed_add nofun
  refine .of_idle hcur ⟨fun id => ?_, fun id => ?_, fun hclosed => ?_, fun id hid => ?_,
    fun id hid => ?_⟩ (Bool.eq_false_iff.mpr hfree) fun id ch hch => ?_
  · exact (hsame id).trans (hb.closed id)
  · show ((window id r.history).add id _).stands = true ↔ _
    simp only [Window.add, hb.closed]
    by_cases hid : r.hub.nextID + 1 = id
    · subst hid
      cases hclosed : r.hub.closed <;> simp [hb.not_stands hnot, hnot]
    · cases hclosed : r.hub.closed <;> simp [hid, Ne.symm hid, hb.stands]
  · have hclosed : r.hub.closed = true := hclosed
    simp [hclosed, hb.empty hclosed]
  · have hid : r.hub.nextID + 1 < id := hid
    obtain ⟨hnone, hnil⟩ := hb.fresh id (by omega)
    exact ⟨by simp [hid.ne', hnone], (hevents id).trans hnil⟩
  · by_cases hne : id = r.hub.nextID + 1
    · subst hne
      refine ⟨_, get_insert_self .., ?_⟩
      cases hclosed : r.hub.closed with
      | false => rfl
      | true => simp [hclosed, hb.empty hclosed] at hid
    · have hmem : id ∈ r.hub.subs := by
        split at hid
        · exact hid
        · exact Finset.mem_of_mem_insert_of_ne hid hne
      obtain ⟨ch, hch, hopen⟩ := hb.opened id hmem
      exact ⟨ch, (get_insert_ne _ _ hne).trans hch, hopen⟩
  · rw [get_insert] at hch
    rw [hevents id]
    split at hch
    · next heq =>
      subst heq
      cases hch
      rw [hfresh.2]
      refine ⟨?_, Nat.zero_le _, List.Sublist.refl [], fun _ => rfl, False.elim⟩
      show 0 < (max buffer 1).toNat
      omega
    · exact h.idle hcur hch

theorem inv_unsubscribe (h : r.Inv) (hs : r.step (.unsubscribe id) = some r') : r'.Inv := by
  unfold step at hs
  dsimp only at hs
  split at hs
  swap
  · cases hs
  obtain ⟨hub, hsub, rfl⟩ := Option.map_eq_some_iff.mp hs
  unfold Hub.unsubscribe at hsub
  split at hsub
  · cases hsub
  next hknown hfree =>
  have hcur := h.current_of_free hfree
  have hb := h.books
  have hevents (id' : Nat) : (window id' (.unsubscribed id :: r.history)).events =
      (window id' r.history).events := Window.events_add nofun
  have hsame (id' : Nat) : (window id' (.unsubscribed id :: r.history)).closed =
      (window id' r.history).closed := Window.closed_add nofun
  have hstands (id' : Nat) : (window id' (.unsubscribed id :: r.history)).stands = true ↔
      id' ∈ r.hub.subs.erase id := by
    show ((window id' r.history).add id' _).stands = true ↔ _
    by_cases hid : id = id'
    · simp [Window.add, hid]
    · simp [Window.add, hid, Ne.symm hid, hb.stands]
  split at hsub
  · cases hsub
    obtain ⟨ch₀, hch₀⟩ := mem_iff.mp hknown
    have hupdate : (r.hub.update id fun ch => { ch with closed := true }) =
        { r.hub with channels := r.hub.channels.insert id { ch₀ with closed := true } } := by
      simp only [Hub.update, hch₀]
    rw [hupdate]
    refine .of_idle hcur ⟨fun id' => ?_, hstands, fun hclosed => ?_, fun id' hid => ?_,
      fun id' hid => ?_⟩ (Bool.eq_false_iff.mpr hfree) fun id' ch hch => ?_
    · exact (hsame id').trans (hb.closed id')
    · simp [hb.empty hclosed]
    · obtain ⟨hnone, hnil⟩ := hb.fresh id' hid
      refine ⟨?_, (hevents id').trans hnil⟩
      have hne : id' ≠ id := fun heq => hnone (heq ▸ hknown)
      simp [hne, hnone]
    · obtain ⟨hne, hmem⟩ := Finset.mem_erase.mp hid
      obtain ⟨ch, hch, hopen⟩ := hb.opened id' hmem
      exact ⟨ch, (get_insert_ne _ _ hne).trans hch, hopen⟩
    · rw [hevents id']
      rw [get_insert] at hch
      split at hch
      · next heq =>
        subst heq
        cases hch
        exact (h.idle hcur hch₀).close
      · exact h.idle hcur hch
  · next hgone =>
    cases hsub
    refine .of_idle hcur ⟨fun id' => ?_, fun id' => ?_, hb.empty, fun id' hid => ?_, hb.opened⟩
      (Bool.eq_false_iff.mpr hfree) fun id' ch hch => ?_
    · exact (hsame id').trans (hb.closed id')
    · rw [hstands id', Finset.erase_eq_of_notMem hgone]
    · exact ⟨(hb.fresh id' hid).1, (hevents id').trans (hb.fresh id' hid).2⟩
    · rw [hevents id']
      exact h.idle hcur hch

theorem inv_receive (h : r.Inv) (hs : r.step (.receive id) = some r') : r'.Inv := by
  obtain ⟨hub, hrecv, rfl⟩ := Option.map_eq_some_iff.mp hs
  unfold Hub.receive at hrecv
  split at hrecv
  · cases hrecv
  next ch₀ hch₀ =>
  split at hrecv
  · cases hrecv
  next e queue hqueue =>
  cases hrecv
  refine ⟨h.books.insert hch₀ rfl, h.locked, h.nodup, h.pending, h.due, fun id' ch hch => ?_⟩
  replace hch : (r.hub.channels.insert id _).get id' = some ch := hch
  rw [get_insert] at hch
  split at hch
  · next heq =>
    subst heq
    cases hch
    exact (h.channels id' ch₀ hch₀).receive hqueue
  · exact h.channels id' ch hch

theorem inv_close (h : r.Inv) (hs : r.step .close = some r') : r'.Inv := by
  obtain ⟨hub, hclose, rfl⟩ := Option.map_eq_some_iff.mp hs
  unfold Hub.close at hclose
  split at hclose
  · cases hclose
  next hfree =>
  have hcur := h.current_of_free hfree
  have hb := h.books
  have hevents (id : Nat) : (window id (.closed :: r.history)).events =
      (window id r.history).events := rfl
  split at hclose
  · next hclosed =>
    cases hclose
    refine .of_idle hcur ⟨fun id => hclosed.symm, fun id => ?_, hb.empty, hb.fresh, hb.opened⟩
      (Bool.eq_false_iff.mpr hfree) fun id ch hch => h.idle hcur hch
    simp [window, Window.add, hb.empty hclosed]
  · cases hclose
    refine .of_idle hcur ⟨fun id => rfl, fun id => ?_, fun _ => rfl, fun id hid => ?_,
      fun id hid => ?_⟩ (Bool.eq_false_iff.mpr hfree) fun id ch hch => ?_
    · simp [window, Window.add]
    · exact ⟨by simpa using (hb.fresh id hid).1, (hb.fresh id hid).2⟩
    · cases Finset.notMem_empty id hid
    · obtain ⟨ch₀, hch₀, rfl⟩ := Option.map_eq_some_iff.mp hch
      show ChannelOK (if id ∈ r.hub.subs then _ else _) _ _
      split
      · exact (h.idle hcur hch₀).close
      · exact h.idle hcur hch₀

/-! ### Publishing -/

/-- On a closed hub no subscription stands, so nothing is due to anybody. -/
theorem inv_publish {order : List Nat} (h : r.Inv) (hs : r.step (.publish e order) = some r') :
    r'.Inv := by
  obtain ⟨⟨hub, phase⟩, hbegin, rfl⟩ := Option.map_eq_some_iff.mp hs
  unfold Hub.publishBegin at hbegin
  split at hbegin
  · cases hbegin
  next hfree =>
  have hcur := h.current_of_free hfree
  have hb := h.books
  have hsame (id : Nat) : (window id (.published e :: r.history)).closed =
      (window id r.history).closed := Window.closed_add nofun
  have hstands (id : Nat) : (window id (.published e :: r.history)).stands =
      (window id r.history).stands := by
    show ((window id r.history).add id _).stands = _
    unfold Window.add
    dsimp only
    split <;> rfl
  have hgone (id : Nat) (hid : id ∉ r.hub.subs) :
      (window id (.published e :: r.history)).events = (window id r.history).events := by
    simp [window, Window.add, hb.not_stands hid]
  have hdue (id : Nat) (hid : id ∈ r.hub.subs) :
      (window id (.published e :: r.history)).events = (window id r.history).events ++ [e] := by
    simp [window, Window.add, (hb.stands id).mpr hid]
  have hbooks : Books r.hub (.published e :: r.history) := by
    refine ⟨fun id => (hsame id).trans (hb.closed id), fun id => ?_, hb.empty, fun id hid => ?_,
      hb.opened⟩
    · rw [hstands id, hb.stands id]
    · obtain ⟨hnone, hnil⟩ := hb.fresh id hid
      refine ⟨hnone, (hgone id fun hmem => ?_).trans hnil⟩
      obtain ⟨ch, hch, -⟩ := hb.opened id hmem
      exact hnone (mem_of_get hch)
  split at hbegin
  · next hclosed =>
    obtain ⟨rfl, rfl⟩ := Prod.mk.inj (Option.some.inj hbegin)
    refine .of_idle rfl hbooks (Bool.eq_false_iff.mpr hfree) fun id ch hch => ?_
    show ChannelOK ch (window id (.published e :: r.history)).events False
    rw [hgone id (by simp [hb.empty hclosed])]
    exact h.idle hcur hch
  split at hbegin
  swap
  · cases hbegin
  next horder =>
  obtain ⟨rfl, rfl⟩ := Prod.mk.inj (Option.some.inj hbegin)
  have hmem {id : Nat} : id ∈ order ↔ id ∈ r.hub.subs := by rw [← horder.2, List.mem_toFinset]
  refine ⟨⟨hbooks.closed, hbooks.stands, hbooks.empty, hbooks.fresh, hbooks.opened⟩, rfl, horder.1,
    fun id hid => hmem.mp hid, fun e' phase hc id hid => ?_, fun id ch hch => ?_⟩
  · obtain ⟨rfl, rfl⟩ := Prod.mk.inj (Option.some.inj hc)
    exact ⟨_, hdue id (hmem.mp hid)⟩
  · refine (h.idle hcur hch).congr ?_ (iff_of_false (fun ⟨_, _, hc⟩ => by cases hc) not_false)
    show (if id ∈ order then _ else _) = _
    split
    · next hid =>
      rw [hdue id (hmem.mp hid), List.dropLast_concat]
    · next hid =>
      exact hgone id (mt hmem.mpr hid)

/-- The event reaches the next subscriber. -/
theorem Inv.push {phase : PublishPhase} {ids : List Nat} (h : r.Inv)
    (hcur : r.current = some (e, phase)) (hpending : phase.pending = id :: ids)
    (hroom : r.hub.hasRoom id = true) :
    Inv { r with hub := r.hub.push id e, current := some (e, .send ids) } := by
  have hwaiting : r.pending = id :: ids := by simp [HubRun.pending, hcur, hpending]
  obtain ⟨hnotin, hnodup⟩ := List.nodup_cons.mp (hwaiting ▸ h.nodup)
  have hsubs : (r.hub.push id e).subs = r.hub.subs := by
    unfold Hub.push Hub.update
    split <;> rfl
  refine ⟨h.books.update id fun _ => rfl, ?_, hnodup, fun id' hid => ?_, fun e' phase' hc => ?_,
    fun id' ch hch => ?_⟩
  · exact (Hub.locked_push ..).trans (h.locked.trans (by rw [hcur]; rfl))
  · rw [hsubs]
    exact h.pending id' (hwaiting ▸ List.mem_cons_of_mem _ hid)
  · obtain ⟨rfl, rfl⟩ := Prod.mk.inj (Option.some.inj hc)
    exact fun id' hid => h.due e phase hcur id' (hpending ▸ List.mem_cons_of_mem _ hid)
  have hdraining : ¬ HubRun.draining { r with
      hub := r.hub.push id e, current := some (e, .send ids) } id' := by
    rintro ⟨_, _, hc⟩
    cases hc
  rcases Hub.get_update hch with ⟨rfl, ch₀, hget, rfl⟩ | ⟨hget, hne⟩
  · obtain ⟨before, hbefore⟩ := h.due e phase hcur id' (hpending ▸ List.mem_cons_self)
    have hlength : ch₀.queue.length < ch₀.capacity := by simpa [Hub.hasRoom, hget] using hroom
    refine ((h.channels id' ch₀ hget).send e hlength).congr ?_ (iff_of_false hdraining not_false)
    show (if id' ∈ ids then _ else _) = r.offered id' ++ [e]
    rw [if_neg hnotin, HubRun.offered, hwaiting, if_pos List.mem_cons_self, hbefore,
      List.dropLast_concat]
  · have hne : id' ≠ id := fun heq => by
      cases hget.symm.trans (heq ▸ hne heq)
    refine (h.channels id' ch hget).congr ?_ (iff_of_false hdraining ?_)
    · show (if id' ∈ ids then _ else _) = if id' ∈ r.pending then _ else _
      simp [hwaiting, hne]
    · rintro ⟨_, _, hc⟩
      obtain ⟨-, rfl⟩ := Prod.mk.inj (Option.some.inj (hcur.symm.trans hc))
      obtain ⟨rfl, -⟩ := List.cons.inj hpending
      exact hne rfl

/-- `publish` goes on with the same subscribers. -/
theorem Inv.same {phase phase' : PublishPhase} {hub : Hub} (h : r.Inv)
    (hcur : r.current = some (e, phase)) (hpending : phase'.pending = phase.pending)
    (hbooks : Books hub r.history) (hlocked : hub.locked = r.hub.locked)
    (hsubs : hub.subs = r.hub.subs) (hchannels : ∀ id ch, hub.channels.get id = some ch →
      ChannelOK ch (r.offered id) (∃ ids, phase' = .resend id ids)) :
    Inv { r with hub, current := some (e, phase') } := by
  have hsame : HubRun.pending { r with hub, current := some (e, phase') } = r.pending := by
    simp [HubRun.pending, hcur, hpending]
  refine ⟨hbooks, ?_, hsame ▸ h.nodup, fun id hid => ?_, fun e' phase'' hc => ?_, fun id ch hch => ?_⟩
  · rw [hlocked, h.locked, hcur]
    rfl
  · rw [hsubs]
    exact h.pending id (hsame ▸ hid)
  · obtain ⟨rfl, rfl⟩ := Prod.mk.inj (Option.some.inj hc)
    exact hpending ▸ h.due e phase hcur
  · refine (hchannels id ch hch).congr ?_ ?_
    · simp only [HubRun.offered, hsame]
    · constructor
      · rintro ⟨e', ids, hc⟩
        exact ⟨ids, (Prod.mk.inj (Option.some.inj hc)).2⟩
      · rintro ⟨ids, rfl⟩
        exact ⟨e, ids, rfl⟩

theorem inv_proceed (h : r.Inv) (hs : r.step .proceed = some r') : r'.Inv := by
  obtain ⟨⟨e, phase⟩, hcur, rfl⟩ := Option.map_eq_some_iff.mp hs
  cases phase with
  | send ids =>
    have hcalm (id : Nat) : ¬ r.draining id := fun ⟨_, _, hc⟩ => by cases hcur.symm.trans hc
    cases ids with
    | nil =>
      have hb := h.books
      refine .of_idle rfl ⟨hb.closed, hb.stands, hb.empty, hb.fresh, hb.opened⟩ rfl
        fun id ch hch => (h.channels id ch hch).congr ?_ (iff_of_false not_false (hcalm id))
      simp [HubRun.offered, HubRun.pending, hcur, PublishPhase.pending]
    | cons id ids =>
      dsimp only [Hub.publishStep]
      split
      · next hroom => exact h.push hcur rfl hroom
      · -- nothing has happened to the channel yet
        refine h.same hcur rfl h.books rfl rfl fun id' ch hch => ?_
        exact (h.channels id' ch hch).congr rfl (iff_of_false (fun ⟨_, hc⟩ => nomatch hc) (hcalm id'))
  | drain id ids =>
    have hcalm (id' : Nat) : ¬ r.draining id' := fun ⟨_, _, hc⟩ => by cases hcur.symm.trans hc
    have hsubs : (r.hub.update id fun ch => { ch with queue := ch.queue.tail }).subs =
        r.hub.subs := by
      unfold Hub.update
      split <;> rfl
    refine h.same hcur rfl (h.books.update id fun _ => rfl) (Hub.locked_update ..) hsubs
      fun id' ch hch => ?_
    rcases Hub.get_update hch with ⟨rfl, ch₀, hget, rfl⟩ | ⟨hget, hne⟩
    · exact (h.channels id' ch₀ hget).drain.congr rfl (iff_of_true ⟨ids, rfl⟩ trivial)
    · refine (h.channels id' ch hget).congr rfl (iff_of_false ?_ (hcalm id'))
      rintro ⟨_, ⟨⟩⟩
      cases hget.symm.trans (hne rfl)
  | resend id ids =>
    -- the channel has lost an event, and nobody but this call puts one in
    have hroom : r.hub.hasRoom id = true := by
      have hid : id ∈ r.pending := by simp [HubRun.pending, hcur, PublishPhase.pending]
      obtain ⟨ch, hch, -⟩ := h.books.opened id (h.pending id hid)
      have hlength := (h.channels id ch hch).room ⟨e, ids, hcur⟩
      simpa [Hub.hasRoom, hch] using hlength
    simp only [Hub.publishStep, hroom, if_true]
    exact h.push hcur rfl hroom

theorem inv_step {op : HubOp} (h : r.Inv) (hs : r.step op = some r') : r'.Inv := by
  cases op with
  | publish e order => exact inv_publish h hs
  | proceed => exact inv_proceed h hs
  | subscribe buffer => exact inv_subscribe h hs
  | unsubscribe id => exact inv_unsubscribe h hs
  | receive id => exact inv_receive h hs
  | close => exact inv_close h hs

theorem inv_initial : Inv {} := by
  refine .of_idle rfl ⟨fun id => rfl, fun id => ?_, fun _ => rfl, fun id _ => ⟨?_, rfl⟩,
    fun id hid => ?_⟩ rfl fun id ch hch => ?_
  · simp [window]
  · exact not_mem_empty id
  · cases Finset.notMem_empty id hid
  · cases hch

/-! ## The guarantee -/

theorem Inv.guarantee (h : r.Inv) (hch : r.hub.channels.get id = some ch) :
    QueueGuarantee r id ch := by
  have hok := h.channels id ch hch
  refine ⟨hok.inOrder.trans ?_, hok.newest, fun hid => ?_, hok.bounded⟩
  · unfold offered
    split
    · exact List.dropLast_sublist _
    · exact .refl _
  · have hnewest := hok.newest fun ⟨e, ids, hc⟩ => hid (by
      simp [HubRun.pending, hc, PublishPhase.pending])
    rwa [offered, if_neg hid] at hnewest

/-- A channel that is sent to or closed is subscribed. -/
theorem Inv.not_faults (h : r.Inv) (op : HubOp) : ¬ r.Faults op := by
  have hopen {id : Nat} (hid : id ∈ r.hub.subs) (hc : r.hub.isClosed id = true) : False := by
    cases (h.books.not_isClosed hid).symm.trans hc
  cases op with
  | publish | subscribe | receive => exact not_false
  | unsubscribe id => exact fun hf => hopen hf.1 hf.2
  | close => exact fun ⟨_, id, hid, hc⟩ => hopen hid hc
  | proceed =>
    intro hf
    unfold Faults at hf
    dsimp only at hf
    split at hf
    · next hcur =>
      exact hopen (h.pending _ (by simp [HubRun.pending, hcur, PublishPhase.pending])) hf
    · next hcur =>
      exact hopen (h.pending _ (by simp [HubRun.pending, hcur, PublishPhase.pending])) hf
    · exact hf

end HubRun

/-- In every run of the hub every subscriber has its guarantee in every state visited, and no step
sends on a closed channel or closes one. -/
theorem hub_queue_guarantee (ops : List HubOp) :
    hubSystem.Visits (fun r => ∀ id ch, r.hub.channels.get id = some ch → QueueGuarantee r id ch)
        {} ops ∧
      hubSystem.Meets (fun r op => ¬ r.Faults op) {} ops := by
  have hstep (r r' : HubRun) (op : HubOp) (h : r.Inv) (hs : hubSystem.step r op = some r') : r'.Inv :=
    HubRun.inv_step h hs
  exact ⟨System.visits_of_invariant hstep (fun r h id ch => h.guarantee) HubRun.inv_initial ops,
    System.meets_of_invariant hstep (fun r op h => h.not_faults op) HubRun.inv_initial ops⟩

end WgoTailscale
