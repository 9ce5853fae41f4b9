import WgoTailscale.Client

/-!
# The event hub (`events.go`)

`publish` holds the hub's lock while it offers an event to each subscriber, but subscribers take
events out of their channels without it, so an offer is three steps between which the channel may
have been read: a send, the removal of the oldest event if the channel was full, and a second send.
The main result here, `Delivering.step`, is that whatever a subscriber has received and still has
buffered is at every moment a subsequence of the events published, in order.
-/

namespace WgoTailscale

/-- A subscriber's channel, with what was taken out of it. Both lists have the oldest event first. -/
structure Channel where
  capacity : Nat
  queue : List Event := []
  received : List Event := []
  closed : Bool := false

/-- All events that reached the subscriber or wait for it. -/
def Channel.content (ch : Channel) : List Event := ch.received ++ ch.queue

/-- `eventHub`. `channels` also keeps the channels that are no longer subscribed, and `published`
records the events for which `publish` took the lock. -/
structure Hub where
  locked : Bool := false
  nextID : Nat := 0
  closed : Bool := false
  subs : Finset Nat := ∅
  channels : FinMap Nat Channel := ∅
  published : List Event := []

/-- Where `publish` is in its loop over the subscribers. -/
inductive PublishPhase where
  | send (ids : List Nat)
  | drain (id : Nat) (ids : List Nat)
  | resend (id : Nat) (ids : List Nat)

/-- The subscribers that have not been dealt with. -/
def PublishPhase.pending : PublishPhase → List Nat
  | .send ids => ids
  | .drain id ids | .resend id ids => id :: ids

namespace Hub

/-- Rewrite one channel. -/
def update (h : Hub) (id : Nat) (f : Channel → Channel) : Hub :=
  match h.channels.get id with
  | none => h
  | some ch => { h with channels := h.channels.insert id (f ch) }

/-- May another event be put into the channel? -/
def hasRoom (h : Hub) (id : Nat) : Bool :=
  (h.channels.get id).any fun ch => ch.queue.length < ch.capacity

/-- Put an event into a channel. -/
def push (h : Hub) (id : Nat) (e : Event) : Hub :=
  h.update id fun ch => { ch with queue := ch.queue ++ [e] }

/-- `publish`, up to its loop; `order` is the order in which it visits the subscribers. On a closed
hub it returns at once. -/
def publishBegin (h : Hub) (e : Event) (order : List Nat) : Option (Hub × Option PublishPhase) :=
  if h.locked then none
  else if h.closed then some (h, none)
  else if order.Nodup ∧ order.toFinset = h.subs then
    some ({ h with locked := true, published := h.published ++ [e] }, some (.send order))
  else none

/-- One step of the loop of `publish`, and where it is afterwards. -/
def publishStep (h : Hub) (e : Event) : PublishPhase → Hub × Option PublishPhase
  | .send [] => ({ h with locked := false }, none)
  | .send (id :: ids) =>
    if h.hasRoom id then (h.push id e, some (.send ids)) else (h, some (.drain id ids))
  | .drain id ids =>
    (h.update id fun ch => { ch with queue := ch.queue.tail }, some (.resend id ids))
  | .resend id ids => (if h.hasRoom id then h.push id e else h, some (.send ids))

/-- `subscribe`. -/
def subscribe (h : Hub) (buffer : Int) : Option Hub :=
  if h.locked then none
  else
    let id := h.nextID + 1
    let ch : Channel := { capacity := (max buffer 1).toNat, closed := h.closed }
    some { h with
      nextID := id
      subs := if h.closed then h.subs else insert id h.subs
      channels := h.channels.insert id ch }

/-- The function that `subscribe` returns. -/
def unsubscribe (h : Hub) (id : Nat) : Option Hub :=
  if h.locked then none
  else if id ∈ h.subs then
    some { (h.update id fun ch => { ch with closed := true }) with subs := h.subs.erase id }
  else some h

/-- `close`. -/
def close (h : Hub) : Option Hub :=
  if h.locked then none
  else if h.closed then some h
  else some { h with
    closed := true
    subs := ∅
    channels := h.channels.mapVals fun id ch =>
      if id ∈ h.subs then { ch with closed := true } else ch }

/-- A subscriber takes an event out of its channel. -/
def receive (h : Hub) (id : Nat) : Option Hub :=
  match h.channels.get id with
  | none => none
  | some ch =>
    match ch.queue with
    | [] => none
    | e :: queue =>
      let ch := { ch with queue, received := ch.received ++ [e] }
      some { h with channels := h.channels.insert id ch }

/-! ## The lock -/

theorem locked_push (h : Hub) (id : Nat) (e : Event) : (h.push id e).locked = h.locked := by
  unfold push update
  cases h.channels.get id <;> rfl

variable {h h' : Hub} {e : Event} {order : List Nat} {phase : PublishPhase} {id : Nat}

/-- On a closed hub `publish` does nothing. -/
theorem publishBegin_none (hb : h.publishBegin e order = some (h', none)) : h' = h := by
  unfold publishBegin at hb
  split at hb
  · cases hb
  split at hb
  · exact (Prod.mk.inj (Option.some.inj hb)).1.symm
  split at hb
  · cases hb
  · cases hb

/-- On an open hub `publish` takes the lock. -/
theorem locked_publishBegin (hb : h.publishBegin e order = some (h', some phase)) :
    h.locked = false ∧ h'.locked = true := by
  unfold publishBegin at hb
  split at hb
  · cases hb
  · next hfree =>
    split at hb
    · cases hb
    split at hb
    · obtain ⟨rfl, -⟩ := Prod.mk.inj (Option.some.inj hb)
      exact ⟨Bool.eq_false_iff.mpr hfree, rfl⟩
    · cases hb

/-- `publish` releases the lock when it has visited everyone. -/
theorem locked_publishStep_none (hs : h.publishStep e phase = (h', none)) : h'.locked = false := by
  revert hs
  fun_cases publishStep h e phase <;> intro hs
  · rw [← (Prod.mk.inj hs).1]
  all_goals cases (Prod.mk.inj hs).2

/-- Until then it keeps the lock. -/
theorem locked_publishStep_some {phase' : PublishPhase}
    (hs : h.publishStep e phase = (h', some phase')) : h'.locked = h.locked := by
  revert hs
  fun_cases publishStep h e phase <;> intro hs
  · cases (Prod.mk.inj hs).2
  · rw [← (Prod.mk.inj hs).1, locked_push]
  · rw [← (Prod.mk.inj hs).1]
  · rw [← (Prod.mk.inj hs).1]
    unfold update
    split <;> rfl
  · rw [← (Prod.mk.inj hs).1]
    split
    · exact locked_push ..
    · rfl

/-! ## Delivery -/

/-- Nobody has an event that was not published, or has events in another order. -/
def Delivered (h : Hub) : Prop :=
  ∀ id ch, h.channels.get id = some ch → ch.content.Sublist h.published

/-- The same while `e`, the last event published, is on its way to the subscribers in `pending`. -/
structure Delivering (h : Hub) (e : Event) (pending : List Nat) : Prop where
  last : ∃ before, h.published = before ++ [e] ∧
    ∀ id ∈ pending, ∀ ch, h.channels.get id = some ch → ch.content.Sublist before
  delivered : h.Delivered
  nodup : pending.Nodup

theorem get_update {f : Channel → Channel} {id' : Nat} {ch : Channel}
    (hget : (h.update id f).channels.get id' = some ch) :
    (id' = id ∧ ∃ ch₀, h.channels.get id = some ch₀ ∧ ch = f ch₀) ∨
      (h.channels.get id' = some ch ∧ (id' = id → h.channels.get id = none)) := by
  unfold update at hget
  cases hid : h.channels.get id with
  | none =>
    simp only [hid] at hget
    exact .inr ⟨hget, fun _ => rfl⟩
  | some ch₀ =>
    simp only [hid, FinMap.get_insert] at hget
    split at hget
    · next heq => exact .inl ⟨heq, ch₀, rfl, (Option.some.inj hget).symm⟩
    · next hne => exact .inr ⟨hget, fun heq => absurd heq hne⟩

@[simp] theorem published_update (h : Hub) (id : Nat) (f : Channel → Channel) :
    (h.update id f).published = h.published := by
  unfold update
  cases h.channels.get id <;> rfl

@[simp] theorem locked_update (h : Hub) (id : Nat) (f : Channel → Channel) :
    (h.update id f).locked = h.locked := by
  unfold update
  cases h.channels.get id <;> rfl

/-- Only `publish` takes or releases the lock, publishes, and gives anybody an event. -/
structure Quiet (h h' : Hub) : Prop where
  locked : h'.locked = h.locked
  published : h'.published = h.published
  content : ∀ id ch, h'.channels.get id = some ch → ch.content = [] ∨
    ∃ ch₀, h.channels.get id = some ch₀ ∧ ch.content = ch₀.content

theorem Quiet.refl (h : Hub) : h.Quiet h := ⟨rfl, rfl, fun _ ch hch => .inr ⟨ch, hch, rfl⟩⟩

theorem quiet_close (hc : h.close = some h') : h.Quiet h' := by
  unfold close at hc
  split at hc
  · cases hc
  split at hc
  · rw [← Option.some.inj hc]
    exact .refl h
  · rw [← Option.some.inj hc]
    refine ⟨rfl, rfl, fun id ch hch => ?_⟩
    obtain ⟨ch₀, hget, rfl⟩ := Option.map_eq_some_iff.mp hch
    refine .inr ⟨ch₀, hget, ?_⟩
    dsimp only
    split <;> rfl

theorem quiet_subscribe {buffer : Int} (hs : h.subscribe buffer = some h') : h.Quiet h' := by
  unfold subscribe at hs
  split at hs
  · cases hs
  · rw [← Option.some.inj hs]
    refine ⟨rfl, rfl, fun id ch hch => ?_⟩
    rw [FinMap.get_insert] at hch
    split at hch
    · rw [← Option.some.inj hch]
      exact .inl rfl
    · exact .inr ⟨ch, hch, rfl⟩

theorem quiet_unsubscribe (hs : h.unsubscribe id = some h') : h.Quiet h' := by
  unfold unsubscribe at hs
  split at hs
  · cases hs
  split at hs
  · rw [← Option.some.inj hs]
    refine ⟨locked_update .., published_update .., fun id' ch hch => .inr ?_⟩
    rcases get_update hch with ⟨rfl, ch₀, hget, rfl⟩ | ⟨hget, -⟩
    · exact ⟨ch₀, hget, rfl⟩
    · exact ⟨ch, hget, rfl⟩
  · rw [← Option.some.inj hs]
    exact .refl h

theorem quiet_receive (hs : h.receive id = some h') : h.Quiet h' := by
  unfold receive at hs
  split at hs
  · cases hs
  next ch hget =>
    split at hs
    · cases hs
    next e queue hqueue =>
      rw [← Option.some.inj hs]
      refine ⟨rfl, rfl, fun id' ch' hch => ?_⟩
      rw [FinMap.get_insert] at hch
      split at hch
      · next heq =>
        rw [← Option.some.inj hch]
        refine .inr ⟨ch, heq ▸ hget, ?_⟩
        simp [Channel.content, hqueue]
      · exact .inr ⟨ch', hch, rfl⟩

theorem Quiet.delivered (hq : h.Quiet h') (hd : h.Delivered) : h'.Delivered := by
  intro id ch hch
  rw [hq.published]
  rcases hq.content id ch hch with hnil | ⟨ch₀, hget, heq⟩
  · rw [hnil]
    exact List.nil_sublist _
  · rw [heq]
    exact hd id ch₀ hget

theorem Quiet.delivering {pending : List Nat} (hq : h.Quiet h') (hd : h.Delivering e pending) :
    h'.Delivering e pending := by
  obtain ⟨before, hpub, hbefore⟩ := hd.last
  refine ⟨⟨before, hq.published.trans hpub, fun id hid ch hch => ?_⟩, hq.delivered hd.delivered,
    hd.nodup⟩
  rcases hq.content id ch hch with hnil | ⟨ch₀, hget, heq⟩
  · rw [hnil]
    exact List.nil_sublist _
  · rw [heq]
    exact hbefore id hid ch₀ hget

/-- A channel that only loses events keeps the promise, whoever the event is on its way to. -/
theorem Delivering.update {pending : List Nat} (hd : h.Delivering e pending) (id : Nat)
    {f : Channel → Channel} (hf : ∀ ch, (f ch).content.Sublist ch.content) :
    (h.update id f).Delivering e pending := by
  obtain ⟨before, hpub, hbefore⟩ := hd.last
  refine ⟨⟨before, ?_, fun id' hid' ch hch => ?_⟩, fun id' ch hch => ?_, hd.nodup⟩
  · rw [published_update, hpub]
  · rcases get_update hch with ⟨rfl, ch₀, hget, rfl⟩ | ⟨hget, -⟩
    · exact (hf ch₀).trans (hbefore id' hid' ch₀ hget)
    · exact hbefore id' hid' ch hget
  · rw [published_update]
    rcases get_update hch with ⟨rfl, ch₀, hget, rfl⟩ | ⟨hget, -⟩
    · exact (hf ch₀).trans (hd.delivered id' ch₀ hget)
    · exact hd.delivered id' ch hget

/-- Putting the event into the channel of the next subscriber. -/
theorem Delivering.push {ids : List Nat} (hd : h.Delivering e (id :: ids)) :
    (h.push id e).Delivering e ids := by
  obtain ⟨before, hpub, hbefore⟩ := hd.last
  have hnotin : id ∉ ids := (List.nodup_cons.mp hd.nodup).1
  refine ⟨⟨before, ?_, fun id' hid' ch hch => ?_⟩, fun id' ch hch => ?_,
    (List.nodup_cons.mp hd.nodup).2⟩
  · exact (published_update ..).trans hpub
  · rcases get_update hch with ⟨rfl, -⟩ | ⟨hget, -⟩
    · exact absurd hid' hnotin
    · exact hbefore id' (List.mem_cons_of_mem _ hid') ch hget
  · have hpublished : (h.push id e).published = before ++ [e] := (published_update ..).trans hpub
    rw [hpublished]
    rcases get_update hch with ⟨rfl, ch₀, hget, rfl⟩ | ⟨hget, -⟩
    · rw [Channel.content, ← List.append_assoc]
      exact (hbefore id' List.mem_cons_self ch₀ hget).append (.refl [e])
    · rw [← hpub]
      exact hd.delivered id' ch hget

/-- Passing over a subscriber. -/
theorem Delivering.skip {ids : List Nat} (hd : h.Delivering e (id :: ids)) :
    h.Delivering e ids := by
  obtain ⟨before, hpub, hbefore⟩ := hd.last
  exact ⟨⟨before, hpub, fun id' hid' => hbefore id' (List.mem_cons_of_mem _ hid')⟩, hd.delivered,
    (List.nodup_cons.mp hd.nodup).2⟩

/-- `publish` records its event when it takes the lock, and not again. -/
theorem published_publishStep (h : Hub) (e : Event) (phase : PublishPhase) :
    (h.publishStep e phase).1.published = h.published := by
  fun_cases publishStep h e phase
  · rfl
  · exact published_update ..
  · rfl
  · exact published_update ..
  · show (if _ then _ else _ : Hub).published = _
    split
    · exact published_update ..
    · rfl

/-- One step of `publish`, and the promise once it has released the lock. -/
theorem Delivering.step (hd : h.Delivering e phase.pending) :
    match h.publishStep e phase with
    | (h', none) => h'.Delivered
    | (h', some phase') => h'.Delivering e phase'.pending := by
  cases phase with
  | send ids =>
    cases ids with
    | nil => exact hd.delivered
    | cons id ids =>
      simp only [publishStep]
      split
      · next heq =>
        split at heq
        · cases heq
        · cases heq
      · next h' phase' heq =>
        split at heq
        · obtain ⟨rfl, hphase⟩ := Prod.mk.inj heq
          cases hphase
          exact Delivering.push hd
        · obtain ⟨rfl, hphase⟩ := Prod.mk.inj heq
          cases hphase
          exact hd
  | drain id ids =>
    refine Delivering.update hd id fun ch => ?_
    exact (List.Sublist.refl _).append (List.tail_sublist _)
  | resend id ids =>
    show Delivering _ e ids
    split
    · exact Delivering.push hd
    · exact Delivering.skip hd

theorem Delivered.begin (hd : h.Delivered) (hb : h.publishBegin e order = some (h', some phase)) :
    h'.Delivering e phase.pending ∧ h'.published = h.published ++ [e] ∧ h'.locked = true := by
  unfold publishBegin at hb
  split at hb
  · cases hb
  split at hb
  · cases hb
  split at hb
  · next horder =>
    obtain ⟨rfl, hphase⟩ := Prod.mk.inj (Option.some.inj hb)
    cases hphase
    refine ⟨⟨⟨h.published, rfl, fun id _ ch hch => hd id ch hch⟩, fun id ch hch => ?_, horder.1⟩,
      rfl, rfl⟩
    exact (hd id ch hch).trans (List.sublist_append_left _ _)
  · cases hb

end Hub

end WgoTailscale
