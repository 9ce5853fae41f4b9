import WgoTailscale.Cache
import WgoTailscale.Lib.SliceMemory
import WgoTailscale.Lib.Threads
import WgoTailscale.Sections

/-!
# Confirmations and the stored cache (`confirmation.go`, `cache.go`)

`ConfirmPeer` and `RevokePeerConfirmation` as a machine of their own, one lock operation, one
section under `mu` or one operation of `encodeCache` at a time. The cache that a call stores is a
copy of `c.cache`, but its list of peers is a slice over the same array, which the next call writes
over from the start; here that array is a `SliceMemory`. A call holds `cacheMu` from before its
change until after the store, so nothing is written over while it is still to be encoded
(`ConfirmationsSound`), and the stored blob is the set at the end of the call that stored it
(`stored_confirmations`).
-/

namespace WgoTailscale

open Machine Multiset

/-! ## The machine -/

/-- `Client.cache` and a copy of it: the list of peers is a slice. -/
structure CacheVar extends CacheIdentity where
  confirmedPeerIDs : SliceRef
  deriving DecidableEq

/-- What the variable holds. -/
def CacheVar.record (arrays : SliceMemory String) (cache : CacheVar) : CacheRecord :=
  { cache.toCacheIdentity with confirmedPeerIDs := cache.confirmedPeerIDs.read arrays }

/-- What the calls share. -/
structure Confirmations (β : Type) where
  cacheMu : Bool := false
  arrays : SliceMemory String
  cache : CacheVar
  confirmed : Finset String
  /-- The last blob that `Store` stored without an error. -/
  stored : Option β
  /-- The confirmed set at the end of the call that stored it, once that call has ended. -/
  endSet : Option (Finset String)

/-- The two calls. -/
inductive ConfirmationChange where
  | confirm
  | revoke

/-- The program points of `ConfirmPeer` and `RevokePeerConfirmation` with `storeCache` and
`encodeCache`; the last two carry whether this call has stored a blob. -/
inductive ConfirmFrame (β : Type) where
  | call (change : ConfirmationChange) (id : String)
  | lockCache (change : ConfirmationChange) (id : String)
  | change (change : ConfirmationChange) (id : String)
  | storeCache (cache : CacheVar)
  | sortIDs (cache : CacheVar)
  | compactIDs (cache : CacheVar)
  | marshalCache (cache : CacheVar)
  | store (data : β)
  | reconcilePeers (stored : Bool)
  | unlockCache (stored : Bool)

/-- What a step does not decide: whether the context is done, the client is stopping, the peer is
known; the order in which the map of confirmed peers is ranged over; the room of a new array; and
whether `Store` succeeds. -/
structure ConfirmChoice where
  done : Bool := false
  stopping : Bool := false
  found : Bool := true
  order : List String := []
  room : Nat → Nat := fun _ => 0
  ok : Bool := true

section
variable {β : Type}

/-- May the change be made? -/
def ConfirmationChange.applies (id : String) (found : Bool) (confirmed : Finset String) :
    ConfirmationChange → Prop
  | .confirm => found = true
  | .revoke => id ∈ confirmed

instance (id : String) (found : Bool) (confirmed : Finset String) (change : ConfirmationChange) :
    Decidable (change.applies id found confirmed) :=
  match change with
  | .confirm => inferInstanceAs (Decidable (found = true))
  | .revoke => inferInstanceAs (Decidable (id ∈ confirmed))

/-- The confirmed set after the change. -/
def ConfirmationChange.apply (id : String) (confirmed : Finset String) :
    ConfirmationChange → Finset String
  | .confirm => insert id confirmed
  | .revoke => confirmed.erase id

/-- `syncConfirmedCacheLocked`. -/
def Confirmations.syncConfirmedCache (room : Nat → Nat) (order : List String)
    (s : Confirmations β) : Confirmations β :=
  let (arrays, ids) := SliceRef.appendAll room s.arrays s.cache.confirmedPeerIDs.emptied order
  let (arrays, ids) := ids.rewrite arrays (sortBy compare)
  { s with arrays, cache := { s.cache with confirmedPeerIDs := ids } }

/-- An operation of `encodeCache` on the list of peers of its copy. -/
def Confirmations.rewriteIDs (f : List String → List String) (s : Confirmations β)
    (cache : CacheVar) : Confirmations β × CacheVar :=
  let rewritten := cache.confirmedPeerIDs.rewrite s.arrays f
  ({ s with arrays := rewritten.1 }, { cache with confirmedPeerIDs := rewritten.2 })

/-- One step; `hasStore` says whether there is a `Store` callback. -/
def confirmStep (J : CacheCodec β) (hasStore : Bool) (ch : ConfirmChoice) (s : Confirmations β) :
    ConfirmFrame β → Option (Outcome (Confirmations β) (ConfirmFrame β))
  | .call change id =>
    if ch.done then some { state := s }
    else some { state := s, calls := [.lockCache change id] }
  | .lockCache change id =>
    if s.cacheMu then none
    else some { state := { s with cacheMu := true }, calls := [.change change id] }
  | .change change id =>
    if ch.done ∨ ch.stopping ∨ ¬ change.applies id ch.found s.confirmed then
      some { state := s, calls := [.unlockCache false] }
    else
      let s := { s with confirmed := change.apply id s.confirmed }
      if (ch.order : Multiset String) = s.confirmed.val then
        let s := s.syncConfirmedCache ch.room ch.order
        some { state := s, calls := [.storeCache s.cache] }
      else none
  | .storeCache cache =>
    if hasStore then
      some { state := s, calls := [.sortIDs { cache with version := cacheVersion }] }
    else some { state := s, calls := [.reconcilePeers false] }
  | .sortIDs cache =>
    let (s, cache) := s.rewriteIDs (sortBy compare) cache
    some { state := s, calls := [.compactIDs cache] }
  | .compactIDs cache =>
    let (s, cache) := s.rewriteIDs compact cache
    some { state := s, calls := [.marshalCache cache] }
  | .marshalCache cache =>
    some { state := s, calls := [.store (J.marshal (cache.record s.arrays))] }
  | .store data =>
    if ch.ok then
      some { state := { s with stored := some data, endSet := none },
             calls := [.reconcilePeers true] }
    else some { state := s, calls := [.reconcilePeers false] }
  | .reconcilePeers stored => some { state := s, calls := [.unlockCache stored] }
  | .unlockCache stored =>
    some { state := { s with
      cacheMu := false, endSet := if stored then some s.confirmed else s.endSet } }

/-- The machine; calls are started from outside. -/
def confirmations (J : CacheCodec β) (hasStore : Bool) :
    Machine (Confirmations β) (ConfirmFrame β) ConfirmChoice Empty where
  exec f ch s := confirmStep J hasStore ch s f
  env := nofun
  entry f _ := match f with
    | .call _ _ => true
    | _ => false

/-- The state that `initializeRuntime` leaves: the cache it loaded is in memory and stored. -/
def Confirmations.loaded (J : CacheCodec β) (r : CacheRecord) : Confirmations β where
  arrays := [r.confirmedPeerIDs]
  cache := { r.toCacheIdentity with
    confirmedPeerIDs := { array := some 0, length := r.confirmedPeerIDs.length } }
  confirmed := r.confirmedPeerIDs.toFinset
  stored := some (encodeCache J r)
  endSet := some r.confirmedPeerIDs.toFinset

/-! ## The invariant -/

/-- The frames that hold `cacheMu`. -/
def ConfirmFrame.holds : ConfirmFrame β → Nat
  | .call _ _ | .lockCache _ _ => 0
  | _ => 1

/-- The cache with other confirmed peers. -/
def CacheRecord.confirming (r : CacheRecord) (ids : Finset String) : CacheRecord :=
  { r with confirmedPeerIDs := ascendingIDs ids }

/-- What a call knows at its program points: the copy of the cache is still the cache, and what it
encoded and stored is the confirmed set. -/
def ConfirmFrame.Knows (J : CacheCodec β) (r : CacheRecord) (s : Confirmations β) :
    ConfirmFrame β → Prop
  | .storeCache cache | .sortIDs cache | .compactIDs cache | .marshalCache cache => cache = s.cache
  | .store data => data = J.marshal (r.confirming s.confirmed)
  | .reconcilePeers true | .unlockCache true =>
    s.stored = some (J.marshal (r.confirming s.confirmed))
  | _ => True

/-- The frames of a call that has stored a blob. -/
def ConfirmFrame.hasStored : ConfirmFrame β → Bool
  | .reconcilePeers stored | .unlockCache stored => stored
  | _ => false

/-- What holds between the steps of all calls, for the cache `r` that was loaded. -/
structure ConfirmationsSound (J : CacheCodec β) (r : CacheRecord) (s : Confirmations β)
    (F : Multiset (ConfirmFrame β)) : Prop where
  locked : weightOf ConfirmFrame.holds F = s.cacheMu.toNat
  valid : s.cache.confirmedPeerIDs.Valid s.arrays
  record : s.cache.record s.arrays = r.confirming s.confirmed
  knows : ∀ f ∈ F, f.Knows J r s
  ended : ∀ ids, s.endSet = some ids → s.stored = some (J.marshal (r.confirming ids))
  running : s.endSet = none → ∃ f ∈ F, f.hasStored

variable {J : CacheCodec β} {hasStore : Bool} {nodePublic : NodePublic} {r : CacheRecord}
  {s : Confirmations β} {R : Multiset (ConfirmFrame β)} {f g : ConfirmFrame β}

theorem ConfirmFrame.knows_of_idle (h : f.holds = 0) : f.Knows J r s := by
  cases f with
  | call | lockCache => trivial
  | _ => cases h

theorem ConfirmFrame.hasStored_of_idle (h : f.holds = 0) : f.hasStored = false := by
  cases f with
  | call => rfl
  | lockCache => rfl
  | _ => cases h

theorem CacheRecord.Usable.confirming (h : r.Usable nodePublic) (ids : Finset String) :
    (r.confirming ids).Usable nodePublic :=
  ⟨h.version, h.nodePublic, h.machinePrivate, h.discoPrivate, h.backendLogID,
    pairwise_ascendingIDs ids⟩

/-- A usable cache is encoded as it is. -/
theorem CacheRecord.Usable.encodeCache (h : r.Usable nodePublic) :
    WgoTailscale.encodeCache J r = J.marshal r := by
  rw [WgoTailscale.encodeCache, normalizeIDs_of_ascending h.confirmedPeerIDs, ← h.version]

theorem CacheRecord.Usable.confirming_toFinset (h : r.Usable nodePublic) :
    r.confirming r.confirmedPeerIDs.toFinset = r := by
  rw [CacheRecord.confirming, ascendingIDs_toFinset h.confirmedPeerIDs]

namespace ConfirmationsSound

/-- While a call holds the lock, no other does, so the others know nothing of the state. -/
theorem others_idle (h : ConfirmationsSound J r s (f ::ₘ R)) (hf : f.holds = 1) :
    s.cacheMu = true ∧ ∀ g ∈ R, g.holds = 0 :=
  weight_of_locked h.locked hf

/-- The list of peers of the cache is in ascending order. -/
theorem read_eq (h : ConfirmationsSound J r s R) :
    s.cache.confirmedPeerIDs.read s.arrays = ascendingIDs s.confirmed :=
  congrArg CacheRecord.confirmedPeerIDs h.record

theorem identity (h : ConfirmationsSound J r s R) :
    s.cache.toCacheIdentity = r.toCacheIdentity :=
  congrArg CacheRecord.toCacheIdentity h.record

/-- The call that holds the lock takes a step and keeps the lock. -/
theorem advance (h : ConfirmationsSound J r s (f ::ₘ R)) (hf : f.holds = 1) (hg : g.holds = 1)
    {s' : Confirmations β} (hmu : s'.cacheMu = s.cacheMu)
    (hvalid : s'.cache.confirmedPeerIDs.Valid s'.arrays)
    (hrecord : s'.cache.record s'.arrays = r.confirming s'.confirmed) (hknows : g.Knows J r s')
    (hended : ∀ ids, s'.endSet = some ids → s'.stored = some (J.marshal (r.confirming ids)))
    (hrunning : s'.endSet = none → g.hasStored) : ConfirmationsSound J r s' (g ::ₘ R) := by
  obtain ⟨-, hidle⟩ := h.others_idle hf
  refine ⟨?_, hvalid, hrecord, fun g' hg' => ?_, hended,
    fun hnone => ⟨g, mem_cons_self _ _, hrunning hnone⟩⟩
  · have hlocked := h.locked
    rw [weightOf_cons, hf] at hlocked
    rw [weightOf_cons, hg, hmu, hlocked]
  · rcases mem_cons.mp hg' with rfl | hg'
    · exact hknows
    · exact ConfirmFrame.knows_of_idle (hidle g' hg')

/-- If the last store is not yet settled, it was the call that holds the lock. -/
theorem hasStored (h : ConfirmationsSound J r s (f ::ₘ R)) (hf : f.holds = 1)
    (hnone : s.endSet = none) : f.hasStored := by
  obtain ⟨-, hidle⟩ := h.others_idle hf
  obtain ⟨g, hg, hstored⟩ := h.running hnone
  rcases mem_cons.mp hg with rfl | hg
  · exact hstored
  · rw [ConfirmFrame.hasStored_of_idle (hidle g hg)] at hstored
    cases hstored

/-- It takes a step that changes nothing. -/
theorem goto (h : ConfirmationsSound J r s (f ::ₘ R)) (hf : f.holds = 1) (hg : g.holds = 1)
    (hknows : g.Knows J r s) (hstored : f.hasStored → g.hasStored) :
    ConfirmationsSound J r s (g ::ₘ R) :=
  h.advance hf hg rfl h.valid h.record hknows h.ended fun hnone => hstored (h.hasStored hf hnone)

/-- Calls that do not hold the lock come and go. -/
theorem idle_iff (hf : f.holds = 0) :
    ConfirmationsSound J r s (f ::ₘ R) ↔ ConfirmationsSound J r s R := by
  have hlocked : weightOf ConfirmFrame.holds (f ::ₘ R) =
      weightOf ConfirmFrame.holds R := by
    rw [weightOf_cons, hf, Nat.zero_add]
  constructor
  · intro h
    refine ⟨hlocked ▸ h.locked, h.valid, h.record,
      fun g hg => h.knows g (mem_cons_of_mem hg), h.ended, fun hnone => ?_⟩
    obtain ⟨g, hg, hstored⟩ := h.running hnone
    rcases mem_cons.mp hg with rfl | hg
    · rw [ConfirmFrame.hasStored_of_idle hf] at hstored
      cases hstored
    · exact ⟨g, hg, hstored⟩
  · intro h
    refine ⟨hlocked ▸ h.locked, h.valid, h.record, fun g hg => ?_, h.ended, fun hnone => ?_⟩
    · rcases mem_cons.mp hg with rfl | hg
      · exact ConfirmFrame.knows_of_idle hf
      · exact h.knows g hg
    · obtain ⟨g, hg, hstored⟩ := h.running hnone
      exact ⟨g, mem_cons_of_mem hg, hstored⟩

/-- While the lock is free, no call holds it. -/
theorem free (h : ConfirmationsSound J r s R) (hmu : s.cacheMu = false) : ∀ g ∈ R, g.holds = 0 :=
  weight_of_free h.locked hmu

/-- While the lock is free, the last store is settled. -/
theorem settled (h : ConfirmationsSound J r s R) (hmu : s.cacheMu = false) :
    ∃ ids, s.endSet = some ids := by
  cases hend : s.endSet with
  | some ids => exact ⟨ids, rfl⟩
  | none =>
    obtain ⟨g, hg, hstored⟩ := h.running hend
    rw [ConfirmFrame.hasStored_of_idle (h.free hmu g hg)] at hstored
    cases hstored

/-- `cacheMu` is taken. -/
theorem lock (h : ConfirmationsSound J r s R) (hmu : s.cacheMu = false)
    (change : ConfirmationChange) (id : String) :
    ConfirmationsSound J r { s with cacheMu := true } (.change change id ::ₘ R) := by
  refine ⟨?_, h.valid, h.record, fun g hg => ?_, h.ended, fun hnone => ?_⟩
  · rw [weightOf_cons, h.locked, hmu]
    rfl
  · rcases mem_cons.mp hg with rfl | hg
    · trivial
    · exact ConfirmFrame.knows_of_idle (h.free hmu g hg)
  · obtain ⟨g, hg, hstored⟩ := h.running hnone
    exact ⟨g, mem_cons_of_mem hg, hstored⟩

/-- `cacheMu` is released, and the call ends. -/
theorem unlock {stored : Bool} (h : ConfirmationsSound J r s (.unlockCache stored ::ₘ R)) :
    ConfirmationsSound J r { s with
      cacheMu := false, endSet := if stored then some s.confirmed else s.endSet } R := by
  obtain ⟨hmu, hidle⟩ := h.others_idle rfl
  refine ⟨?_, h.valid, h.record, fun g hg => ConfirmFrame.knows_of_idle (hidle g hg),
    fun ids hids => ?_, fun hnone => ?_⟩
  · have hlocked := h.locked
    rw [hmu, weightOf_cons] at hlocked
    simp only [ConfirmFrame.holds, Bool.toNat_true] at hlocked
    show _ = 0
    omega
  · cases stored with
    | false => exact h.ended ids hids
    | true =>
      cases hids
      exact h.knows _ (mem_cons_self _ _)
  · cases stored with
    | false => cases h.hasStored rfl hnone
    | true => cases hnone

end ConfirmationsSound

/-! ## The list of peers -/

/-- `syncConfirmedCacheLocked` lists the confirmed set, whatever the slice and its array held, and
in whatever order the map is ranged over. -/
theorem read_syncConfirmedCache {order : List String} (room : Nat → Nat)
    (horder : (order : Multiset String) = s.confirmed.val) :
    let s' := s.syncConfirmedCache room order
    s'.cache.confirmedPeerIDs.read s'.arrays = ascendingIDs s.confirmed ∧
      s'.cache.confirmedPeerIDs.Valid s'.arrays := by
  obtain ⟨hread, hvalid⟩ := SliceRef.read_appendAll room order
    (SliceRef.valid_emptied (m := s.arrays) (s := s.cache.confirmedPeerIDs))
  rw [SliceRef.read_emptied, List.nil_append] at hread
  have hlength := SliceRef.length_read hvalid
  have hsort := SliceRef.read_rewrite (f := sortBy compare) hvalid
    (((perm_sortBy _ _).length_eq.trans hlength).le)
  rw [hread, sortBy_listing horder] at hsort
  exact hsort

/-- The list of peers is in ascending order, so sorting and compacting leave it. -/
theorem ConfirmationsSound.unchanged {op : List String → List String}
    (h : ConfirmationsSound J r s R)
    (hop : ∀ ids : List String, ids.Pairwise (· < ·) → op ids = ids) :
    op (s.cache.confirmedPeerIDs.read s.arrays) = s.cache.confirmedPeerIDs.read s.arrays := by
  rw [h.read_eq]
  exact hop _ (pairwise_ascendingIDs _)

/-- An operation of `encodeCache` that leaves such lists changes neither the copy of the cache nor
what the cache holds, though it writes to the array they share. -/
theorem ConfirmationsSound.rewriteIDs {op : List String → List String} {s' : Confirmations β}
    {cache' : CacheVar} (h : ConfirmationsSound J r s (f ::ₘ R)) (hf : f.holds = 1)
    (hstored : f.hasStored = false)
    (hop : ∀ ids : List String, ids.Pairwise (· < ·) → op ids = ids)
    (heq : s.rewriteIDs op s.cache = (s', cache')) :
    cache' = s'.cache ∧ ∀ g : ConfirmFrame β, g.holds = 1 → g.Knows J r s' →
      ConfirmationsSound J r s' (g ::ₘ R) := by
  have hkeep := h.unchanged hop
  have href := SliceRef.rewrite_ref h.valid hkeep
  obtain ⟨hread, hvalid⟩ := SliceRef.read_rewrite (f := op) h.valid
    ((congrArg List.length hkeep).trans (SliceRef.length_read h.valid)).le
  rw [href] at hread hvalid
  rw [Confirmations.rewriteIDs, href] at heq
  obtain ⟨rfl, rfl⟩ := Prod.mk.inj heq
  refine ⟨rfl, fun g hg hknows => h.advance hf hg rfl hvalid ?_ hknows h.ended fun hnone => ?_⟩
  · have hrecord := h.record
    rw [CacheVar.record, ← hkeep, ← hread] at hrecord
    exact hrecord
  · exact absurd (h.hasStored hf hnone) (Bool.eq_false_iff.mp hstored)

/-- The confirmed set is changed and listed. -/
theorem ConfirmationsSound.change (h : ConfirmationsSound J r s (f ::ₘ R)) (hf : f.holds = 1)
    (hstored : f.hasStored = false) {ids : Finset String} {order : List String} (room : Nat → Nat)
    (horder : (order : Multiset String) = ids.val) :
    ConfirmationsSound J r ({ s with confirmed := ids }.syncConfirmedCache room order)
      (.storeCache ({ s with confirmed := ids }.syncConfirmedCache room order).cache ::ₘ R) := by
  obtain ⟨hread, hvalid⟩ := read_syncConfirmedCache (s := { s with confirmed := ids }) room horder
  refine h.advance hf rfl rfl hvalid ?_ rfl h.ended fun hnone => ?_
  · rw [CacheVar.record, hread]
    show ({ s.cache.toCacheIdentity with confirmedPeerIDs := _ } : CacheRecord) = _
    rw [h.identity]
    rfl
  · exact absurd (h.hasStored hf hnone) (Bool.eq_false_iff.mp hstored)

/-- The copy of the cache has the current version already. -/
theorem ConfirmationsSound.version (h : ConfirmationsSound J r s R) (hr : r.Usable nodePublic) :
    { s.cache with version := cacheVersion } = s.cache := by
  have hversion : s.cache.version = cacheVersion :=
    (congrArg CacheIdentity.version h.identity).trans hr.version
  rw [← hversion]

/-! ## Runs -/

/-- Every step keeps the invariant. -/
theorem keeps_confirmationsSound (hr : r.Usable nodePublic) :
    (confirmations J hasStore).Keeps .any (ConfirmationsSound J r) where
  run s f R ch o h hany ho := by
    have ho : confirmStep J hasStore ch s f = some o := ho
    have hknown := h.knows f (mem_cons_self _ _)
    revert ho
    fun_cases confirmStep J hasStore ch s f <;> intro ho <;> cases ho
    case case1 =>
      rw [Outcome.frames_none]
      exact (ConfirmationsSound.idle_iff rfl).mp h
    case case2 =>
      rw [Outcome.frames_call]
      exact (ConfirmationsSound.idle_iff rfl).mpr ((ConfirmationsSound.idle_iff rfl).mp h)
    case case4 change id hmu =>
      rw [Outcome.frames_call]
      exact ((ConfirmationsSound.idle_iff rfl).mp h).lock (Bool.eq_false_iff.mpr hmu) change id
    case case5 =>
      rw [Outcome.frames_call]
      exact h.goto rfl rfl trivial nofun
    case case6 horder _ =>
      rw [Outcome.frames_call]
      exact h.change rfl rfl ch.room horder
    case case8 cache _ =>
      obtain rfl : cache = s.cache := hknown
      rw [Outcome.frames_call, h.version hr]
      exact h.goto rfl rfl rfl nofun
    case case9 =>
      rw [Outcome.frames_call]
      exact h.goto rfl rfl trivial nofun
    case case10 cache s' cache' heq =>
      obtain rfl : cache = s.cache := hknown
      obtain ⟨rfl, hnext⟩ := h.rewriteIDs rfl rfl (fun _ => sortBy_of_ascending) heq
      rw [Outcome.frames_call]
      exact hnext _ rfl rfl
    case case11 cache s' cache' heq =>
      obtain rfl : cache = s.cache := hknown
      obtain ⟨rfl, hnext⟩ := h.rewriteIDs rfl rfl (fun _ => compact_of_ascending) heq
      rw [Outcome.frames_call]
      exact hnext _ rfl rfl
    case case12 cache =>
      obtain rfl : cache = s.cache := hknown
      rw [Outcome.frames_call, h.record]
      exact h.goto rfl rfl rfl nofun
    case case13 data _ =>
      obtain rfl : data = J.marshal (r.confirming s.confirmed) := hknown
      rw [Outcome.frames_call]
      exact h.advance rfl rfl rfl h.valid h.record rfl nofun fun _ => rfl
    case case14 =>
      rw [Outcome.frames_call]
      exact h.goto rfl rfl trivial nofun
    case case15 stored =>
      rw [Outcome.frames_call]
      refine h.goto rfl rfl ?_ id
      cases stored with
      | false => trivial
      | true => exact hknown
    case case16 stored =>
      rw [Outcome.frames_none]
      exact h.unlock
  start s F f h _ hf := by
    cases f with
    | call change id => exact (ConfirmationsSound.idle_iff rfl).mpr h
    | _ => cases hf
  env s s' F e h _ he := nomatch e

/-- It holds once the cache is loaded. -/
theorem confirmationsSound_loaded (hr : r.Usable nodePublic) :
    ConfirmationsSound J r (.loaded J r) 0 where
  locked := rfl
  valid := Nat.le_refl _
  record := by
    refine Eq.trans ?_ hr.confirming_toFinset.symm
    show ({ r.toCacheIdentity with
      confirmedPeerIDs := r.confirmedPeerIDs.take r.confirmedPeerIDs.length } : CacheRecord) = r
    rw [List.take_length]
  knows := nofun
  ended ids hids := by
    cases hids
    rw [hr.confirming_toFinset, Confirmations.loaded, hr.encodeCache]
  running := nofun

/-- In every interleaving of calls, whichever of their stores fail, the blob stored last is loaded
again as the peers that were confirmed at the end of the call that stored it, in ascending order and
each once, with the keys and the backend id of the cache that was first loaded; and that call has
ended whenever `cacheMu` is free. -/
theorem stored_confirmations {load : Option (Except String β)} {random : CacheRandom} {found : Bool}
    (hload : loadOrCreateCache J load nodePublic random = .ok (r, found)) (hasStore : Bool)
    (random' : CacheRandom) (acts : List (Act (ConfirmFrame β) ConfirmChoice Empty)) :
    (confirmations J hasStore).system.Visits (fun cfg =>
      (∀ ids, cfg.shared.endSet = some ids → ∃ blob r', cfg.shared.stored = some blob ∧
        loadOrCreateCache J (some (.ok blob)) nodePublic random' = .ok (r', true) ∧
        r'.confirmedPeerIDs.Pairwise (· < ·) ∧ (∀ id, id ∈ r'.confirmedPeerIDs ↔ id ∈ ids) ∧
        r'.machinePrivate = r.machinePrivate ∧ r'.discoPrivate = r.discoPrivate ∧
        r'.backendLogID = r.backendLogID) ∧
      (cfg.shared.cacheMu = false → cfg.shared.endSet.isSome))
      { shared := .loaded J r } acts := by
  have hr := usable_of_loadOrCreateCache hload
  refine (keeps_confirmationsSound hr).visits (fun cfg h => ⟨fun ids hids => ?_, fun hmu => ?_⟩)
    (confirmationsSound_loaded hr) acts
  · have hback := loadOrCreateCache_encodeCache (J := J) (hr.confirming ids) random'
    rw [(hr.confirming ids).encodeCache] at hback
    exact ⟨_, _, h.ended ids hids, hback, pairwise_ascendingIDs ids, fun _ => mem_ascendingIDs, rfl,
      rfl, rfl⟩
  · obtain ⟨ids, hids⟩ := h.settled hmu
    rw [hids]
    rfl

end

/-- A new cache, in which a peer is confirmed. -/
theorem stored_confirmations_confirm :
    loadOrCreateCache plainCodec none ⟨1⟩ ⟨.ok 2, .ok 3, .ok 4⟩ = .ok (newCache, false) ∧
    ∃ cfg, (confirmations plainCodec true).system.run { shared := .loaded plainCodec newCache }
        [.start (.call .confirm "b"), .run 0 {}, .run 0 {}, .run 0 { order := ["b"] }, .run 0 {},
          .run 0 {}, .run 0 {}, .run 0 {}, .run 0 {}, .run 0 {}, .run 0 {}] = some cfg ∧
      cfg.shared.endSet = some {"b"} ∧ ∃ blob r', cfg.shared.stored = some blob ∧
        loadOrCreateCache plainCodec (some (.ok blob)) ⟨1⟩ ⟨.ok 5, .ok 6, .ok 7⟩ = .ok (r', true) ∧
        "b" ∈ r'.confirmedPeerIDs ∧ r'.machinePrivate = newCache.machinePrivate := by
  have hload :
      loadOrCreateCache plainCodec none ⟨1⟩ ⟨.ok 2, .ok 3, .ok 4⟩ = .ok (newCache, false) := rfl
  have hend : ((confirmations plainCodec true).system.run { shared := .loaded plainCodec newCache }
      [.start (.call .confirm "b"), .run 0 {}, .run 0 {}, .run 0 { order := ["b"] }, .run 0 {},
        .run 0 {}, .run 0 {}, .run 0 {}, .run 0 {}, .run 0 {}, .run 0 {}]).map
      (fun cfg => cfg.shared.endSet) = some (some {"b"}) := by
    decide +kernel
  obtain ⟨cfg, hrun, hend⟩ := Option.map_eq_some_iff.mp hend
  have hvisits acts := stored_confirmations hload true ⟨.ok 5, .ok 6, .ok 7⟩ acts
  obtain ⟨blob, r', hblob, hback, -, hmem, hmachine, -, -⟩ :=
    ((hvisits _).of_run hrun).1 {"b"} hend
  exact ⟨hload, cfg, hrun, hend, blob, r', hblob, hback,
    (hmem "b").mpr (Finset.mem_singleton_self _), hmachine⟩

end WgoTailscale
