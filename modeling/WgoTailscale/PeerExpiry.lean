import WgoTailscale.PeerUpdates

/-!
# The expiry of peers (`map.go`)

`markNodeExpired` marks a peer as expired once its key expiry has passed. The mark is the field in
which control reports expiry, and only a new copy of the node resets it. So a patch can move the key
expiry of a marked peer into the future and the mark stays.

`peer_expiry_follows_iff` says when the marks follow the key expiries over a run of map responses in
which control sets no mark itself: exactly if no response leaves a marked peer that it does not
replace with a key expiry that has not passed. `patched_expiry_stays` is a run where one does.
-/

namespace WgoTailscale

open FinMap

/-! ## What a response makes of a peer -/

/-- A key expiry has passed at a time. -/
def Due (expiry t : Time) : Prop := expiry ≠ 0 ∧ expiry ≤ t

instance (expiry t : Time) : Decidable (Due expiry t) := inferInstanceAs (Decidable (_ ∧ _))

/-- The patches for a peer, applied to its node. -/
def patchNode (id : Int) (patches : List (Option PeerChange)) (node : Node) : Node :=
  patches.foldl (fun node patch => match patch with
    | some patch => if patch.nodeID = id then applyPeerPatch patch node else node
    | none => node) node

/-- The key expiry that the patches for a peer leave. -/
def patchedExpiry (id : Int) (patches : List (Option PeerChange)) (expiry : Time) : Time :=
  patches.foldl (fun expiry patch => match patch with
    | some patch => if patch.nodeID = id then patch.keyExpiry.getD expiry else expiry
    | none => expiry) expiry

/-- The nodes of a list that are not nil. -/
def present (nodes : Slice (Option Node)) : List Node := (Slice.list nodes).filterMap id

theorem peersOfList_eq_present (nodes : List (Option Node)) :
    peersOfList nodes = (present (some nodes)).foldl filePeer ∅ :=
  peersOfList_eq nodes

/-- The peers that a response lists or leaves. -/
def MapResponse.kept (response : MapResponse) (peers : FinMap Int Node) : FinMap Int Node :=
  ((present response.peersChanged).foldl filePeer
    ((response.peers.map peersOfList).getD peers)).eraseAll (Slice.list response.peersRemoved)

section
variable {response : MapResponse} {peers : FinMap Int Node} {id : Int} {node : Node} {t now : Time}

theorem expired_markNodeExpired :
    (markNodeExpired node t).1.expired = true ↔ node.expired = true ∨ Due node.keyExpiry t := by
  unfold markNodeExpired Due
  split
  · next h =>
    rcases h with hmarked | hzero | hlater
    · simp [hmarked]
    · simp [hzero]
    · simp [not_le.mpr hlater]
  · next h =>
    obtain ⟨-, hzero, hlater⟩ := not_or.mp h |>.imp_right not_or.mp
    exact ⟨fun _ => .inr ⟨hzero, not_lt.mp hlater⟩, fun _ => rfl⟩

theorem keyExpiry_markNodeExpired : (markNodeExpired node t).1.keyExpiry = node.keyExpiry := by
  unfold markNodeExpired
  split <;> rfl

theorem get_foldl_patchPeer (patches : List (Option PeerChange)) (acc : PatchLoop) (id : Int) :
    (patches.foldl patchPeer acc).peers.get id = (acc.peers.get id).map (patchNode id patches) := by
  induction patches generalizing acc with
  | nil => exact Option.map_id'.symm
  | cons patch patches ih =>
    rw [List.foldl_cons, ih]
    cases patch with
    | none => rfl
    | some patch =>
      show Option.map (patchNode id patches) _ =
        Option.map (fun node => patchNode id patches _) (acc.peers.get id)
      unfold patchPeer
      dsimp only
      cases hget : acc.peers.get patch.nodeID with
      | none =>
        by_cases hid : patch.nodeID = id
        · rw [← hid, hget]
          rfl
        · simp only [hid, if_false]
      | some node =>
        by_cases hid : patch.nodeID = id
        · subst hid
          rw [get_insert_self, hget, Option.map_some, Option.map_some, if_pos rfl]
        · rw [get_insert_ne _ _ (Ne.symm hid)]
          simp only [hid, if_false]

theorem expired_patchNode (patches : List (Option PeerChange)) (node : Node) :
    (patchNode id patches node).expired = node.expired := by
  induction patches generalizing node with
  | nil => rfl
  | cons patch patches ih =>
    refine (ih _).trans ?_
    cases patch with
    | none => rfl
    | some patch =>
      dsimp only
      split <;> rfl

theorem keyExpiry_patchNode (patches : List (Option PeerChange)) (node : Node) :
    (patchNode id patches node).keyExpiry = patchedExpiry id patches node.keyExpiry := by
  induction patches generalizing node with
  | nil => rfl
  | cons patch patches ih =>
    refine (ih _).trans ?_
    cases patch with
    | none => rfl
    | some patch =>
      show patchedExpiry id patches _ = patchedExpiry id patches _
      dsimp only
      split <;> rfl

theorem observe_expiry (response : MapResponse) (now : Time) (id : Int) (node : Node) :
    (response.observe now id node).expired = node.expired ∧
      (response.observe now id node).keyExpiry = node.keyExpiry := by
  unfold MapResponse.observe
  split <;> split <;> exact ⟨rfl, rfl⟩

theorem get_peersAfter (response : MapResponse) (now : Time) (peers : FinMap Int Node) (id : Int) :
    (response.peersAfter now peers).get id = ((response.kept peers).get id).map fun node =>
      response.observe now id (patchNode id (Slice.list response.peersChangedPatch) node) := by
  unfold MapResponse.peersAfter MapResponse.kept
  rw [get_mapVals, get_foldl_patchPeer, foldl_removePeerID_eq, foldl_changePeer_eq,
    Option.map_map]
  rfl

/-! ## Who is marked -/

/-- Control marks no peer of the response as expired. -/
def MapResponse.Unmarked (response : MapResponse) : Prop :=
  ∀ node ∈ present response.peers ++ present response.peersChanged, node.expired = false

instance (response : MapResponse) : Decidable response.Unmarked :=
  inferInstanceAs (Decidable (∀ node ∈ _, _))

/-- The response does not replace or remove the peer. -/
structure MapResponse.Spares (response : MapResponse) (id : Int) : Prop where
  full : response.peers = none
  changed : id ∉ (present response.peersChanged).map Node.id
  removed : id ∉ Slice.list response.peersRemoved

theorem MapResponse.Spares.get_kept (h : response.Spares id) (peers : FinMap Int Node) :
    (response.kept peers).get id = peers.get id := by
  unfold MapResponse.kept
  rw [get_eraseAll, if_neg h.removed, get_foldl_filePeer_of_not_mem h.changed, h.full]
  rfl

/-- A peer that is there after the lists is a new one without a mark, or it was there before. -/
theorem MapResponse.Unmarked.kept_cases (h : response.Unmarked)
    (hget : (response.kept peers).get id = some node) :
    node.expired = false ∨ response.Spares id ∧ peers.get id = some node := by
  unfold MapResponse.kept at hget
  rw [get_eraseAll] at hget
  split at hget
  · cases hget
  next hremoved =>
  rcases get_foldl_filePeer_cases hget with ⟨hchanged, hfull⟩ | ⟨n, hn, -, rfl⟩
  · cases hpeers : response.peers with
    | none =>
      rw [hpeers] at hfull
      exact .inr ⟨⟨hpeers, hchanged, hremoved⟩, hfull⟩
    | some nodes =>
      rw [hpeers, Option.map_some, Option.getD_some, peersOfList_eq_present] at hfull
      rcases get_foldl_filePeer_cases hfull with ⟨-, hnone⟩ | ⟨n, hn, -, rfl⟩
      · rw [get_empty] at hnone
        cases hnone
      · rw [← hpeers] at hn
        exact .inl (h n (List.mem_append_left _ hn))
  · exact .inl (h n (List.mem_append_right _ hn))

variable {c : Client}

theorem exists_get_reduceMap (hget : (response.kept c.peers).get id = some node) (now : Time) :
    ∃ node', (reduceMap c response now).client.peers.get id = some node' := by
  rw [peers_reduceMap, get_mapVals, get_peersAfter, hget]
  exact ⟨_, rfl⟩

/-- The mark and the key expiry of a peer after a response. -/
theorem get_reduceMap (hget : (reduceMap c response now).client.peers.get id = some node) :
    ∃ before, (response.kept c.peers).get id = some before ∧
      (node.expired = true ↔ before.expired = true ∨
        Due node.keyExpiry (c.timeFor response now)) ∧
      node.keyExpiry =
        patchedExpiry id (Slice.list response.peersChangedPatch) before.keyExpiry := by
  rw [peers_reduceMap, get_mapVals, get_peersAfter, Option.map_map] at hget
  obtain ⟨before, hbefore, rfl⟩ := Option.map_eq_some_iff.mp hget
  obtain ⟨hexpired, hexpiry⟩ := observe_expiry response now id
    (patchNode id (Slice.list response.peersChangedPatch) before)
  refine ⟨before, hbefore, ?_, ?_⟩
  · rw [Function.comp_apply, expired_markNodeExpired, keyExpiry_markNodeExpired, hexpired,
      expired_patchNode]
  · rw [Function.comp_apply, keyExpiry_markNodeExpired, hexpiry, keyExpiry_patchNode]

theorem peers_receive (h : c.nodeKeyMismatch response = false) :
    (c.receive response now).client.peers =
      (reduceMap c response.effective now).client.peers := by
  rw [Client.receive, if_neg (Bool.eq_false_iff.mp h), peers_applyMapResponse]

end

/-! ## Runs of map responses -/

/-- A map response in which control marks no peer as expired. -/
structure UnmarkedResponse where
  response : MapResponse
  unmarked : response.effective.Unmarked

/-- The client receives map responses at some times. -/
def mapResponses : System Client (UnmarkedResponse × Time) where
  step c a := some (c.receive a.1.response a.2).client

/-- After the response, exactly those peers are marked as expired whose key expiry has passed at the
time that the response is measured against. -/
def MarksFollow (c : Client) (a : UnmarkedResponse × Time) : Prop :=
  c.nodeKeyMismatch a.1.response = false →
    ∀ id node, (c.receive a.1.response a.2).client.peers.get id = some node →
      (node.expired = true ↔ Due node.keyExpiry (c.timeFor a.1.response.effective a.2))

/-- The key expiry of every marked peer that the response does not replace has still passed, after
the patches of the response. -/
def MarksStayDue (c : Client) (a : UnmarkedResponse × Time) : Prop :=
  c.nodeKeyMismatch a.1.response = false →
    ∀ id node, c.peers.get id = some node → node.expired = true →
      a.1.response.effective.Spares id →
      Due (patchedExpiry id (Slice.list a.1.response.effective.peersChangedPatch) node.keyExpiry)
        (c.timeFor a.1.response.effective a.2)

theorem marksFollow_iff (c : Client) (a : UnmarkedResponse × Time) :
    MarksFollow c a ↔ MarksStayDue c a := by
  obtain ⟨⟨response, hunmarked⟩, now⟩ := a
  refine forall_congr' fun hkey => ?_
  rw [peers_receive hkey]
  constructor
  · intro hfollow id node hget hmarked hspares
    rw [← hspares.get_kept c.peers] at hget
    obtain ⟨node', hget'⟩ := exists_get_reduceMap hget now
    obtain ⟨before, hbefore, hexpired, hexpiry⟩ := get_reduceMap hget'
    cases hget.symm.trans hbefore
    rw [← hexpiry]
    exact (hfollow id node' hget').mp (hexpired.mpr (.inl hmarked))
  · intro hstay id node hget
    obtain ⟨before, hbefore, hexpired, hexpiry⟩ := get_reduceMap hget
    refine hexpired.trans (or_iff_right_of_imp fun hmarked => ?_)
    rcases hunmarked.kept_cases hbefore with hfresh | ⟨hspares, hold⟩
    · rw [hfresh] at hmarked
      cases hmarked
    · rw [hexpiry]
      exact hstay id before hold hmarked hspares

/-- Over every run of map responses in which control marks no peer itself, the marks follow the key
expiries after every response exactly if every response leaves the key expiry of every marked peer
that it does not replace passed. -/
theorem peer_expiry_follows_iff (c : Client) (run : List (UnmarkedResponse × Time)) :
    mapResponses.Meets MarksFollow c run ↔ mapResponses.Meets MarksStayDue c run := by
  have hsame : MarksFollow = MarksStayDue :=
    funext fun c => funext fun a => propext (marksFollow_iff c a)
  rw [hsame]

/-- A peer whose key expires at time 10. -/
def expiringPeer : Node := { id := 2, key := ⟨2⟩, name := "peer", keyExpiry := 10 }

/-- The peer is listed when its key has expired, and then control moves the expiry to time 100. -/
def extendedRun : List (UnmarkedResponse × Time) :=
  [(⟨{ peers := some [some expiringPeer] }, by decide⟩, 20),
    (⟨{ peersChangedPatch := some [some { nodeID := 2, keyExpiry := some 100 }] }, by decide⟩, 30)]

/-- The peer after the run. -/
def extendedPeer : Node := { cloneControlNode expiringPeer with keyExpiry := 100, expired := true }

/-- A patch that moves the key expiry into the future does not make the peer publishable again. -/
theorem patched_expiry_stays :
    ¬ mapResponses.Meets MarksFollow sampleClient.shared.client extendedRun ∧
      ∃ c, mapResponses.run sampleClient.shared.client extendedRun = some c ∧
        c.peers.get 2 = some extendedPeer ∧ c.wants extendedPeer = false := by
  refine ⟨fun h => ?_, _, rfl, ?_, ?_⟩
  · obtain ⟨-, hrest⟩ := h _ rfl
    obtain ⟨hfollow, -⟩ := hrest _ rfl
    have hdue := (hfollow (by decide +kernel) 2 extendedPeer (by decide +kernel)).mp rfl
    exact absurd hdue (by decide +kernel)
  · decide +kernel
  · decide +kernel

end WgoTailscale
