import WgoTailscale.BindAddr
import WgoTailscale.Paths

/-!
# What the bind has reported about its paths (`bind.go`, `disco.go`)

`setDirect` and `Send` emit path updates, and the client believes the last one. The bind drops a
direct path without a word when a peer's discovery key changes, when it is opened again and when a
learned address expires. `Reports` keeps the last update of every peer next to the bind, and
`pathReportSystem` runs the bind's operations and `Send` on it.

A peer's last update names a path that the peer still has, in every run whose steps drop no address
that was reported last (`path_reports_current`); a changed discovery key is enough for the client to
be left with an address that the bind has given up (`stale_path_report`).
-/

namespace WgoTailscale

open FinMap

/-! ## The system -/

/-- The bind and the path update it last emitted for each of its peers. -/
structure Reports where
  bind : Bind
  last : FinMap NodePublic PathUpdate := ∅

/-- An operation of the bind, or `Send`. -/
inductive ReportOp where
  | bind (op : BindOp)
  | send (endpoint : LogicalEndpoint) (now : Time) (outcome : SendOutcome)

/-- The path update that an operation emits. -/
def Bind.emits (b : Bind) : BindOp → Option PathUpdate
  | .setDirect node addr latency now =>
    if (b.setDirect node addr latency now).2 then
      some ⟨node, "direct", unmapAddrPort addr, latency, now⟩
    else none
  | _ => none

/-- `emitPath`: the update is the last one of its peer. -/
def emitPath (last : FinMap NodePublic PathUpdate) :
    Option PathUpdate → FinMap NodePublic PathUpdate
  | none => last
  | some update => last.insert update.nodeKey update

/-- A peer that is removed starts afresh when it is admitted again. -/
def forgetPath (last : FinMap NodePublic PathUpdate) : BindOp → FinMap NodePublic PathUpdate
  | .removePeer key => last.erase key
  | _ => last

namespace Reports

/-- One operation. -/
def exec (r : Reports) : ReportOp → Option Reports
  | .bind op => (r.bind.exec op).map fun bind =>
      { bind, last := emitPath (forgetPath r.last op) (r.bind.emits op) }
  | .send endpoint now outcome =>
    let sent := r.bind.send endpoint now outcome
    some { r with last := emitPath r.last (sent.path endpoint.nodeKey now) }

/-- The direct path that was reported last. -/
def direct (r : Reports) (key : NodePublic) : Option AddrPort :=
  ((r.last.get key).filter fun update => update.kind = "direct").map PathUpdate.direct

end Reports

/-- The bind with its reports. -/
def pathReportSystem : System Reports ReportOp := ⟨Reports.exec⟩

/-! ## Reports and paths -/

/-- The address is the peer's direct path or one of its candidates. -/
def PeerState.HasPath (state : PeerState) (a : AddrPort) : Prop :=
  state.direct = a ∨ a ∈ state.candidates

/-- The address is a configured endpoint of the peer, or a learned one that has not expired. -/
def PeerState.Lists (state : PeerState) (now : Time) (a : AddrPort) : Prop :=
  a ∈ state.config.endpoints ∨ (a ∈ state.learned ∧ ¬ Expired state now a)

namespace Reports

/-- A peer whose last update has kind `"direct"` has the path that the update names. -/
def Current (r : Reports) : Prop :=
  ∀ key update state, r.last.get key = some update → update.kind = "direct" →
    r.bind.peers.get key = some state → state.HasPath update.direct

/-- The condition on a step, in the state before it: the address `a` that was reported last is not
dropped. An `UpdatePeer` that changes the peer lists `a` among the endpoints, or keeps the discovery
key while `a` is the direct path; when learned addresses are pruned, `a` is the direct path, an
endpoint or has not expired; when the bind is opened again, `a` is an endpoint or a learned address
that has not expired. -/
def Keeps (r : Reports) : ReportOp → Prop
  | .bind (.updatePeer config) => ∀ state a, r.bind.peers.get config.nodeKey = some state →
      state.config ≠ config.sanitized → r.direct config.nodeKey = some a →
      a ∈ config.sanitized.endpoints ∨
        (state.direct = a ∧ state.config.discoKey = config.discoKey)
  | .bind (.addLearnedCandidates node _ now) | .bind (.pruneLearnedCandidates node now) =>
    ∀ state a, r.bind.peers.get node = some state → r.direct node = some a →
      state.direct = a ∨ state.Lists now a
  | .bind (.openBind listen now _ _) => r.bind.installs listen = true →
    ∀ key state a, r.bind.peers.get key = some state → r.direct key = some a → state.Lists now a
  | _ => True

theorem direct_eq_some {r : Reports} {key : NodePublic} {a : AddrPort} :
    r.direct key = some a ↔
      ∃ update, r.last.get key = some update ∧ update.kind = "direct" ∧ update.direct = a := by
  simp only [direct, Option.map_eq_some_iff, Option.filter_eq_some_iff, decide_eq_true_eq]
  constructor
  · rintro ⟨update, ⟨hget, hkind⟩, rfl⟩
    exact ⟨update, hget, hkind, rfl⟩
  · rintro ⟨update, hget, hkind, rfl⟩
    exact ⟨update, ⟨hget, hkind⟩, rfl⟩

end Reports

/-! ## What the operations do to a peer's paths -/

section
variable {b : Bind} {node key : NodePublic} {addr : AddrPort} {latency : Duration}
variable {state : PeerState} {now : Time} {a : AddrPort}

theorem hasPath_replacedPeer {config : PeerConfig}
    (h : a ∈ config.endpoints ∨ (state.direct = a ∧ state.config.discoKey = config.discoKey)) :
    (replacedPeer state config).HasPath a := by
  unfold replacedPeer PeerState.HasPath
  split
  · next hdropped => exact .inr (h.resolve_right fun hkept => hdropped.2 hkept.2)
  · exact h.symm.imp And.left id

theorem PeerState.Lists.mem_candidates (hwf : PeerWF state) (h : state.Lists now a) :
    a ∈ state.candidates :=
  (hwf.mem_candidates a).mpr (h.imp_right And.left)

theorem PeerState.Lists.mem_prunedPeer (hwf : PeerWF state) (h : state.Lists now a) :
    a ∈ (prunedPeer state now).candidates :=
  ((prunedPeer_wf now hwf).mem_candidates a).mpr (h.imp_right mem_learned_prunedPeer.mpr)

/-- Pruning keeps the direct path and the addresses that have not expired. -/
theorem hasPath_prune (hs : AddrSound b) (hget : b.peers.get key = some state)
    (hpath : state.HasPath a)
    (hkeep : key = node → state.direct = a ∨ state.Lists now a) :
    ∃ state', (b.pruneLearnedCandidates node now).1.peers.get key = some state' ∧
      state'.HasPath a := by
  rcases prune_cases b node now with ⟨heq, -⟩ | ⟨state₀, hget₀, -, hpeers, -⟩
  · rw [heq]
    exact ⟨state, hget, hpath⟩
  · rw [hpeers]
    refine exists_get_insert hget hpath fun hkey => ?_
    subst hkey
    cases hget₀.symm.trans hget
    exact (hkeep rfl).imp id fun h => h.mem_prunedPeer (hs.wf _ _ hget₀)

/-- Learning addresses keeps what the prune before it keeps. -/
theorem hasPath_addLearned {fresh : List AddrPort}
    (hs : AddrSound b) (hget : b.peers.get key = some state) (hpath : state.HasPath a)
    (hkeep : key = node → state.direct = a ∨ state.Lists now a) :
    ∃ state', (b.addLearnedCandidates node fresh now).1.peers.get key = some state' ∧
      state'.HasPath a := by
  obtain ⟨state₁, hget₁, hpath₁⟩ := hasPath_prune hs hget hpath hkeep
  rcases addLearned_cases b node fresh now rfl ((index_prune hs node now).1.wf node) with
    ⟨-, heq⟩ | ⟨state₂, state', hget₂, -, hpeers, -, hdirect, hgrow, -⟩
  · rw [heq]
    exact ⟨state₁, hget₁, hpath₁⟩
  · rw [hpeers]
    refine exists_get_insert hget₁ hpath₁ fun hkey => ?_
    subst hkey
    cases hget₂.symm.trans hget₁
    rcases hpath₁ with hd | hc
    · exact .inl (hdirect.trans hd)
    · exact (hgrow a (.inl hc)).symm.imp And.left id

/-- `setDirect` keeps a peer's paths, or emits the new one. -/
theorem hasPath_setDirect (hget : b.peers.get key = some state) (hpath : state.HasPath a)
    (hquiet : (b.setDirect node addr latency now).2 = false) :
    ∃ state', (b.setDirect node addr latency now).1.peers.get key = some state' ∧
      state'.HasPath a := by
  revert hquiet
  unfold Bind.setDirect
  dsimp only
  split
  · exact fun _ => ⟨state, hget, hpath⟩
  · cases hnode : b.peers.get node with
    | none => exact fun _ => ⟨state, hget, hpath⟩
    | some state₀ =>
      intro hquiet
      have hsame : state₀.direct = unmapAddrPort addr := by
        by_contra hne
        simp [hne] at hquiet
      refine exists_get_insert hget hpath fun hkey => ?_
      subst hkey
      cases hnode.symm.trans hget
      exact hpath.imp_left fun hd => hsame.symm.trans hd

/-- What `setDirect` emits is the peer's direct path. -/
theorem setDirect_emits (h : (b.setDirect node addr latency now).2 = true) :
    ∃ state', (b.setDirect node addr latency now).1.peers.get node = some state' ∧
      state'.direct = unmapAddrPort addr := by
  revert h
  unfold Bind.setDirect
  dsimp only
  split
  · nofun
  · cases b.peers.get node with
    | none => nofun
    | some state₀ =>
      intro _
      rw [get_insert_self]
      exact ⟨_, rfl, rfl⟩

/-- The other peers are the same after `setDirect`. -/
theorem setDirect_other (hne : key ≠ node) :
    (b.setDirect node addr latency now).1.peers.get key = b.peers.get key := by
  rcases setDirect_cases b node addr latency now with ⟨heq, -⟩ | ⟨_, -, -, hpeers, -⟩
  · rw [heq]
  · rw [hpeers, get_insert_ne _ _ hne]

theorem hasPath_probePeer (hget : b.peers.get key = some state) (hpath : state.HasPath a) :
    ∃ state', (b.probePeer node now).1.peers.get key = some state' ∧ state'.HasPath a := by
  unfold Bind.probePeer
  split
  · exact ⟨state, hget, hpath⟩
  · cases hnode : b.peers.get node with
    | none => exact ⟨state, hget, hpath⟩
    | some state₀ =>
      dsimp only
      split
      · exact ⟨state, hget, hpath⟩
      · refine exists_get_insert hget hpath fun hkey => ?_
        subst hkey
        cases hnode.symm.trans hget
        exact hpath

/-! ## Open -/

/-- Pruning keeps what is configured and what has not expired. -/
theorem PeerState.Lists.prunedPeer (h : state.Lists now a) :
    (prunedPeer state now).Lists now a := by
  refine h.imp_right fun hl => ⟨mem_learned_prunedPeer.mpr hl, fun hex => hl.2 ?_⟩
  obtain ⟨t, ht, hexp⟩ := (Option.any_eq_true _ _).mp hex
  change (state.learned.filter fun _ observed => !Bind.expiredAt now observed).get a = some t at ht
  rw [get_filter, Option.filter_eq_some_iff] at ht
  exact (Option.any_eq_true _ _).mpr ⟨t, ht.1, hexp⟩

theorem lists_prune (node : NodePublic) (hget : b.peers.get key = some state)
    (h : state.Lists now a) :
    ∃ state', (b.pruneLearnedCandidates node now).1.peers.get key = some state' ∧
      state'.Lists now a := by
  rcases prune_cases b node now with ⟨heq, -⟩ | ⟨state₀, hget₀, -, hpeers, -⟩
  · rw [heq]
    exact ⟨state, hget, h⟩
  · rw [hpeers]
    refine exists_get_insert hget h fun hkey => ?_
    subst hkey
    cases hget₀.symm.trans hget
    exact h.prunedPeer

theorem lists_reopenPeer (node : NodePublic) (hget : b.peers.get key = some state)
    (h : state.Lists now a) :
    ∃ state', (b.reopenPeer now node).peers.get key = some state' ∧ state'.Lists now a := by
  obtain ⟨state₁, hget₁, h₁⟩ := lists_prune node hget h
  unfold Bind.reopenPeer
  dsimp only
  cases hnode : (b.pruneLearnedCandidates node now).1.peers.get node with
  | none => exact ⟨state₁, hget₁, h₁⟩
  | some state₀ =>
    refine exists_get_insert hget₁ h₁ fun hkey => ?_
    subst hkey
    cases hnode.symm.trans hget₁
    exact h₁

/-- The loop of `Open` keeps what is configured and what has not expired. -/
theorem lists_reopen (order : List NodePublic) (hget : b.peers.get key = some state)
    (h : state.Lists now a) :
    ∃ state', (order.foldl (Bind.reopenPeer now) b).peers.get key = some state' ∧
      state'.Lists now a := by
  induction order generalizing b state with
  | nil => exact ⟨state, hget, h⟩
  | cons node order ih =>
    obtain ⟨state₁, hget₁, h₁⟩ := lists_reopenPeer node hget h
    exact ih hget₁ h₁

/-- `Open` keeps a peer's paths, if it visits the peers those that are configured or have not
expired. -/
theorem hasPath_openBind {listen : Bind.Listen}
    {order : List NodePublic} {interfaces : List String} (hs : AddrSound b)
    (horder : b.peers.Listing order) (hget : b.peers.get key = some state)
    (hpath : state.HasPath a) (hkeep : b.installs listen = true → state.Lists now a) :
    ∃ state', (b.openBind listen now order interfaces).peers.get key = some state' ∧
      state'.HasPath a := by
  have hs' := (openBind_index hs listen now horder interfaces).1
  rcases openBind_cases b listen now order interfaces with
    ⟨-, closed, heq⟩ | ⟨hinstalls, -, conn, localEndpoints, heq⟩
  · rw [heq]
    exact ⟨state, hget, hpath⟩
  · rw [heq] at hs' ⊢
    obtain ⟨state', hget', h⟩ := lists_reopen (b := b.installed conn) order hget (hkeep hinstalls)
    exact ⟨state', hget', .inr (h.mem_candidates (hs'.wf key state' hget'))⟩

end

/-! ## Runs -/

section
variable {r : Reports} {a : AddrPort}

/-- An operation that meets the condition and emits nothing leaves every reported path with its
peer. -/
theorem hasPath_exec {b' : Bind} {op : BindOp} {key : NodePublic} {state state' : PeerState}
    (hs : AddrSound r.bind) (hkeeps : r.Keeps (.bind op)) (hstep : r.bind.exec op = some b')
    (hquiet : r.bind.emits op = none) (hdirect : r.direct key = some a)
    (hget : r.bind.peers.get key = some state) (hpath : state.HasPath a)
    (hget' : b'.peers.get key = some state') : state'.HasPath a := by
  -- it is enough to find the path in the stored peer
  have hof (h : ∃ s, b'.peers.get key = some s ∧ s.HasPath a) : state'.HasPath a := by
    obtain ⟨s, hs, h⟩ := h
    cases hs.symm.trans hget'
    exact h
  refine hof ?_
  cases op with
  | updatePeer config =>
    cases hstep
    rcases updatePeer_cases r.bind config with ⟨-, -, -, heq⟩ | ⟨state₀, hstate, -, heq⟩
    · rw [heq]
      exact ⟨state, hget, hpath⟩
    · rw [heq, replacePeer_peers]
      refine exists_get_insert hget hpath fun hkey => ?_
      subst hkey
      obtain ⟨rfl, hne⟩ := hstate state hget
      exact hasPath_replacedPeer (hkeeps state a hget hne hdirect)
  | removePeer node =>
    cases hstep
    rw [removePeer_peers, get_erase] at hget' ⊢
    split at hget'
    · cases hget'
    · next hne =>
      rw [if_neg hne]
      exact ⟨state, hget, hpath⟩
  | setDirect node addr latency now =>
    cases hstep
    refine hasPath_setDirect hget hpath ?_
    simp only [Bind.emits, ite_eq_right_iff, reduceCtorEq, imp_false, Bool.not_eq_true] at hquiet
    exact hquiet
  | addLearnedCandidates node fresh now =>
    cases hstep
    refine hasPath_addLearned hs hget hpath fun hkey => ?_
    subst hkey
    exact hkeeps state a hget hdirect
  | pruneLearnedCandidates node now =>
    cases hstep
    refine hasPath_prune hs hget hpath fun hkey => ?_
    subst hkey
    exact hkeeps state a hget hdirect
  | openBind listen now order interfaces =>
    rw [Bind.exec] at hstep
    split at hstep
    · next horder =>
      cases hstep
      exact hasPath_openBind hs horder hget hpath fun hinstalls =>
        hkeeps hinstalls key state a hget hdirect
    · cases hstep
  | closeBind =>
    cases hstep
    refine ⟨state, ?_, hpath⟩
    unfold Bind.closeBind
    split <;> exact hget
  | probePeer node now =>
    cases hstep
    exact hasPath_probePeer hget hpath
  | recordPing tx ping =>
    cases hstep
    exact ⟨state, hget, hpath⟩

/-- A known peer is there after an operation, unless the operation removes it. -/
theorem mem_peers_exec {b b' : Bind} {op : BindOp} {key : NodePublic} (hstep : b.exec op = some b')
    (hmem : key ∈ b.peers) (hop : op ≠ .removePeer key) : key ∈ b'.peers := by
  obtain ⟨state, hget⟩ := mem_iff.mp hmem
  by_cases hupdate : ∃ config, op = .updatePeer config
  · obtain ⟨config, rfl⟩ := hupdate
    cases hstep
    rcases updatePeer_cases b config with ⟨-, -, -, heq⟩ | ⟨_, -, -, heq⟩
    · rwa [heq]
    · rw [heq, replacePeer_peers]
      exact mem_insert.mpr (.inr hmem)
  · by_cases hremove : ∃ node, op = .removePeer node
    · obtain ⟨node, rfl⟩ := hremove
      cases hstep
      rw [removePeer_peers]
      refine mem_erase.mpr ⟨fun h => hop (h ▸ rfl), hmem⟩
    · obtain ⟨_, hget', -⟩ := (exec_sameDisco hstep (fun config h => hupdate ⟨config, h⟩)
        fun node h => hremove ⟨node, h⟩).exists_peer hget
      exact mem_of_get hget'

theorem PeerState.firstCandidate_mem {peer : PeerState} {outcome : SendOutcome}
    (h : peer.firstCandidate outcome = some a) : a ∈ peer.candidates :=
  List.mem_of_head? (Option.filter_eq_some_iff.mp h).1

/-- What `Send` emits for a peer as a direct path is one of its candidates. -/
theorem sendPeer_path {b : Bind} {peer : PeerState} {node : NodePublic} {now : Time}
    {outcome : SendOutcome} {update : PathUpdate}
    (h : (b.sendPeer peer now outcome).path node now = some update) :
    update.nodeKey = node ∧ (update.kind = "direct" → update.direct ∈ peer.candidates) := by
  have hfirst (wrap : AddrPort → Sent)
      (hwrap : ∀ a, (wrap a).path node now = some ⟨node, "direct", a, 0, now⟩)
      (h : (((peer.firstCandidate outcome).map wrap).getD .failed).path node now = some update) :
      update.nodeKey = node ∧ (update.kind = "direct" → update.direct ∈ peer.candidates) := by
    cases hc : peer.firstCandidate outcome with
    | none =>
      rw [hc] at h
      cases h
    | some a =>
      rw [hc, Option.map_some, Option.getD_some, hwrap] at h
      cases h
      exact ⟨rfl, fun _ => PeerState.firstCandidate_mem hc⟩
  unfold Bind.sendPeer at h
  dsimp only at h
  generalize (if peer.direct.isValid ∧ 120 * second < now - peer.directAt then AddrPort.zero
    else peer.direct) = direct at h
  split at h
  · cases h
  split at h
  · cases h
  split at h
  · exact hfirst .wireGuardOnly (fun _ => rfl) h
  split at h
  · cases h
    exact ⟨rfl, fun hkind => absurd hkind (by simp)⟩
  · exact hfirst .fallback (fun _ => rfl) h

/-- What `Send` emits is about a peer, and as a direct path it names one of its candidates. -/
theorem send_path {b : Bind} {endpoint : LogicalEndpoint} {now : Time} {outcome : SendOutcome}
    {update : PathUpdate}
    (h : (b.send endpoint now outcome).path endpoint.nodeKey now = some update) :
    ∃ state, b.peers.get update.nodeKey = some state ∧
      (update.kind = "direct" → update.direct ∈ state.candidates) := by
  have hpeer (key : NodePublic) (h : ((b.peers.get key).elim Sent.failed fun peer =>
      b.sendPeer peer now outcome).path key now = some update) :
      ∃ state, b.peers.get update.nodeKey = some state ∧
        (update.kind = "direct" → update.direct ∈ state.candidates) := by
    cases hget : b.peers.get key with
    | none =>
      rw [hget] at h
      cases h
    | some peer =>
      rw [hget] at h
      obtain ⟨hkey, hmem⟩ := sendPeer_path h
      exact ⟨peer, by rw [hkey, hget], hmem⟩
  unfold Bind.send at h
  cases endpoint with
  | node key => exact hpeer key h
  | direct addr =>
    dsimp only at h
    split at h
    · split at h <;> cases h
    · exact hpeer ⟨0⟩ h

end

/-- The reports are about peers of a bind with a sound index, and current. -/
structure ReportsSound (r : Reports) : Prop where
  addr : AddrSound r.bind
  known : ∀ key update, r.last.get key = some update → key ∈ r.bind.peers
  current : r.Current

section
variable {r : Reports}

/-- `Send` reports a path that the peer has. -/
theorem ReportsSound.send (h : ReportsSound r) (endpoint : LogicalEndpoint) (now : Time)
    (outcome : SendOutcome) :
    ReportsSound { r with
      last := emitPath r.last ((r.bind.send endpoint now outcome).path endpoint.nodeKey now) } := by
  cases hpath : (r.bind.send endpoint now outcome).path endpoint.nodeKey now with
  | none => exact h
  | some update =>
    obtain ⟨state, hget, hmem⟩ := send_path hpath
    refine ⟨h.addr, fun key u hu => ?_, fun key u s hu hkind hs => ?_⟩
    · rw [emitPath, get_insert] at hu
      split at hu
      · next hkey => exact hkey ▸ mem_of_get hget
      · exact h.known key u hu
    · rw [emitPath, get_insert] at hu
      split at hu
      · next hkey =>
        subst hkey
        cases hu
        cases hget.symm.trans hs
        exact .inr (hmem hkind)
      · exact h.current key u s hu hkind hs

/-- An operation that emits nothing. -/
theorem ReportsSound.quiet (h : ReportsSound r) {b' : Bind} {op : BindOp}
    (hkeeps : r.Keeps (.bind op)) (hstep : r.bind.exec op = some b')
    (hquiet : r.bind.emits op = none) :
    ReportsSound { bind := b', last := forgetPath r.last op } := by
  have hlast {key : NodePublic} {u : PathUpdate} (hu : (forgetPath r.last op).get key = some u) :
      r.last.get key = some u ∧ op ≠ .removePeer key := by
    cases op with
    | removePeer node =>
      rw [forgetPath, get_erase] at hu
      split at hu
      · cases hu
      · next hne =>
        refine ⟨hu, fun hop => hne ?_⟩
        cases hop
        rfl
    | _ => exact ⟨hu, nofun⟩
  refine ⟨(exec_index h.addr hstep).1, fun key u hu => ?_, fun key u s hu hkind hs => ?_⟩
  · obtain ⟨hold, hop⟩ := hlast hu
    exact mem_peers_exec hstep (h.known key u hold) hop
  · obtain ⟨hold, -⟩ := hlast hu
    obtain ⟨state, hget⟩ := mem_iff.mp (h.known key u hold)
    have hdirect := Reports.direct_eq_some.mpr ⟨u, hold, hkind, rfl⟩
    exact hasPath_exec h.addr hkeeps hstep hquiet hdirect hget
      (h.current key u state hold hkind hget) hs

/-- A `setDirect` that emits the new path. -/
theorem ReportsSound.setDirect (h : ReportsSound r) {node : NodePublic} {addr : AddrPort}
    {latency : Duration} {now : Time} (hflag : (r.bind.setDirect node addr latency now).2 = true) :
    ReportsSound { bind := (r.bind.setDirect node addr latency now).1,
                   last := r.last.insert node
                    ⟨node, "direct", unmapAddrPort addr, latency, now⟩ } := by
  obtain ⟨state', hget', hdirect⟩ := setDirect_emits hflag
  refine ⟨(index_setDirect h.addr node addr latency now).1, fun key u hu => ?_,
    fun key u s hu hkind hs => ?_⟩
  · rw [get_insert] at hu
    split at hu
    · next hkey =>
      subst hkey
      exact mem_of_get hget'
    · next hne => exact (mem_congr (setDirect_other hne)).mpr (h.known key u hu)
  · rw [get_insert] at hu
    split at hu
    · next hkey =>
      subst hkey
      cases hu
      cases hget'.symm.trans hs
      exact .inl hdirect
    · next hne =>
      rw [setDirect_other hne] at hs
      exact h.current key u s hu hkind hs

/-- Every step that meets the condition keeps the reports current. -/
theorem ReportsSound.step (h : ReportsSound r) {r' : Reports} {op : ReportOp} (hkeeps : r.Keeps op)
    (hstep : r.exec op = some r') : ReportsSound r' := by
  cases op with
  | send endpoint now outcome =>
    cases hstep
    exact h.send endpoint now outcome
  | bind op =>
    obtain ⟨b', hexec, rfl⟩ := Option.map_eq_some_iff.mp hstep
    cases hemits : r.bind.emits op with
    | none => exact h.quiet hkeeps hexec hemits
    | some update =>
      cases op with
      | setDirect node addr latency now =>
        cases hexec
        rw [Bind.emits] at hemits
        split at hemits
        · next hflag =>
          cases hemits
          exact h.setDirect hflag
        · cases hemits
      | _ => cases hemits

end

/-- In every run from a new bind whose steps drop no address that was reported last, a peer whose
last path update has kind `"direct"` has the path that the update names, as its direct path or as a
candidate. -/
theorem path_reports_current {cfg : BindConfig} {r : Reports}
    (h : pathReportSystem.Reach Reports.Keeps { bind := newBind cfg } r) : r.Current := by
  have hstep : ∀ r r' op, ReportsSound r → r.Keeps op → r.exec op = some r' → ReportsSound r' :=
    fun _ _ _ hr hkeeps hstep => hr.step hkeeps hstep
  refine (h.invariant (I := ReportsSound) ?_ hstep).current
  refine ⟨addrSound_newBind cfg, fun key update hlast => ?_, fun key update state hlast => ?_⟩
  · cases hlast
  · cases hlast

/-- The configuration of a peer with a discovery key and endpoints. -/
def reportedPeer (discoKey : DiscoPublic) (endpoints : List AddrPort) : PeerConfig where
  nodeKey := ⟨1⟩
  discoKey := discoKey
  endpoints := endpoints
  homeDERP := 0
  wireGuardOnly := false

/-- A peer gets a direct path, which becomes one of its endpoints when its discovery key changes. -/
theorem path_reports_current_rekey :
    ∃ r, pathReportSystem.run { bind := newBind ⟨false, false⟩ }
        [.bind (.updatePeer (reportedPeer ⟨7⟩ [])), .bind (.setDirect ⟨1⟩ ⟨.v4 2, 41641⟩ 0 0),
          .bind (.updatePeer (reportedPeer ⟨8⟩ [⟨.v4 2, 41641⟩]))] = some r ∧ r.Current := by
  have hrun : pathReportSystem.run { bind := newBind ⟨false, false⟩ }
      [.bind (.updatePeer (reportedPeer ⟨7⟩ [])), .bind (.setDirect ⟨1⟩ ⟨.v4 2, 41641⟩ 0 0),
        .bind (.updatePeer (reportedPeer ⟨8⟩ [⟨.v4 2, 41641⟩]))] = some _ := rfl
  refine ⟨_, hrun, path_reports_current (System.reach_of_run hrun ?_)⟩
  rintro r₁ ⟨⟩
  refine ⟨fun state a hget => ?_, ?_⟩
  · cases hget
  rintro r₂ ⟨⟩
  refine ⟨trivial, ?_⟩
  rintro r₃ ⟨⟩
  refine ⟨fun state a hget hne hdirect => .inl ?_, trivial⟩
  cases hdirect
  decide

/-- A peer gets a direct path and then another discovery key. The bind drops the path, and the last
update about the peer still names it. -/
theorem stale_path_report :
    ∃ r update state, pathReportSystem.run { bind := newBind ⟨false, false⟩ }
        [.bind (.updatePeer (reportedPeer ⟨7⟩ [])), .bind (.setDirect ⟨1⟩ ⟨.v4 2, 41641⟩ 0 0),
          .bind (.updatePeer (reportedPeer ⟨8⟩ []))] = some r ∧
      r.last.get ⟨1⟩ = some update ∧ update.kind = "direct" ∧ r.bind.peers.get ⟨1⟩ = some state ∧
      state.direct ≠ update.direct ∧ update.direct ∉ state.candidates :=
  ⟨_, _, _, rfl, rfl, rfl, rfl, by decide, by decide⟩

end WgoTailscale
