import WgoTailscale.Applied
import WgoTailscale.BindDisco

/-!
# Paths from the bind to the device (`bind.go`, `disco.go`)

How the bind finds paths to its peers and what becomes of them: `Send` and `handleDisco` emit path
updates, which reach `onPath` in any order, and `reconcilePeers` publishes peers with a direct path on
wgo's default transport. `pathSystem` runs these together with the program. It records from which
addresses peers were heard, the sources of their authenticated DISCO pings and pongs, and which of
these `setDirect` set.

The published path of a peer that is not WireGuard-only is one that `setDirect` set, unless `Send` fell
back to an address that nobody answered from, or the peer was WireGuard-only when `Send` emitted it
(`default_transport_proven`).
-/

namespace WgoTailscale

open Multiset

/-! ## Sending -/

/-- The outcomes of the writes that `Send` tries: to the direct path, over DERP, and to the first
candidate. -/
structure SendOutcome where
  direct : Bool := true
  derp : Bool := true
  candidate : Bool := true

/-- How `Send` ended. -/
inductive Sent where
  | failed
  | direct
  | derp
  | wireGuardOnly (addr : AddrPort)
  | fallback (addr : AddrPort)
  deriving DecidableEq

/-- The peer that `Send` looks up. -/
def LogicalEndpoint.nodeKey : LogicalEndpoint → NodePublic
  | .node key => key
  | .direct _ => ⟨0⟩

/-- The first candidate, if the write to it succeeds. -/
def PeerState.firstCandidate (peer : PeerState) (outcome : SendOutcome) : Option AddrPort :=
  peer.candidates.head?.filter fun _ => outcome.candidate

/-- `Send` to a peer it knows. -/
def Bind.sendPeer (b : Bind) (peer : PeerState) (now : Time) (outcome : SendOutcome) : Sent :=
  let direct := if peer.direct.isValid ∧ 120 * second < now - peer.directAt then .zero else peer.direct
  if b.isOpen = false then .failed
  else if direct.isValid ∧ outcome.direct then .direct
  else if peer.config.wireGuardOnly then
    ((peer.firstCandidate outcome).map .wireGuardOnly).getD .failed
  else if b.cfg.disableDERP = false ∧ peer.config.homeDERP ≠ 0 ∧ outcome.derp then .derp
  else ((peer.firstCandidate outcome).map .fallback).getD .failed

/-- `Send`. -/
def Bind.send (b : Bind) (endpoint : LogicalEndpoint) (now : Time) (outcome : SendOutcome) : Sent :=
  match endpoint with
  | .direct addr =>
    if addr.isValid then if outcome.direct then .direct else .failed
    else (b.peers.get ⟨0⟩).elim .failed fun peer => b.sendPeer peer now outcome
  | .node key => (b.peers.get key).elim .failed fun peer => b.sendPeer peer now outcome

/-- The path that `Send` emits. -/
def Sent.path (node : NodePublic) (now : Time) : Sent → Option PathUpdate
  | .wireGuardOnly addr | .fallback addr => some ⟨node, "direct", addr, 0, now⟩
  | .derp => some ⟨node, "derp", .zero, 0, now⟩
  | _ => none

/-! ## DISCO messages -/

/-- A DISCO message that proves a path, as it was opened. A ping may name the node it is from. -/
inductive DiscoMessage where
  | ping (claimed : Option NodePublic)
  | pong (tx : TxID)

/-- What `handleDisco` has still to do for a message. -/
inductive DiscoWork where
  | pong (node : NodePublic) (source : AddrPort) (tx : TxID)
  | setDirect (node : NodePublic) (source : AddrPort) (latency : Duration)

/-- The peer the work is for. -/
def DiscoWork.node : DiscoWork → NodePublic
  | .pong node _ _ | .setDirect node _ _ => node

/-- The source of the message. -/
def DiscoWork.source : DiscoWork → AddrPort
  | .pong _ source _ | .setDirect _ source _ => source

/-- `handleDisco` on a datagram with an authenticated message, up to what it does with it. -/
def Bind.handleDisco (b : Bind) (sender : DiscoPublic) (source : AddrPort) (message : DiscoMessage) :
    Option DiscoWork :=
  if b.cfg.disableDiscovery ∨ source.isValid = false then none
  else match b.discoNode sender none with
  | none => none
  | some node => match message with
    | .ping claimed =>
      if claimed.any fun key => key ≠ node then none else some (.setDirect node source 0)
    | .pong tx => some (.pong node source tx)

/-! ## The system -/

/-- The program together with the paths that are under way. -/
structure PathState where
  cfg : Config Sys Frame
  /-- From where peers were heard. -/
  heard : List (NodePublic × AddrPort) := []
  /-- The paths that `setDirect` set. -/
  proven : List (NodePublic × AddrPort) := []
  /-- The peers that `Send` reached as WireGuard-only ones. -/
  wireGuardOnly : List NodePublic := []
  disco : List DiscoWork := []
  emitted : List PathUpdate := []

/-- One step. -/
inductive PathAct where
  | program (a : Act Frame Choice EnvAct)
  /-- A DISCO message arrives. -/
  | receive (sender : DiscoPublic) (source : AddrPort) (message : DiscoMessage)
  /-- `handleDisco` goes on with one of its messages. -/
  | disco (i : Nat) (now : Time)
  | send (endpoint : LogicalEndpoint) (now : Time) (outcome : SendOutcome)
  /-- `OnPath` is called with one of the emitted paths. -/
  | deliver (i : Nat)

/-- The steps of the program that the other actions stand for. -/
def feedsPath : Act Frame Choice EnvAct → Bool
  | .start (.sec (.onPath _)) | .env (.bindOp (.setDirect ..)) => true
  | _ => false

namespace PathState

variable (s : PathState)

/-- The state with another bind. -/
def withBind (b : Bind) : PathState :=
  { s with cfg := { s.cfg with shared := { s.cfg.shared with bind := some b } } }

/-- A path is emitted, or not. -/
def emit (update : Option PathUpdate) : PathState := { s with emitted := update.toList ++ s.emitted }

/-- `handleDisco` on a pong or at its call of `setDirect`. -/
def handle (b : Bind) (now : Time) : DiscoWork → PathState
  | .pong node source tx =>
    match b.pending.get tx with
    | none => s
    | some ping =>
      let s := s.withBind { b with pending := b.pending.erase tx }
      if ping.node = node then
        { s with disco := .setDirect node source (now - ping.sent) :: s.disco }
      else s
  | .setDirect node source latency =>
    let (b, changed) := b.setDirect node source latency now
    let s := s.withBind b
    if changed then
      { s with proven := (node, unmapAddrPort source) :: s.proven }.emit
        (some ⟨node, "direct", unmapAddrPort source, latency, now⟩)
    else s

/-- `Send` has ended. -/
def afterSend (node : NodePublic) (now : Time) (sent : Sent) : PathState :=
  { s.emit (sent.path node now) with
    wireGuardOnly := match sent with
      | .wireGuardOnly _ => node :: s.wireGuardOnly
      | _ => s.wireGuardOnly }

/-- One step. -/
def step : PathAct → Option PathState
  | .program a =>
    if feedsPath a then none else (program.step s.cfg a).map fun cfg => { s with cfg }
  | .receive sender source message =>
    (s.cfg.shared.bind.bind fun b => b.handleDisco sender source message).map fun work =>
      { s with heard := (work.node, unmapAddrPort source) :: s.heard, disco := work :: s.disco }
  | .disco i now =>
    match s.cfg.shared.bind, s.disco[i]? with
    | some b, some work => some ({ s with disco := s.disco.eraseIdx i }.handle b now work)
    | _, _ => none
  | .send endpoint now outcome =>
    s.cfg.shared.bind.map fun b => s.afterSend endpoint.nodeKey now (b.send endpoint now outcome)
  | .deliver i =>
    s.emitted[i]?.bind fun update =>
      (program.step s.cfg (.start (.sec (.onPath update)))).map fun cfg =>
        { s with cfg, emitted := s.emitted.eraseIdx i }

end PathState

/-- The program with the bind's messages and paths. -/
def pathSystem : System PathState PathAct := ⟨PathState.step⟩

/-! ## Proven paths -/

/-- `reconcilePeers` is about to write a peer to the device, or to record it as written. -/
def ReconcilePhase.publishes : ReconcilePhase → Option NodePublic
  | .upsertCall key _ | .apply key _ _ => some key
  | _ => none

/-- Every peer that is published on wgo's default transport, and is not WireGuard-only, was heard from
the address that is published, which was set by `setDirect`. -/
def DefaultProven (s : PathState) : Prop :=
  ∀ r key wanted, .reconciling r ∈ s.cfg.frames → r.phase.publishes = some key →
    r.desired.get key = some wanted → wanted.node.isWireGuardOnly = false →
    (peerEndpoint s.cfg.shared.client.opts wanted).transport = defaultTransportID →
    ∃ addr, (key, addr) ∈ s.heard ∧ (key, addr) ∈ s.proven ∧
      (peerEndpoint s.cfg.shared.client.opts wanted).address = (unmapAddrPort addr).toText

/-- The peers of the client whose keys were reached as WireGuard-only ones are WireGuard-only. -/
def SameKind (wireGuardOnly : List NodePublic) (c : Client) : Prop :=
  ∀ id node, c.peers.get id = some node → node.key ∈ wireGuardOnly → node.isWireGuardOnly = true

/-- `Send` does not fall back to an address that `setDirect` has not set for the peer, and when
`reconcilePeers` takes its snapshot no peer has become an ordinary one under the key of a
WireGuard-only one. -/
def Answered (s : PathState) : PathAct → Prop
  | .send endpoint now outcome => ∀ b addr, s.cfg.shared.bind = some b →
    b.send endpoint now outcome = .fallback addr →
    (endpoint.nodeKey, unmapAddrPort addr) ∈ s.proven
  | .program (.run t _) => ∀ api, s.cfg.top t = some (.reconcileSnapshot api) →
    SameKind s.wireGuardOnly s.cfg.shared.client
  | _ => True

/-! ## Where paths come from -/

/-- An address of a peer that is accounted for: `setDirect` set it, or the peer is WireGuard-only. -/
def Vouched (proven : List (NodePublic × AddrPort)) (wireGuardOnly : List NodePublic)
    (key : NodePublic) (addr : AddrPort) : Prop :=
  (key, addr) ∈ proven ∨ key ∈ wireGuardOnly

section
variable {proven proven' : List (NodePublic × AddrPort)} {wireGuardOnly wireGuardOnly' : List NodePublic}

theorem Vouched.mono {key : NodePublic} {addr : AddrPort} (h : Vouched proven wireGuardOnly key addr)
    (hproven : proven ⊆ proven') (honly : wireGuardOnly ⊆ wireGuardOnly') :
    Vouched proven' wireGuardOnly' key addr :=
  h.imp (@hproven _) (@honly _)

variable (proven wireGuardOnly)

/-- An update that carries a direct path carries one that is accounted for. -/
def UpdateVouched (update : PathUpdate) : Prop :=
  update.kind = "direct" →
    Vouched proven wireGuardOnly update.nodeKey (unmapAddrPort update.direct)

/-- The direct paths of the client are accounted for, those that are delivered to it, and those of the
ordinary peers that `reconcilePeers` works on. -/
structure PathsVouched (s : Sys) (F : Multiset Frame) : Prop where
  localState : ∀ key localState, s.client.peerLocal.get key = some localState →
    localState.path = .direct → Vouched proven wireGuardOnly key localState.direct
  update : ∀ update, .sec (.onPath update) ∈ F → UpdateVouched proven wireGuardOnly update
  wanted : ∀ r key wanted, .reconciling r ∈ F → r.desired.get key = some wanted →
    wanted.path = .direct → wanted.node.isWireGuardOnly = false → (key, wanted.direct) ∈ proven

variable {proven wireGuardOnly}

theorem UpdateVouched.mono {update : PathUpdate} (h : UpdateVouched proven wireGuardOnly update)
    (hproven : proven ⊆ proven') (honly : wireGuardOnly ⊆ wireGuardOnly') :
    UpdateVouched proven' wireGuardOnly' update :=
  fun hkind => (h hkind).mono hproven honly

theorem PathsVouched.mono {s : Sys} {F : Multiset Frame} (h : PathsVouched proven wireGuardOnly s F)
    (hproven : proven ⊆ proven') (honly : wireGuardOnly ⊆ wireGuardOnly') :
    PathsVouched proven' wireGuardOnly' s F where
  localState key localState hget hpath := (h.localState key localState hget hpath).mono hproven honly
  update update hmem := (h.update update hmem).mono hproven honly
  wanted r key wanted hr hget hpath hkind := hproven (h.wanted r key wanted hr hget hpath hkind)

end

/-! ## Sections -/

section
variable (c : Client) (now : Time)

/-- The direct paths that a client has after a section, it had before or was told of. -/
def PathFrom (x : Section) (c' : Client) : Prop :=
  ∀ key localState', c'.peerLocal.get key = some localState' → localState'.path = .direct →
    (∃ localState, c.peerLocal.get key = some localState ∧ localState.path = .direct ∧
      localState'.direct = localState.direct) ∨
    ∃ update, x = .onPath update ∧ update.nodeKey = key ∧ update.kind = "direct" ∧
      localState'.direct = unmapAddrPort update.direct

variable {c now}

/-- A local state with a direct path is stored. -/
theorem kept_of_getD {key : NodePublic}
    (h : ((c.peerLocal.get key).getD {}).path = .direct) :
    ∃ localState, c.peerLocal.get key = some localState ∧ localState.path = .direct ∧
      ((c.peerLocal.get key).getD {}).direct = localState.direct := by
  cases hold : c.peerLocal.get key with
  | none =>
    rw [hold] at h
    cases h
  | some old =>
    rw [hold] at h
    exact ⟨old, rfl, h, rfl⟩

theorem pathFrom_run (x : Section) : PathFrom c x (x.run c now).client := by
  intro key localState' hget hpath
  have hstep := localStep_run c now x key
  rw [hget] at hstep
  generalize (x.run c now).client.applied.get key = applied at hstep
  generalize hsome : some localState' = after at hstep
  cases hstep with
  | same => exact .inl ⟨localState', hsome.symm, hpath, rfl⟩
  | failed | published =>
    cases hsome
    exact .inl (kept_of_getD hpath)
  | takenOver =>
    obtain ⟨old, hold, rfl⟩ := Option.map_eq_some_iff.mp hsome.symm
    exact .inl ⟨old, hold, hpath, rfl⟩
  | removed => cases hsome
  | path update hkey =>
    cases hsome
    obtain ⟨-, hdirect, hset⟩ := updatePath_sets now ((c.peerLocal.get key).getD {})
      { update with direct := unmapAddrPort update.direct }
    rw [hset] at hpath
    split at hpath
    · next hkind => exact .inr ⟨update, rfl, hkey, hkind, hdirect⟩
    · cases hpath
  | recovered snapshot hold hstale =>
    cases hsome
    exact .inl ⟨_, hold, hpath, rfl⟩
  | cleared =>
    obtain ⟨old, -, rfl⟩ := Option.map_eq_some_iff.mp hsome.symm
    cases hpath

end

/-! ## The program -/

section
variable {proven : List (NodePublic × AddrPort)} {wireGuardOnly : List NodePublic}

/-- A snapshot wants ordinary peers only with proven paths. -/
theorem PathsVouched.snapshot {s : Sys} {F : Multiset Frame}
    (h : PathsVouched proven wireGuardOnly s F) (hkind : SameKind wireGuardOnly s.client)
    {order : List Int} {key : NodePublic} {wanted : DesiredPeer}
    (hget : (s.client.desired order).get key = some wanted) (hpath : wanted.path = .direct)
    (hordinary : wanted.node.isWireGuardOnly = false) : (key, wanted.direct) ∈ proven := by
  obtain ⟨id, node, hnode, -, rfl, rfl⟩ := wanted_of_desired hget
  have hpath : ((s.client.peerLocal.get node.key).getD {}).path = .direct := hpath
  show (node.key, ((s.client.peerLocal.get node.key).getD {}).direct) ∈ proven
  have hordinary : node.isWireGuardOnly = false := hordinary
  cases hlocal : s.client.peerLocal.get node.key with
  | none =>
    rw [hlocal] at hpath
    cases hpath
  | some localState =>
    rw [hlocal] at hpath
    refine (h.localState _ _ hlocal hpath).resolve_right fun honly => ?_
    rw [hkind id node hnode honly] at hordinary
    cases hordinary

theorem keeps_pathsVouched : program.Keeps
    { run := fun s f _ _ => ∀ api, f = .reconcileSnapshot api → SameKind wireGuardOnly s.client
      start := fun _ f => ∀ update, f ≠ .sec (.onPath update) } (PathsVouched proven wireGuardOnly) where
  run s f R ch o h hp ho := by
    obtain ⟨e, he, rfl⟩ := Option.map_eq_some_iff.mp ho
    have htraced := traced_effect he
    refine ⟨fun key localState' hget hpath => ?_, fun update hmem => ?_,
      fun r key wanted hr hget hpath hordinary => ?_⟩
    · rcases done_cases e ch.now s.client with ⟨-, hdone⟩ | ⟨x, hx, hdone⟩
      · rw [show (e.apply ch.now s).state.client = s.client from congrArg Done.client hdone] at hget
        exact h.localState key localState' hget hpath
      · rw [show (e.apply ch.now s).state.client = (x.run s.client ch.now).client from
          congrArg Done.client hdone] at hget
        rcases pathFrom_run x key localState' hget hpath with
          ⟨localState, hold, hpath', hdirect⟩ | ⟨update, rfl, rfl, hkind, hdirect⟩
        · rw [hdirect]
          exact h.localState key localState hold hpath'
        · -- the frame is the delivery of the update
          have hf : f = .sec (.onPath update) := (htraced.sec _ hx).resolve_right id
          subst hf
          rw [hdirect]
          exact h.update update (mem_cons_self _ _) hkind
    · rcases mem_or_from he hmem rfl with hold | hfrom
      · exact h.update update (mem_cons_of_mem hold)
      · rcases hfrom with ⟨hruntime, -⟩ | ⟨id, -, heq⟩ | ⟨id, -, heq⟩
        · cases hruntime
        · cases heq
        · cases heq
    · rcases reconciling_cases he hr with ⟨r', hr', hdesired⟩ | ⟨api, hf, hdesired⟩
      · exact h.wanted r' key wanted hr' (hdesired ▸ hget) hpath hordinary
      · exact h.snapshot (hp api hf) (hdesired ▸ hget) hpath hordinary
  start s F f h hp hf := by
    refine ⟨h.localState, fun update hmem => ?_, fun r key wanted hr => ?_⟩
    · rcases mem_cons.mp hmem with rfl | hold
      · exact absurd rfl (hp update)
      · exact h.update update hold
    · rcases mem_cons.mp hr with rfl | hold
      · cases hf
      · exact h.wanted r key wanted hold
  env s s' F a h _ ha := by
    refine ⟨?_, h.update, h.wanted⟩
    rw [(envStep ha).client]
    exact h.localState

end

/-! ## The system -/

/-- Every path that is under way is accounted for. -/
structure PathState.Sound (opts : Options) (s : PathState) : Prop where
  opts : s.cfg.shared.client.opts = opts
  vouched : PathsVouched s.proven s.wireGuardOnly s.cfg.shared s.cfg.frames
  emitted : ∀ update ∈ s.emitted, UpdateVouched s.proven s.wireGuardOnly update
  disco : ∀ work ∈ s.disco, (work.node, unmapAddrPort work.source) ∈ s.heard
  proven : s.proven ⊆ s.heard

section
variable {opts : Options} {s s' : PathState}

/-- Another bind changes nothing of it. -/
theorem PathState.Sound.withBind (h : s.Sound opts) (b : Bind) : (s.withBind b).Sound opts :=
  ⟨h.opts, ⟨h.vouched.localState, h.vouched.update, h.vouched.wanted⟩, h.emitted, h.disco, h.proven⟩

theorem PathState.Sound.emit (h : s.Sound opts) {update : Option PathUpdate}
    (hupdate : ∀ u, update = some u → UpdateVouched s.proven s.wireGuardOnly u) :
    (s.emit update).Sound opts := by
  refine ⟨h.opts, h.vouched, fun u hu => ?_, h.disco, h.proven⟩
  rcases List.mem_append.mp hu with hnew | hold
  · exact hupdate u (Option.mem_toList.mp hnew)
  · exact h.emitted u hold

/-- A step of the program, or the delivery of a path. -/
theorem PathState.Sound.program (h : s.Sound opts) {cfg : Config Sys Frame}
    {a : Act Frame Choice EnvAct} (hstep : program.step s.cfg a = some cfg)
    (hvouched : PathsVouched s.proven s.wireGuardOnly cfg.shared cfg.frames) :
    PathState.Sound opts { s with cfg } := by
  exact ⟨(keeps_opts opts .any).step hstep h.opts, hvouched, h.emitted, h.disco, h.proven⟩

/-- `setDirect` sets a path from which the peer was heard. -/
theorem PathState.Sound.prove (h : s.Sound opts) {path : NodePublic × AddrPort} (hpath : path ∈ s.heard) :
    PathState.Sound opts { s with proven := path :: s.proven } := by
  have hproven : s.proven ⊆ path :: s.proven := List.subset_cons_self _ _
  exact ⟨h.opts, h.vouched.mono hproven (List.Subset.refl _),
    fun u hu => (h.emitted u hu).mono hproven (List.Subset.refl _), h.disco,
    List.cons_subset.mpr ⟨hpath, h.proven⟩⟩

theorem PathState.Sound.handle (h : s.Sound opts) {b : Bind} {now : Time} {work : DiscoWork}
    (hwork : (work.node, unmapAddrPort work.source) ∈ s.heard) : (s.handle b now work).Sound opts := by
  cases work with
  | pong node source tx =>
    unfold PathState.handle
    dsimp only
    split
    · exact h
    · split
      · refine ⟨h.opts, (h.withBind _).vouched, h.emitted, fun work hmem => ?_, h.proven⟩
        rcases List.mem_cons.mp hmem with rfl | hold
        · exact hwork
        · exact h.disco work hold
      · exact h.withBind _
  | setDirect node source latency =>
    dsimp only [PathState.handle]
    have hbind := h.withBind (b.setDirect node source latency now).1
    split
    · refine (hbind.prove hwork).emit fun update hupdate => ?_
      cases hupdate
      refine fun _ => .inl ?_
      show (node, unmapAddrPort (unmapAddrPort source)) ∈ _ :: s.proven
      rw [unmapAddrPort_unmapAddrPort]
      exact List.mem_cons_self
    · exact hbind

/-- The work for a message is about its source. -/
theorem source_handleDisco {b : Bind} {sender : DiscoPublic} {source : AddrPort}
    {message : DiscoMessage} {work : DiscoWork}
    (h : b.handleDisco sender source message = some work) : work.source = source := by
  unfold Bind.handleDisco at h
  repeat' split at h
  all_goals cases h
  all_goals rfl

/-- `Send` under way: what it emits, and whom it reached as WireGuard-only. -/
theorem PathState.Sound.send (h : s.Sound opts) {node : NodePublic} {now : Time} {sent : Sent}
    (hanswered : ∀ addr, sent = .fallback addr → (node, unmapAddrPort addr) ∈ s.proven) :
    PathState.Sound opts (s.afterSend node now sent) := by
  have hgrown (only : List NodePublic) (honly : s.wireGuardOnly ⊆ only) {update : Option PathUpdate}
      (hupdate : ∀ u, update = some u → UpdateVouched s.proven only u) :
      PathState.Sound opts { s.emit update with wireGuardOnly := only } := by
    refine ⟨h.opts, h.vouched.mono (List.Subset.refl _) honly, fun u hu => ?_, h.disco, h.proven⟩
    rcases List.mem_append.mp hu with hnew | hold
    · exact hupdate u (Option.mem_toList.mp hnew)
    · exact (h.emitted u hold).mono (List.Subset.refl _) honly
  cases sent with
  | failed | direct => exact hgrown _ (List.Subset.refl _) nofun
  | derp =>
    refine hgrown _ (List.Subset.refl _) fun u hu => ?_
    cases hu
    exact fun hkind => absurd (show "derp" = "direct" from hkind) (by decide)
  | wireGuardOnly addr =>
    refine hgrown _ (List.subset_cons_self _ _) fun u hu => ?_
    cases hu
    exact fun _ => .inr List.mem_cons_self
  | fallback addr =>
    refine hgrown _ (List.Subset.refl _) fun u hu => ?_
    cases hu
    exact fun _ => .inl (hanswered addr rfl)

theorem sound_step {a : PathAct} (h : s.Sound opts) (ha : Answered s a) (hs : s.step a = some s') :
    s'.Sound opts := by
  cases a with
  | program a =>
    dsimp only [PathState.step] at hs
    split at hs
    · cases hs
    next hfeeds =>
    obtain ⟨cfg, hstep, rfl⟩ := Option.map_eq_some_iff.mp hs
    refine h.program hstep (keeps_pathsVouched.invariant (.step .refl ?_ hstep) h.vouched)
    cases a with
    | run t ch => exact fun f hf api hsnapshot => ha api (hf.trans (congrArg some hsnapshot))
    | start f =>
      rintro update rfl
      exact hfeeds rfl
    | env e => trivial
  | receive sender source message =>
    obtain ⟨work, hwork, rfl⟩ := Option.map_eq_some_iff.mp hs
    obtain ⟨b, -, hwork⟩ := Option.bind_eq_some_iff.mp hwork
    have hheard : s.heard ⊆ (work.node, unmapAddrPort source) :: s.heard := List.subset_cons_self _ _
    refine ⟨h.opts, h.vouched, h.emitted, fun work' hmem => ?_, fun _ hmem => hheard (h.proven hmem)⟩
    rcases List.mem_cons.mp hmem with rfl | hold
    · rw [source_handleDisco hwork]
      exact List.mem_cons_self
    · exact hheard (h.disco work' hold)
  | disco i now =>
    dsimp only [PathState.step] at hs
    split at hs
    · next b work hb hwork =>
      cases hs
      have herased : PathState.Sound opts { s with disco := s.disco.eraseIdx i } :=
        ⟨h.opts, h.vouched, h.emitted,
          fun work' hmem => h.disco work' (List.mem_of_mem_eraseIdx hmem), h.proven⟩
      exact herased.handle (h.disco work (List.mem_of_getElem? hwork))
    · cases hs
  | send endpoint now outcome =>
    obtain ⟨b, hb, rfl⟩ := Option.map_eq_some_iff.mp hs
    exact h.send fun addr hsent => ha b addr hb hsent
  | deliver i =>
    obtain ⟨update, hupdate, hs⟩ := Option.bind_eq_some_iff.mp hs
    obtain ⟨cfg, hstep, rfl⟩ := Option.map_eq_some_iff.mp hs
    have hvouched := h.emitted update (List.mem_of_getElem? hupdate)
    have hnext : PathsVouched s.proven s.wireGuardOnly cfg.shared cfg.frames := by
      rcases Machine.step_cases hstep with ⟨t, ch, f, o, heq, -⟩ | ⟨f, heq, -, rfl⟩ | ⟨e, s', heq, -⟩
      · cases heq
      · cases heq
        rw [Machine.frames_start]
        refine ⟨h.vouched.localState, fun u hmem => ?_, fun r key wanted hr => ?_⟩
        · rcases mem_cons.mp hmem with heq | hold
          · cases heq
            exact hvouched
          · exact h.vouched.update u hold
        · rcases mem_cons.mp hr with heq | hold
          · cases heq
          · exact h.vouched.wanted r key wanted hold
      · cases heq
    have hsound := h.program hstep hnext
    exact ⟨hsound.opts, hsound.vouched,
      fun u hu => h.emitted u (List.mem_of_mem_eraseIdx hu), h.disco, h.proven⟩

/-- With DERP, only a direct path puts an ordinary peer on wgo's default transport. -/
theorem path_of_default {wanted : DesiredPeer} (hderp : opts.disableDERP = false)
    (hordinary : wanted.node.isWireGuardOnly = false)
    (h : (peerEndpoint opts wanted).transport = defaultTransportID) :
    wanted.path = .direct ∧
      (peerEndpoint opts wanted).address = (unmapAddrPort wanted.direct).toText := by
  have hnamed {address : String} (h : (⟨opts.transportID, address⟩ : PeerEndpoint).transport =
      defaultTransportID) : False := opts.transportID_ne h
  unfold peerEndpoint at h ⊢
  split
  · next hdefault =>
    rw [if_pos hdefault] at h
    split
    · next hrecovery =>
      rw [if_pos hrecovery] at h
      exact (hnamed h).elim
    · next hrecovery =>
      rw [if_neg hrecovery] at h
      split
      · next hpath => exact ⟨hpath.1, rfl⟩
      · next hpath =>
        rw [if_neg hpath, if_neg (by simp [hordinary, hderp])] at h
        exact (hnamed h).elim
  · next hdefault =>
    rw [if_neg hdefault] at h
    exact (hnamed h).elim

end

/-- With DERP enabled, as long as `Send` only falls back to addresses that `setDirect` has set and no key
of a WireGuard-only peer becomes that of an ordinary one, an ordinary peer is published on wgo's default
transport only with an address that was the source of one of its DISCO pings or pongs. -/
theorem default_transport_proven {opts : Options} {privateKey : Option PrivateKey} {s : PathState}
    (hderp : opts.disableDERP = false)
    (h : pathSystem.Reach Answered { cfg := initial opts privateKey } s) : DefaultProven s := by
  have hinit : PathState.Sound opts { cfg := initial opts privateKey } :=
    ⟨rfl, ⟨fun _ _ hget => absurd hget (by simp [initial]), fun _ hmem => absurd hmem (notMem_zero _),
      fun _ _ _ hr => absurd hr (notMem_zero _)⟩, nofun, nofun, List.Subset.refl _⟩
  have hsound := h.invariant hinit fun _ _ _ hs ha hstep => sound_step hs ha hstep
  intro r key wanted hr _ hget hordinary hdefault
  rw [hsound.opts] at hdefault ⊢
  obtain ⟨hpath, haddress⟩ := path_of_default hderp hordinary hdefault
  have hproven := hsound.vouched.wanted r key wanted hr hget hpath hordinary
  exact ⟨wanted.direct, hsound.proven hproven, hproven, haddress⟩

/-! ## Particular runs -/

/-- The endpoint that thread `t` is about to publish, and whether the peer is WireGuard-only. -/
def PathState.publishing (s : PathState) (t : Nat) : Option (PeerEndpoint × Bool) :=
  match s.cfg.top t with
  | some (.reconciling r) => r.phase.publishes.bind fun key => (r.desired.get key).map fun wanted =>
      (peerEndpoint s.cfg.shared.client.opts wanted, wanted.node.isWireGuardOnly)
  | _ => none

theorem exists_publishing {s : PathState} {t : Nat} {endpoint : PeerEndpoint} {wireGuardOnly : Bool}
    (h : s.publishing t = some (endpoint, wireGuardOnly)) :
    ∃ r key wanted, .reconciling r ∈ s.cfg.frames ∧ r.phase.publishes = some key ∧
      r.desired.get key = some wanted ∧ wanted.node.isWireGuardOnly = wireGuardOnly ∧
      peerEndpoint s.cfg.shared.client.opts wanted = endpoint := by
  unfold PathState.publishing at h
  split at h
  · next r htop =>
    obtain ⟨key, hkey, h⟩ := Option.bind_eq_some_iff.mp h
    obtain ⟨wanted, hwanted, h⟩ := Option.map_eq_some_iff.mp h
    cases h
    refine ⟨r, key, wanted, ?_, hkey, hwanted, rfl, rfl⟩
    rw [Config.frames_eq htop]
    exact mem_cons_self _ _
  · cases h

/-- Options with which direct peers are put on wgo's default transport. -/
def directOptions : Options := { sampleOptions with useDefaultTransportForDirectPeers := true }

/-- A peer with a home region and an endpoint of which nobody knows whether it works. -/
def directPeer : Node :=
  { id := 2, key := ⟨42⟩, discoKey := ⟨9⟩, homeDERP := 1
    endpoints := some [⟨.v4 0x01020304, 5⟩] }

/-- `reconcilePeers` on thread `t` makes `n` steps from its snapshot on. -/
def reconcileDirectPeer (t : Nat) (applied : List NodePublic) (n : Nat) : Schedule :=
  steps t 1 { nodeOrder := [2], keyOrder := applied } ++ steps t n { keyOrder := [⟨42⟩] }

/-- A response that brings the self node and the peer. -/
def directResponse : MapResponse :=
  { node := some { id := 1, key := ⟨7⟩ }, peers := some [some directPeer] }

/-- The client has received the peer and published it on the named transport, and its bind is open. -/
def receiveDirectPeer : Schedule :=
  receiveFirst directResponse ++
    steps 1 12 ++ reconcileDirectPeer 1 [] 15 ++ [.start .bindOpen] ++
    steps 8 1 { keyOrder := [⟨42⟩], listen := .ok ⟨.v4 0x0a000001, 41641⟩ }

/-- A path reaches the client, and `reconcilePeers` is about to publish the peer with it. -/
def publishPath : List PathAct :=
  .deliver 0 :: (steps 9 4 ++ steps 3 3 ++ reconcileDirectPeer 3 [⟨42⟩] 5).map .program

/-- No peer was reached as a WireGuard-only one, and none is sent to. -/
def unsent (s : PathState) : PathAct → Bool
  | .send .. => false
  | _ => s.wireGuardOnly.isEmpty

theorem answered_of_unsent {s : PathState} {a : PathAct} (h : unsent s a = true) : Answered s a := by
  cases a with
  | program a =>
    cases a with
    | run t ch =>
      have hnone : s.wireGuardOnly = [] := List.isEmpty_iff.mp h
      intro api _ id node _ hmem
      rw [hnone] at hmem
      cases hmem
    | start | env => trivial
  | send endpoint now outcome => cases h
  | receive | disco | deliver => trivial

/-- The peer pings from another address, with which it is published. -/
theorem default_transport_proven_pinged :
    ∃ s, pathSystem.Reach Answered { cfg := initial directOptions (some ⟨7⟩) } s ∧
      s.publishing 3 = some (⟨defaultTransportID, "5.6.7.8:9"⟩, false) ∧ DefaultProven s := by
  have hrun : (pathSystem.runIf (fun s a => unsent s a = true)
      { cfg := initial directOptions (some ⟨7⟩) }
      (receiveDirectPeer.map .program ++
        [.receive ⟨9⟩ ⟨.v4 0x05060708, 9⟩ (.ping none), .disco 0 10] ++ publishPath)).map
      (fun s => s.publishing 3) = some (some (⟨defaultTransportID, "5.6.7.8:9"⟩, false)) := by
    decide +kernel
  obtain ⟨s, hreach, hpublishing⟩ := System.exists_reach_of_runIf hrun
  have hreach := hreach.mono fun _ _ => answered_of_unsent
  exact ⟨s, hreach, hpublishing, default_transport_proven rfl hreach⟩

/-- With DERP down, `Send` falls back to the endpoint that the control server named, and the peer is
published with it although nobody was heard. -/
theorem default_transport_unproven :
    ∃ s, pathSystem.Reach (fun _ _ => True) { cfg := initial directOptions (some ⟨7⟩) } s ∧
      ¬ DefaultProven s := by
  have hrun : (pathSystem.runIf (fun _ _ => True) { cfg := initial directOptions (some ⟨7⟩) }
      (receiveDirectPeer.map .program ++ [.send (.node ⟨42⟩) 10 { derp := false }] ++
        publishPath)).map (fun s => (s.heard, s.publishing 3)) =
      some ([], some (⟨defaultTransportID, "1.2.3.4:5"⟩, false)) := by
    decide +kernel
  obtain ⟨s, hreach, hview⟩ := System.exists_reach_of_runIf hrun
  obtain ⟨hheard, hpublishing⟩ := Prod.mk.inj hview
  refine ⟨s, hreach, fun hproven => ?_⟩
  obtain ⟨r, key, wanted, hr, hkey, hwanted, hordinary, hendpoint⟩ := exists_publishing hpublishing
  obtain ⟨addr, hmem, -⟩ := hproven r key wanted hr hkey hwanted hordinary (by rw [hendpoint])
  rw [hheard] at hmem
  cases hmem

end WgoTailscale
