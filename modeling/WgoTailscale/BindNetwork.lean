import WgoTailscale.BindDisco
import WgoTailscale.Program

/-!
# The bind apart from its peers

The operations on peers leave the rest of the bind alone: its configuration, its own endpoints and its
DERP configuration (`Bind.network`). `network_run` and `network_env` say so for the calls that the
client makes and for what the bind does on its own.
-/

namespace WgoTailscale

namespace Bind

variable (b : Bind)

theorem network_updatePeer (config : PeerConfig) : (b.updatePeer config).network = b.network := by
  have hreplace (state : PeerState) (config : PeerConfig) :
      (b.replacePeer state config).network = b.network := by
    unfold Bind.replacePeer
    dsimp only
    repeat' split
    all_goals rfl
  unfold Bind.updatePeer
  split
  · exact hreplace _ _
  · split
    · rfl
    · exact hreplace _ _

theorem network_removePeer (key : NodePublic) : (b.removePeer key).network = b.network := by
  unfold Bind.removePeer
  cases b.peers.get key <;> rfl

theorem network_removePeers (keys : List NodePublic) :
    (keys.foldl Bind.removePeer b).network = b.network := by
  induction keys generalizing b with
  | nil => rfl
  | cons key keys ih => rw [List.foldl_cons, ih, network_removePeer]

theorem network_closeBind : b.closeBind.network = b.network := by
  unfold Bind.closeBind
  split <;> rfl

/-- `Open` keeps the configuration and the DERP configuration, and the endpoints unless it opens the
bind. -/
theorem network_openBind (listen : Listen) (now : Time) (order : List NodePublic)
    (interfaces : List String) {b' : Bind} (h : b.openBind listen now order interfaces = b') :
    b'.cfg = b.cfg ∧ b'.derpMap = b.derpMap ∧ b'.selfDERP = b.selfDERP ∧
      (b.isOpen = false ∧ b'.isOpen = true ∨ b'.network = b.network) := by
  subst h
  rcases openBind_cases b listen now order interfaces with
    ⟨-, closed, heq⟩ | ⟨-, hclosed, conn, localEndpoints, heq⟩
  · rw [heq]
    exact ⟨rfl, rfl, rfl, .inr rfl⟩
  · obtain ⟨-, hnetwork, hopen, -⟩ := reopen_keeps (b.installed conn) now order
    simp only [network, Prod.mk.injEq] at hnetwork
    rw [heq]
    exact ⟨hnetwork.1, hnetwork.2.2.2.1, hnetwork.2.2.2.2, .inl ⟨hclosed, hopen⟩⟩

/-- The operations that the bind makes on its own keep it. -/
theorem network_exec {op : BindOp} {b' : Bind} (h : b.exec op = some b')
    (hinternal : op.isInternal = true) : b'.network = b.network := by
  cases op with
  | setDirect node addr latency now =>
    cases h
    exact (peerStep_setDirect node b addr latency now).network
  | addLearnedCandidates node fresh now =>
    cases h
    exact (peerStep_addLearned node b fresh now).network
  | pruneLearnedCandidates node now =>
    cases h
    exact (peerStep_prune node b now).network
  | closeBind =>
    cases h
    exact b.network_closeBind
  | probePeer node now =>
    cases h
    exact (peerStep_probePeer node b now).network
  | recordPing tx ping =>
    cases h
    rfl
  | updatePeer | removePeer | openBind => cases hinternal

end Bind

/-- The calls that concern peers only, or the bind's state of being open. -/
def BindAct.ofPeers : BindAct → Bool
  | .updatePeer _ | .removePeer _ | .removePeers _ | .shutdown | .answerSTUN _ => true
  | _ => false

theorem network_run (bind : Option Bind) {act : BindAct} (h : act.ofPeers = true) :
    (act.run bind).map Bind.network = bind.map Bind.network := by
  cases bind with
  | none => cases act with
    | create cfg => cases h
    | _ => rfl
  | some b =>
    cases act with
    | updatePeer config => exact congrArg some (b.network_updatePeer config)
    | removePeer key => exact congrArg some (b.network_removePeer key)
    | removePeers keys => exact congrArg some (b.network_removePeers keys)
    | shutdown => exact congrArg some b.network_closeBind
    | answerSTUN tx => rfl
    | _ => cases h

/-- The environment keeps what the bind has apart from its peers. -/
theorem network_env {a : EnvAct} {s s' : Sys} (h : environment a s = some s') :
    s'.bind.map Bind.network = s.bind.map Bind.network := by
  revert h
  fun_cases environment a s <;> intro h <;> cases h
  case case11 hb hinternal _ hb' =>
    rw [hb]
    exact congrArg some (Bind.network_exec _ hb' hinternal)
  case case14 hb _ =>
    rw [hb]
    rfl
  all_goals rfl

end WgoTailscale
