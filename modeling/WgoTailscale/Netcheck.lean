import Mathlib.Data.Finset.Option
import WgoTailscale.Bind
import WgoTailscale.DerpHome
import WgoTailscale.Lib.Threads
import WgoTailscale.NetipText
import WgoTailscale.Sections

/-!
# Netcheck rounds (`tailnet/netcheck.go`, `tailnet/stun.go`)

`kickDiscovery` starts a round: it selects the regions to measure, sends each a STUN request and
leaves it to `finishDERPCheck` to report what was measured. Here this is a machine, one critical
section, channel operation or write at a time, together with `handleSTUN`, which credits the
replies, and `Open` and `Close`, which drop rounds. A round is named by its id, which is never used
again. `NetcheckMove` is the table of what a step can be.
-/

namespace WgoTailscale

/-! ## Targets -/

/-- `derpCheckMinInterval`. -/
def derpCheckMinInterval : Duration := 10 * second

/-- `derpFullCheckInterval`. -/
def derpFullCheckInterval : Duration := 300 * second

/-- `maxIncrementalDERPRegions`. -/
def maxIncrementalDERPRegions : Nat := 3

/-- `maxFullDERPRegions`. -/
def maxFullDERPRegions : Nat := 64

/-- `derpProbeTarget`. -/
structure DerpProbeTarget where
  regionID : Int
  stun : Option DERPNode := none
  https : Option DERPNode := none

/-- The target that `selectDERPProbeTargets` makes of a region: its first node that answers STUN and
its first node that relays. -/
def probeTarget (mapID : Int) (region : DERPRegion) : DerpProbeTarget :=
  let regionID := if mapID = 0 then region.regionID else mapID
  (Slice.list region.nodes).foldl (fun target node => match node with
    | none => target
    | some node =>
      let node := if node.regionID = 0 then { node with regionID } else node
      { target with
        stun := if target.stun.isNone ∧ 0 ≤ node.stunPort then some node else target.stun
        https := if target.https.isNone ∧ ¬ node.stunOnly then some node else target.https })
    { regionID }

/-- The order of `selectDERPProbeTargets`: measured regions first, by latency, then by id. -/
def compareTargets (latest : FinMap Int DERPRegionLatency) (a c : DerpProbeTarget) : Ordering :=
  match latest.get a.regionID, latest.get c.regionID with
  | some _, none => .lt
  | none, some _ => .gt
  | some aMetric, some cMetric =>
    (compare aMetric.latency cMetric.latency).then (compare a.regionID c.regionID)
  | none, none => compare a.regionID c.regionID

/-- The regions that can be measured, as the loop of `selectDERPProbeTargets` over the map collects
them; `order` is the order in which it visits the regions. -/
def probeTargetsFrom (order : List Int) (derpMap : Option DERPMap) : List DerpProbeTarget :=
  order.filterMap fun mapID => (regionOf derpMap mapID).bind fun region =>
    let target := probeTarget mapID region
    if region.noMeasureNoHome ∨ target.https.isNone then none else some target

/-- `selectDERPProbeTargets`. -/
def selectDERPProbeTargetsFrom (order : List Int) (derpMap : Option DERPMap) (home : Int)
    (latest : FinMap Int DERPRegionLatency) (full : Bool) : List DerpProbeTarget :=
  let all := sortBy (compareTargets latest) (probeTargetsFrom order derpMap)
  if full ∨ all.length ≤ maxIncrementalDERPRegions then all
  else
    let selected := all.take maxIncrementalDERPRegions
    if home = 0 ∨ selected.any (·.regionID = home) then selected
    else match all.find? (·.regionID = home) with
      | none => selected
      | some target =>
        sortBy (fun a c => compare a.regionID c.regionID) (selected.dropLast ++ [target])

/-- `limitDERPProbeTargets`. -/
def limitDERPProbeTargets (targets : List DerpProbeTarget) (home : Int) (limit : Nat) :
    List DerpProbeTarget :=
  if limit = 0 then []
  else if targets.length ≤ limit then targets
  else
    let selected := targets.take limit
    if home = 0 ∨ selected.any (·.regionID = home) then selected
    else match (targets.drop limit).find? (·.regionID = home) with
      | none => selected
      | some target => selected.dropLast ++ [target]

/-- The addresses to which `querySTUN` sends; `resolved` is what the host name resolves to. -/
def stunAddresses (node : DERPNode) (resolved : List Addr) : List Addr :=
  let addresses := [node.stunTestIP, node.ipv4, node.ipv6].filterMap fun raw =>
    (parseAddr raw).map Addr.unmap
  if addresses.isEmpty ∧ node.hostName ≠ "" then (resolved.filter Addr.isValid).map Addr.unmap
  else addresses

/-! ## The machine -/

/-- `derpCheckRound`. The sets say which of the targets were answered, could not be sent to, and are
not in `remaining` any more. -/
structure DerpCheckRound where
  full : Bool := false
  targets : List DerpProbeTarget := []
  remaining : Int := 0
  latencies : FinMap Int DERPRegionLatency := ∅
  /-- A channel of capacity one. -/
  stunDone : Bool := false
  /-- The HTTPS probes that `finishDERPCheck` waits for. -/
  wg : Nat := 0
  /-- Does the round send STUN requests? -/
  usesSTUN : Bool := false
  answered : Finset Nat := ∅
  failed : Finset Nat := ∅
  counted : Finset Nat := ∅
  /-- Was there a send to `stunDone`? -/
  signalled : Bool := false

/-- The targets to which the round sends a STUN request, by their positions. -/
def DerpCheckRound.stunTargets (r : DerpCheckRound) : Finset Nat :=
  (Finset.range r.targets.length).filter fun i =>
    r.usesSTUN ∧ (r.targets[i]?.bind (·.stun)).isSome

/-- The regions that a round measures. -/
def DerpCheckRound.regions (r : DerpCheckRound) : List Int := r.targets.map (·.regionID)

/-- An entry of `stunPending`, with the position of its target. -/
structure PendingProbe extends STUNProbe where
  target : Nat

/-- A latency passed to `recordDERPLatency`. -/
structure LatencySample where
  checkID : Nat
  regionID : Int
  latency : Duration

/-- A report of a round, and the latencies that had been recorded. -/
structure RoundReport where
  checkID : Nat
  report : DERPLatencyReport
  samples : List LatencySample

/-- The part of `Bind` that the rounds use, with the rounds that were ever started. -/
structure Netcheck where
  cfg : BindConfig
  isOpen : Bool := false
  /-- Is there a UDP connection? -/
  conn : Bool := false
  /-- The contexts are numbered by the calls of `Open`. -/
  ctx : Nat := 0
  cancelled : Finset Nat := ∅
  derpMap : Option DERPMap := none
  selfDERP : Int := 0
  lastDERPCheck : Time := 0
  lastFullDERPCheck : Time := 0
  derpLatency : FinMap Int DERPRegionLatency := ∅
  derpCheckID : Nat := 0
  derpCheck : Option Nat := none
  rounds : Nat → DerpCheckRound := fun _ => {}
  stunPending : FinMap TxID PendingProbe := ∅
  /-- The positive latencies recorded for regions, most recent first. -/
  samples : List LatencySample := []
  /-- The rounds that were replaced by another one, or dropped by `Open`, before they ended. -/
  superseded : Finset Nat := ∅
  /-- The reports, most recent first. -/
  reports : List RoundReport := []

/-- The program points. -/
inductive NetcheckFrame where
  | kickDiscovery
  | startRound (ctx id : Nat)
  | querySTUN (ctx id i : Nat)
  | writeSTUN (id i : Nat) (tx : TxID) (addresses : List Addr)
  | completeSTUNProbe (id i : Nat)
  | signalSTUN (id : Nat)
  | handleSTUN (tx : TxID) (mapped : AddrPort)
  | recordDERPLatency (id : Nat) (regionID : Int) (latency : Duration) (source : DERPLatencySource)
  | finishDERPCheck (ctx id : Nat)
  | finishProbes (id : Nat)
  | measureHTTPS (id i : Nat)
  | httpsDone (id : Nat)
  | waitHTTPS (id : Nat)
  | finishReport (id : Nat)
  | openBind
  | closeBind
  | cancel (ctx : Nat)

/-- What the `select` of `finishDERPCheck` receives. -/
inductive FinishEvent where
  | done
  | stunDone
  | timer

/-- What a step does not decide. -/
structure NetcheckChoice where
  now : Time := 0
  order : List Int := []
  resolved : List Addr := []
  tx : TxID := 0
  ok : Bool := true
  conn : Bool := true
  latency : Duration := 0
  event : FinishEvent := .timer

namespace Netcheck

def setRound (s : Netcheck) (id : Nat) (r : DerpCheckRound) : Netcheck :=
  { s with rounds := Function.update s.rounds id r }

/-- `kickDiscovery` forgets probes after a minute. -/
def pruneProbes (s : Netcheck) (now : Time) : Netcheck :=
  { s with stunPending := s.stunPending.filter fun _ probe => now - probe.sent ≤ 60 * second }

/-- Does `kickDiscovery` measure all regions? -/
def fullRequested (s : Netcheck) (now : Time) : Bool :=
  !s.cfg.disableDERP &&
    (s.lastFullDERPCheck = 0 || derpFullCheckInterval ≤ now - s.lastFullDERPCheck)

/-- The targets of a new round, and whether they are all regions. -/
def roundTargets (s : Netcheck) (order : List Int) (fullRequested : Bool) :
    List DerpProbeTarget × Bool :=
  let targets :=
    selectDERPProbeTargetsFrom order s.derpMap s.selfDERP s.derpLatency fullRequested
  let (targets, full) :=
    if maxFullDERPRegions < targets.length then
      (limitDERPProbeTargets targets s.selfDERP maxFullDERPRegions, false)
    else (targets, fullRequested)
  if s.cfg.disableDERP ∧ maxIncrementalDERPRegions < targets.length then
    (limitDERPProbeTargets targets s.selfDERP maxIncrementalDERPRegions, false)
  else (targets, full)

/-- The round that is current is superseded. -/
def supersede (s : Netcheck) : Finset Nat := s.superseded ∪ s.derpCheck.toFinset

/-- `kickDiscovery` installs a new round. -/
def newRound (s : Netcheck) (now : Time) (targets : List DerpProbeTarget) (full : Bool) :
    Netcheck :=
  let id := s.derpCheckID + 1
  let usesSTUN := !s.cfg.disableDiscovery && s.conn
  { s.setRound id
      { full, targets, usesSTUN
        remaining := if usesSTUN then targets.countP (·.stun.isSome) else 0 } with
    lastDERPCheck := now
    lastFullDERPCheck := if s.fullRequested now then now else s.lastFullDERPCheck
    derpCheckID := id
    derpCheck := some id
    superseded := s.supersede }

/-- `recordDERPLatency`, for the round that is current. -/
def recordLatency (s : Netcheck) (id : Nat) (metric : DERPRegionLatency) : Netcheck :=
  let r := s.rounds id
  let insert := s.setRound id { r with latencies := r.latencies.insert metric.regionID metric }
  match r.latencies.get metric.regionID with
  | none => insert
  | some previous => if previous.latency ≤ metric.latency then s else insert

/-- The end of `finishDERPCheck`; `order` is the order in which it visits the latencies. -/
def report (s : Netcheck) (id : Nat) (order : List Int) : Netcheck :=
  let r := s.rounds id
  let regions := sortBy (fun a c => compare a.regionID c.regionID)
    (order.filterMap r.latencies.get)
  { s with
    derpLatency := regions.foldl (fun latest metric => latest.insert metric.regionID metric)
      (if r.full then ∅ else s.derpLatency)
    derpCheck := none
    reports := { checkID := id, report := { regions, full := r.full }, samples := s.samples } ::
      s.reports }

/-- A target could not be sent to. -/
def fail (s : Netcheck) (id i : Nat) : Netcheck :=
  s.setRound id { s.rounds id with failed := insert i (s.rounds id).failed }

/-- A target was answered. -/
def answer (s : Netcheck) (id i : Nat) : Netcheck :=
  s.setRound id { s.rounds id with answered := insert i (s.rounds id).answered }

end Netcheck

/-- The positions of the targets with a node to probe. -/
def probedTargets (node : DerpProbeTarget → Option DERPNode) (targets : List DerpProbeTarget) :
    List Nat :=
  (List.range targets.length).filter fun i => (targets[i]?.bind node).isSome

/-- One step. -/
def netcheckStep (ch : NetcheckChoice) (s : Netcheck) :
    NetcheckFrame → Option (Outcome Netcheck NetcheckFrame)
  | .kickDiscovery =>
    if s.cfg.disableDiscovery ∧ s.cfg.disableDERP then some { state := s }
    else if ¬ s.isOpen ∨ s.derpMap.isNone ∨ ch.now - s.lastDERPCheck < derpCheckMinInterval then
      some { state := s }
    else if ¬ ∀ regions ∈ s.derpMap.bind (·.regions), regions.Listing ch.order then none
    else
      let s := s.pruneProbes ch.now
      let (targets, full) := s.roundTargets ch.order (s.fullRequested ch.now)
      if targets.isEmpty then some { state := s }
      else some { state := s.newRound ch.now targets full,
                  calls := [.startRound s.ctx (s.derpCheckID + 1)] }
  | .startRound ctx id =>
    let r := s.rounds id
    if r.remaining = 0 then
      some { state := s.setRound id { r with stunDone := true, signalled := true },
             spawned := [[.finishDERPCheck ctx id]] }
    else
      some { state := s,
             spawned := ((probedTargets (·.stun) r.targets).map fun i => [.querySTUN ctx id i]) ++
               [[.finishDERPCheck ctx id]] }
  | .querySTUN ctx id i =>
    match (s.rounds id).targets[i]? with
    | none => none
    | some target => match target.stun with
      | none => none
      | some node =>
        let port := if node.stunPort = 0 then 3478 else node.stunPort
        let addresses := stunAddresses node ch.resolved
        if port < 1 ∨ 65535 < port ∨ addresses.isEmpty ∨ ¬ ch.ok ∨ ¬ s.isOpen ∨ s.ctx ≠ ctx ∨
            ¬ s.conn then
          some { state := s.fail id i, calls := [.completeSTUNProbe id i] }
        else
          let probe : PendingProbe :=
            { sent := ch.now, checkID := id, regionID := target.regionID, target := i }
          some { state := { s with stunPending := s.stunPending.insert ch.tx probe },
                 calls := [.writeSTUN id i ch.tx addresses] }
  | .writeSTUN id i tx (_ :: addresses) =>
    if ch.ok then some { state := s }
    else some { state := s, calls := [.writeSTUN id i tx addresses] }
  | .writeSTUN id i tx [] =>
    some { state := { s with stunPending := s.stunPending.erase tx }.fail id i,
           calls := [.completeSTUNProbe id i] }
  | .completeSTUNProbe id i =>
    let r := s.rounds id
    if s.derpCheck ≠ some id ∨ r.remaining = 0 then some { state := s }
    else
      let r := { r with remaining := r.remaining - 1, counted := insert i r.counted }
      some { state := s.setRound id r,
             calls := if r.remaining = 0 then [.signalSTUN id] else [] }
  | .signalSTUN id =>
    some { state := s.setRound id { s.rounds id with stunDone := true, signalled := true } }
  | .handleSTUN tx mapped =>
    match s.stunPending.get tx with
    | none => some { state := s }
    | some probe =>
      let s := { s with stunPending := s.stunPending.erase tx }.answer probe.checkID probe.target
      if ¬ mapped.isValid ∨ mapped.addr.isUnspecified ∨ mapped.addr.isMulticast ∨ mapped.port = 0
      then some { state := s, calls := [.completeSTUNProbe probe.checkID probe.target] }
      else some { state := s,
                  calls := [.recordDERPLatency probe.checkID probe.regionID (ch.now - probe.sent)
                    .stun, .completeSTUNProbe probe.checkID probe.target] }
  | .recordDERPLatency id regionID latency source =>
    if regionID = 0 ∨ latency ≤ 0 then some { state := s }
    else
      let s := { s with samples := { checkID := id, regionID, latency } :: s.samples }
      if s.derpCheck ≠ some id then some { state := s }
      else some { state := s.recordLatency id { regionID, latency, source, time := ch.now } }
  | .finishDERPCheck ctx id =>
    match ch.event with
    | .done => if ctx ∈ s.cancelled then some { state := s } else none
    | .stunDone =>
      if (s.rounds id).stunDone then
        some { state := s.setRound id { s.rounds id with stunDone := false },
               calls := [.finishProbes id] }
      else none
    | .timer => some { state := s, calls := [.finishProbes id] }
  | .finishProbes id =>
    let r := s.rounds id
    if s.derpCheck ≠ some id then some { state := s }
    else if r.latencies.keys ≠ ∅ ∨ s.cfg.disableDERP then
      some { state := s, calls := [.finishReport id] }
    else
      let probes := probedTargets (·.https) r.targets
      some { state := s.setRound id { r with wg := probes.length }, calls := [.waitHTTPS id],
             spawned := probes.map fun i => [.measureHTTPS id i] }
  | .measureHTTPS id i =>
    match (s.rounds id).targets[i]? with
    | none => none
    | some target =>
      if ch.ok then
        some { state := s,
               calls := [.recordDERPLatency id target.regionID ch.latency .https, .httpsDone id] }
      else some { state := s, calls := [.httpsDone id] }
  | .httpsDone id =>
    some { state := s.setRound id { s.rounds id with wg := (s.rounds id).wg - 1 } }
  | .waitHTTPS id =>
    if (s.rounds id).wg = 0 then some { state := s, calls := [.finishReport id] } else none
  | .finishReport id =>
    if s.derpCheck ≠ some id then some { state := s }
    else if (s.rounds id).latencies.Listing ch.order then some { state := s.report id ch.order }
    else none
  | .openBind =>
    if s.isOpen ∨ ¬ ch.ok ∨ ¬ ch.conn ∧ s.cfg.disableDERP then some { state := s }
    else
      some { state := { s with
               isOpen := true, conn := ch.conn, ctx := s.ctx + 1, stunPending := ∅
               lastDERPCheck := 0, lastFullDERPCheck := 0, derpCheck := none
               superseded := s.supersede },
             calls := [.kickDiscovery] }
  | .closeBind =>
    if s.isOpen then
      some { state := { s with isOpen := false, conn := false }, calls := [.cancel s.ctx] }
    else some { state := s }
  | .cancel ctx => some { state := { s with cancelled := insert ctx s.cancelled } }

/-- The machine. `UpdateDERPMap` sets the map and the home; calls of the other functions are started
from outside, as is `handleSTUN` for every datagram that is a STUN response. -/
def netcheck : Machine Netcheck NetcheckFrame NetcheckChoice (Option DERPMap × Int) where
  exec f ch s := netcheckStep ch s f
  env e s := some { s with derpMap := e.1, selfDERP := e.2 }
  entry f _ := match f with
    | .kickDiscovery | .handleSTUN _ _ | .openBind | .closeBind => true
    | _ => false

/-! ## What a step can be -/

/-- The round of a frame. -/
def NetcheckFrame.round : NetcheckFrame → Option Nat
  | .startRound _ id | .querySTUN _ id _ | .writeSTUN id _ _ _ | .completeSTUNProbe id _
  | .signalSTUN id | .recordDERPLatency id _ _ _ | .finishDERPCheck _ id | .finishProbes id
  | .measureHTTPS id _ | .httpsDone id | .waitHTTPS id | .finishReport id => some id
  | _ => none

/-- The region that a frame measured. -/
def NetcheckFrame.region : NetcheckFrame → Option Int
  | .recordDERPLatency _ regionID _ _ => some regionID
  | _ => none

/-- The frames that send a probe or count it. -/
def NetcheckFrame.probes : NetcheckFrame → Bool
  | .startRound _ _ | .querySTUN _ _ _ | .writeSTUN _ _ _ _ | .completeSTUNProbe _ _
  | .signalSTUN _ => true
  | _ => false

/-- A frame that sends no probe, counts none and measured nothing; it is of the given round, or of
none. -/
structure NetcheckFrame.Plain (round : Option Nat) (f : NetcheckFrame) : Prop where
  probes : f.probes = false
  round : f.round = round ∨ f.round = none
  region : f.region = none

/-- The rounds are the same, up to `stunDone` and the HTTPS probes under way; probes may have been
forgotten. -/
structure Netcheck.SameProbes (s s' : Netcheck) : Prop where
  derpCheckID : s'.derpCheckID = s.derpCheckID
  derpCheck : s'.derpCheck = s.derpCheck
  superseded : s'.superseded = s.superseded
  reports : s'.reports = s.reports
  samples : s'.samples = s.samples
  rounds : ∀ id, ∃ stunDone wg, s'.rounds id = { s.rounds id with stunDone, wg }
  pending : ∀ tx probe, s'.stunPending.get tx = some probe → s.stunPending.get tx = some probe

/-- What a step can be. -/
inductive NetcheckMove (s : Netcheck) : NetcheckFrame → Outcome Netcheck NetcheckFrame → Prop
  | rest {f : NetcheckFrame} {o : Outcome Netcheck NetcheckFrame} (hf : f.probes = false)
      (hsame : s.SameProbes o.state) (hnew : ∀ g ∈ o.frames, g.Plain f.round) : NetcheckMove s f o
  | newRound {s' : Netcheck} (hsame : s.SameProbes s') (now : Time)
      (targets : List DerpProbeTarget) (full : Bool) :
      NetcheckMove s .kickDiscovery
        { state := s'.newRound now targets full
          calls := [.startRound s'.ctx (s'.derpCheckID + 1)] }
  | startEmpty (ctx id : Nat) (hremaining : (s.rounds id).remaining = 0) :
      NetcheckMove s (.startRound ctx id)
        { state := s.setRound id { s.rounds id with stunDone := true, signalled := true }
          spawned := [[.finishDERPCheck ctx id]] }
  | startProbes (ctx id : Nat) (hremaining : (s.rounds id).remaining ≠ 0) :
      NetcheckMove s (.startRound ctx id)
        { state := s
          spawned := ((probedTargets (·.stun) (s.rounds id).targets).map fun i =>
            [.querySTUN ctx id i]) ++ [[.finishDERPCheck ctx id]] }
  | queryFailed (ctx id i : Nat) :
      NetcheckMove s (.querySTUN ctx id i)
        { state := s.fail id i, calls := [.completeSTUNProbe id i] }
  | querySent (ctx id i : Nat) (tx : TxID) (addresses : List Addr) {probe : PendingProbe}
      (hid : probe.checkID = id) (htarget : probe.target = i)
      (hregion : probe.regionID ∈ (s.rounds id).regions) :
      NetcheckMove s (.querySTUN ctx id i)
        { state := { s with stunPending := s.stunPending.insert tx probe }
          calls := [.writeSTUN id i tx addresses] }
  | written (id i : Nat) (tx : TxID) (address : Addr) (addresses : List Addr) :
      NetcheckMove s (.writeSTUN id i tx (address :: addresses)) { state := s }
  | writeNext (id i : Nat) (tx : TxID) (address : Addr) (addresses : List Addr) :
      NetcheckMove s (.writeSTUN id i tx (address :: addresses))
        { state := s, calls := [.writeSTUN id i tx addresses] }
  | writeFailed (id i : Nat) (tx : TxID) :
      NetcheckMove s (.writeSTUN id i tx [])
        { state := { s with stunPending := s.stunPending.erase tx }.fail id i
          calls := [.completeSTUNProbe id i] }
  | uncounted (id i : Nat) (h : s.derpCheck ≠ some id ∨ (s.rounds id).remaining = 0) :
      NetcheckMove s (.completeSTUNProbe id i) { state := s }
  | counted (id i : Nat) (hremaining : (s.rounds id).remaining ≠ 0) {r : DerpCheckRound}
      (hr : r = { s.rounds id with
        remaining := (s.rounds id).remaining - 1, counted := insert i (s.rounds id).counted }) :
      NetcheckMove s (.completeSTUNProbe id i)
        { state := s.setRound id r, calls := if r.remaining = 0 then [.signalSTUN id] else [] }
  | signal (id : Nat) :
      NetcheckMove s (.signalSTUN id)
        { state := s.setRound id { s.rounds id with stunDone := true, signalled := true } }
  | answered (tx : TxID) (mapped : AddrPort) {probe : PendingProbe}
      (hprobe : s.stunPending.get tx = some probe) {calls : List NetcheckFrame}
      (hcalls : calls = [] ∨ ∃ latency,
        calls = [.recordDERPLatency probe.checkID probe.regionID latency .stun]) :
      NetcheckMove s (.handleSTUN tx mapped)
        { state :=
            { s with stunPending := s.stunPending.erase tx }.answer probe.checkID probe.target
          calls := calls ++ [.completeSTUNProbe probe.checkID probe.target] }
  | measured (id i : Nat) {regionID : Int} (hregion : regionID ∈ (s.rounds id).regions)
      (latency : Duration) :
      NetcheckMove s (.measureHTTPS id i)
        { state := s, calls := [.recordDERPLatency id regionID latency .https, .httpsDone id] }
  | sample (id : Nat) (regionID : Int) (latency : Duration) (source : DERPLatencySource)
      (hcurrent : s.derpCheck ≠ some id) :
      NetcheckMove s (.recordDERPLatency id regionID latency source)
        { state := { s with samples := ⟨id, regionID, latency⟩ :: s.samples } }
  | record (id : Nat) (metric : DERPRegionLatency) (source : DERPLatencySource)
      (hcurrent : s.derpCheck = some id) (hpos : 0 < metric.latency) :
      NetcheckMove s (.recordDERPLatency id metric.regionID metric.latency source)
        { state := { s with
              samples := ⟨id, metric.regionID, metric.latency⟩ :: s.samples }.recordLatency id
            metric }
  | report (id : Nat) {order : List Int} (hcurrent : s.derpCheck = some id)
      (horder : (s.rounds id).latencies.Listing order) :
      NetcheckMove s (.finishReport id) { state := s.report id order }
  | drop (isOpen conn : Bool) (ctx : Nat) (last lastFull : Time) :
      NetcheckMove s .openBind
        { state := { s with
            isOpen, conn, ctx, stunPending := ∅, lastDERPCheck := last
            lastFullDERPCheck := lastFull, derpCheck := none, superseded := s.supersede }
          calls := [.kickDiscovery] }

section
variable {s : Netcheck} {f : NetcheckFrame} {o : Outcome Netcheck NetcheckFrame} {id : Nat}
  {r : DerpCheckRound}

@[simp] theorem rounds_setRound_self : (s.setRound id r).rounds id = r := Function.update_self ..

theorem rounds_setRound_ne {id' : Nat} (h : id' ≠ id) :
    (s.setRound id r).rounds id' = s.rounds id' :=
  Function.update_of_ne h ..

theorem Netcheck.SameProbes.refl (s : Netcheck) : s.SameProbes s :=
  ⟨rfl, rfl, rfl, rfl, rfl, fun _ => ⟨_, _, rfl⟩, fun _ _ => id⟩

theorem Netcheck.SameProbes.pruneProbes (s : Netcheck) (now : Time) :
    s.SameProbes (s.pruneProbes now) := by
  refine ⟨rfl, rfl, rfl, rfl, rfl, fun _ => ⟨_, _, rfl⟩, fun tx probe hprobe => ?_⟩
  rw [Netcheck.pruneProbes, FinMap.get_filter, Option.filter_eq_some_iff] at hprobe
  exact hprobe.1

theorem Netcheck.SameProbes.setRound {stunDone : Bool} {wg : Nat}
    (hr : r = { s.rounds id with stunDone, wg }) : s.SameProbes (s.setRound id r) := by
  refine ⟨rfl, rfl, rfl, rfl, rfl, fun id' => ?_, fun _ _ h => h⟩
  by_cases h : id' = id
  · rw [h, rounds_setRound_self]
    exact ⟨_, _, hr⟩
  · rw [rounds_setRound_ne h]
    exact ⟨_, _, rfl⟩

/-- A step that only returns. -/
theorem NetcheckMove.stop (hf : f.probes = false) : NetcheckMove s f { state := s } :=
  .rest hf (.refl s) (by simp [Outcome.frames])

/-- A step to one frame. -/
theorem NetcheckMove.goto {s' : Netcheck} {g : NetcheckFrame} (hf : f.probes = false)
    (hsame : s.SameProbes s') (hg : g.Plain f.round) :
    NetcheckMove s f { state := s', calls := [g] } :=
  .rest hf hsame (by simpa [Outcome.frames] using hg)

theorem mem_regions {i : Nat} {target : DerpProbeTarget} (h : r.targets[i]? = some target) :
    target.regionID ∈ r.regions :=
  List.mem_map_of_mem (List.mem_of_getElem? h)

/-- The threads that a round starts. -/
theorem mem_startProbes {ctx : Nat} {is : List Nat}
    (h : f ∈ ({ state := s, spawned := (is.map fun i => [.querySTUN ctx id i]) ++
      [[.finishDERPCheck ctx id]] } : Outcome Netcheck NetcheckFrame).frames) :
    (∃ i ∈ is, f = .querySTUN ctx id i) ∨ f = .finishDERPCheck ctx id := by
  simpa [Outcome.frames, eq_comm] using h

theorem netcheckStep_move {ch : NetcheckChoice} (h : netcheckStep ch s f = some o) :
    NetcheckMove s f o := by
  revert h
  fun_cases netcheckStep ch s f
  case case3 | case8 | case9 | case25 | case27 | case32 | case37 | case40 => nofun
  all_goals
    intro h
    cases h
  case case1 | case2 | case18 | case21 | case24 | case29 | case38 | case41 | case44 =>
    exact .stop rfl
  case case4 => exact .rest rfl (.pruneProbes s _) (by simp [Outcome.frames])
  case case5 => exact .newRound (.pruneProbes s _) _ _ _
  case case6 hremaining => exact .startEmpty _ _ hremaining
  case case7 hremaining => exact .startProbes _ _ hremaining
  case case10 => exact .queryFailed _ _ _
  case case11 target htarget _ _ _ _ _ _ =>
    exact .querySent _ _ _ _ _ rfl rfl (mem_regions htarget)
  case case12 => exact .written _ _ _ _ _
  case case13 => exact .writeNext _ _ _ _ _
  case case14 => exact .writeFailed _ _ _
  case case15 hidle => exact .uncounted _ _ hidle
  case case16 hcurrent _ => exact .counted _ _ (fun h => hcurrent (.inr h)) rfl
  case case17 => exact .signal _
  case case19 hprobe _ _ => exact .answered _ _ hprobe (.inl rfl)
  case case20 hprobe _ _ => exact .answered _ _ hprobe (.inr ⟨_, rfl⟩)
  case case22 hcurrent => exact .sample _ _ _ _ hcurrent
  case case23 id regionID latency source hlatency _ hcurrent =>
    exact .record id { regionID, latency, source, time := ch.now } source (not_not.mp hcurrent)
      (not_le.mp fun h => hlatency (.inr h))
  case case26 => exact .goto rfl (.setRound rfl) ⟨rfl, .inl rfl, rfl⟩
  case case28 | case30 | case34 | case36 => exact .goto rfl (.refl s) ⟨rfl, .inl rfl, rfl⟩
  case case31 =>
    refine .rest rfl (.setRound rfl) fun g hg => ?_
    simp only [Outcome.frames, Multiset.mem_add, Multiset.mem_coe, List.mem_singleton,
      List.mem_flatten, List.mem_map] at hg
    obtain rfl | ⟨_, ⟨i, -, rfl⟩, hg⟩ := hg
    · exact ⟨rfl, .inl rfl, rfl⟩
    · obtain rfl := List.mem_singleton.mp hg
      exact ⟨rfl, .inl rfl, rfl⟩
  case case33 htarget _ => exact .measured _ _ (mem_regions htarget) _
  case case35 => exact .rest rfl (.setRound rfl) (by simp [Outcome.frames])
  case case39 hcurrent horder => exact .report _ (not_not.mp hcurrent) horder
  case case42 => exact .drop _ _ _ _ _
  case case43 =>
    exact .goto rfl ⟨rfl, rfl, rfl, rfl, rfl, fun _ => ⟨_, _, rfl⟩, fun _ _ => id⟩
      ⟨rfl, .inl rfl, rfl⟩
  case case45 =>
    exact .rest rfl ⟨rfl, rfl, rfl, rfl, rfl, fun _ => ⟨_, _, rfl⟩, fun _ _ => id⟩
      (by simp [Outcome.frames])

end

end WgoTailscale
